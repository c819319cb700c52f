import Mathlib.Logic.Relation
import PeerLink.Proofs.Module.Sending

/-!
# The life of a module

A module works whenever the connection or its owner calls it, and it is ended by a
teardown.  Callbacks that run through several modules leave every module at its
position, so what becomes of each of them can be followed by its position.
-/

namespace PeerLink

/-- Every entry is related to the entry at the same position of the second list, which
may have more entries. -/
def Evolves {σ : Type} (R : σ → σ → Prop) (before after : List σ) : Prop :=
  ∀ (i : Nat) (m : σ), before[i]? = some m → ∃ m', after[i]? = some m' ∧ R m m'

namespace Evolves

variable {σ : Type} {R S T : σ → σ → Prop} {first second third : List σ}

theorem refl (hR : ∀ m, R m m) (modules : List σ) : Evolves R modules modules := by
  intro i m hm
  exact ⟨m, hm, hR m⟩

theorem trans (hfirst : Evolves R first second) (hsecond : Evolves S second third)
    (hRS : ∀ m m' m'', R m m' → S m' m'' → T m m'') : Evolves T first third := by
  intro i m hm
  obtain ⟨m', hm', hR⟩ := hfirst i m hm
  obtain ⟨m'', hm'', hS⟩ := hsecond i m' hm'
  exact ⟨m'', hm'', hRS m m' m'' hR hS⟩

theorem cons {m m' : σ} (hm : R m m') (h : Evolves R first second) :
    Evolves R (m :: first) (m' :: second) := by
  intro i n hn
  cases i with
  | zero =>
    obtain rfl := Option.some.inj hn
    exact ⟨m', rfl, hm⟩
  | succ i => exact h i n hn

theorem append (hR : ∀ m, R m m) (modules added : List σ) :
    Evolves R modules (modules ++ added) := by
  intro i m hm
  have hlt := (List.getElem?_eq_some_iff.mp hm).1
  exact ⟨m, (List.getElem?_append_left hlt).trans hm, hR m⟩

theorem concat {m m' : σ} (h : Evolves R first second) (hlength : first.length = second.length)
    (hm : R m m') : Evolves R (first ++ [m]) (second ++ [m']) := by
  intro i n hn
  by_cases hi : i < first.length
  · rw [List.getElem?_append_left hi] at hn
    rw [List.getElem?_append_left (hlength ▸ hi)]
    exact h i n hn
  · rw [List.getElem?_append_right (Nat.le_of_not_lt hi)] at hn
    rw [List.getElem?_append_right (hlength ▸ Nat.le_of_not_lt hi), ← hlength]
    obtain ⟨hlast, rfl⟩ := List.getElem?_eq_some_iff.mp hn
    have hzero : i - first.length = 0 := Nat.lt_one_iff.mp hlast
    exact ⟨m', by rw [hzero]; rfl, by simpa using hm⟩

theorem each (hR : ∀ m, R m m) {act : σ → Reply σ Unit} (hact : ∀ m, R m (act m).next)
    (modules : List σ) : Evolves R modules (Reply.each act modules).next := by
  induction modules with
  | nil => exact refl hR []
  | cons m rest ih =>
    rw [Reply.each]
    split
    · exact cons (hact m) (refl hR rest)
    · exact cons (hact m) ih

theorem first? {α : Type} (hR : ∀ m, R m m) {act : σ → Option (Reply σ α)}
    (hact : ∀ m reply, act m = some reply → R m reply.next) {modules : List σ}
    {reply : Reply (List σ) α} (h : Reply.first? act modules = some reply) :
    Evolves R modules reply.next := by
  induction modules generalizing reply with
  | nil => cases h
  | cons m rest ih =>
    rw [Reply.first?] at h
    split at h
    · next used hused =>
      obtain rfl := Option.some.inj h
      exact cons (hact m used hused) (refl hR rest)
    · obtain ⟨later, hlater, rfl⟩ := Option.map_eq_some_iff.mp h
      exact cons (hR m) (ih hlater)

theorem offer [Capability σ] (hR : ∀ m, R m m)
    (hact : ∀ (m : σ) state command payload,
      R m (Capability.onCommand m state command payload).next)
    (state : ConnectionState) (command : UInt8) (payload : Bytes) (modules : List σ) :
    Evolves R modules (Capability.offer state command payload modules).next := by
  induction modules with
  | nil => exact refl hR []
  | cons m rest ih =>
    have hm := hact m state command payload
    rw [Capability.offer]
    split
    · dsimp only
      split
      · exact cons hm (refl hR rest)
      · exact cons hm (refl hR rest)
      · exact cons hm ih
    · exact cons (hR m) ih

theorem teardownAll [Capability σ] (hR : ∀ m : σ, R m (Capability.onTeardown m).1)
    (modules : List σ) : Evolves R modules (Capability.teardownAll modules).1 := by
  induction modules with
  | nil =>
    intro i m hm
    cases hm
  | cons m rest ih => exact cons (hR m) ih

end Evolves

namespace AnyModule

variable {X Y : Type} [Capability X] [SubProtocol Y]

/-- What a connection and its owner can have a module do, short of ending it. -/
inductive Works : AnyModule X Y → AnyModule X Y → Prop where
  | onHandshake (m : AnyModule X Y) (state : ConnectionState) (handshake : Handshake) :
    Works m (Capability.onHandshake m state handshake).next
  | onCommand (m : AnyModule X Y) (state : ConnectionState) (command : UInt8) (payload : Bytes) :
    Works m (Capability.onCommand m state command payload).next
  | send (registry : Registry Y) (state : ConnectionState) (name : String) (payload : Bytes) :
    Works (.registry registry) (.registry (registry.send state name payload).next)
  | exchange {registry : Registry Y} {state : ConnectionState} {message : PeerExchange}
      {reply : Reply (Registry Y) Unit}
      (h : registry.use? state (AnySubProtocol.exchange? message) = some reply) :
    Works (.registry registry) (.registry reply.next)
  | grant (fast : FastExtension) (state : ConnectionState) (host : Host) (pieceCount : UInt32) :
    Works (.fast fast) (.fast (fast.grant state host pieceCount).next)

/-- The module works any number of times. -/
abbrev Used : AnyModule X Y → AnyModule X Y → Prop := Relation.ReflTransGen Works

/-- The module works any number of times and is ended then. -/
def Ended (m m' : AnyModule X Y) : Prop :=
  ∃ last, Used m last ∧ m' = (Capability.onTeardown last).1

end AnyModule

end PeerLink
