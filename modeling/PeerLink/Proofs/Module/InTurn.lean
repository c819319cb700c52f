import PeerLink.Proofs.Module.Refusal

/-!
# Modules in turn

Modules are called in the order of their registration, up to and including the one that
makes an end of it: for a handshake the first that fails, and for a frame the first that
takes it or fails.  All that the called ones queue is queued in this order.
-/

namespace PeerLink

theorem Output.join_eq (outputs : List Output) :
    join outputs =
      ⟨outputs.flatMap frames, outputs.flatMap events, outputs.flatMap notes⟩ := by
  induction outputs with
  | nil => rfl
  | cons output rest ih =>
    change output ++ join rest = _
    rw [ih]
    rfl

theorem Output.join_map {α : Type} (f : α → Output) (xs : List α) :
    join (xs.map f) =
      ⟨xs.flatMap fun x => (f x).frames, xs.flatMap fun x => (f x).events,
        xs.flatMap fun x => (f x).notes⟩ := by
  simp only [join_eq, List.flatMap_map]

theorem Output.join_singleton (output : Output) : join [output] = output := by
  rw [join_eq]
  simp

/-- All members of a list have a property, or there is a first one that has not. -/
theorem forall_or_exists_first {α : Type} (p : α → Prop) (xs : List α) :
    (∀ x ∈ xs, p x) ∨
      ∃ front x behind, xs = front ++ x :: behind ∧ (∀ y ∈ front, p y) ∧ ¬ p x := by
  induction xs with
  | nil => exact .inl (List.forall_mem_nil _)
  | cons x rest ih =>
    by_cases hx : p x
    · rcases ih with hall | ⟨front, y, behind, rfl, hfront, hy⟩
      · exact .inl (List.forall_mem_cons.mpr ⟨hx, hall⟩)
      · exact .inr ⟨x :: front, y, behind, rfl, List.forall_mem_cons.mpr ⟨hx, hfront⟩, hy⟩
    · exact .inr ⟨[], x, rest, rfl, List.forall_mem_nil _, hx⟩

variable {σ : Type} {front behind modules : List σ} {m : σ}

namespace Reply

variable {act : σ → Reply σ Unit}

/-- Behind the first callback that fails, none runs. -/
theorem each_of_error {failure : Failure} (behind : List σ)
    (hfront : ∀ n ∈ front, (act n).result = .ok ()) (hm : (act m).result = .error failure) :
    each act (front ++ m :: behind) =
      .fail ((front ++ [m]).map (fun n => (act n).next) ++ behind) failure
        (.join ((front ++ [m]).map fun n => (act n).output)) := by
  induction front with
  | nil =>
    rw [List.nil_append, each]
    simp only [hm]
    rw [List.nil_append, List.map_singleton, List.map_singleton, Output.join_singleton]
    rfl
  | cons n front ih =>
    obtain ⟨hn, hlater⟩ := List.forall_mem_cons.mp hfront
    rw [List.cons_append, each]
    simp only [hn]
    rw [ih hlater]
    rfl

theorem each_cases (act : σ → Reply σ Unit) (modules : List σ) :
    (∀ m ∈ modules, (act m).result = .ok ()) ∨
      ∃ front m behind failure, modules = front ++ m :: behind ∧
        (∀ n ∈ front, (act n).result = .ok ()) ∧ (act m).result = .error failure := by
  rcases forall_or_exists_first (fun m => (act m).result = .ok ()) modules with
    hall | ⟨front, m, behind, hmodules, hfront, hm⟩
  · exact .inl hall
  · cases hresult : (act m).result with
    | ok => exact absurd hresult hm
    | error failure => exact .inr ⟨front, m, behind, failure, hmodules, hfront, hresult⟩

end Reply

namespace Capability

variable [Capability σ]

theorem teardownAll_eq (modules : List σ) :
    teardownAll modules =
      (modules.map fun m => (onTeardown m).1, modules.flatMap fun m => (onTeardown m).2) := by
  induction modules with
  | nil => rfl
  | cons m rest ih => rw [teardownAll, ih, List.map_cons, List.flatMap_cons]

/-- The bits of all modules are joined byte by byte. -/
theorem getElem_reserved (modules : List σ) {place : Nat} (hplace : place < 8) :
    (reserved modules)[place] =
      (modules.map fun m => (descriptor m).reserved[place]).foldl (· ||| ·) 0 := by
  have hfold : ∀ bits : CapabilityBits,
      (modules.foldl (fun bits m => bits.union (descriptor m).reserved) bits)[place] =
        (modules.map fun m => (descriptor m).reserved[place]).foldl (· ||| ·) bits[place] := by
    induction modules with
    | nil => exact fun _ => rfl
    | cons m rest ih =>
      intro bits
      have hunion : (bits.union (descriptor m).reserved)[place] =
          bits[place] ||| (descriptor m).reserved[place] := Vector.getElem_zipWith hplace
      rw [List.foldl_cons, ih, hunion]
      rfl
  have hnone : CapabilityBits.none[place] = 0 := Vector.getElem_replicate hplace
  rw [reserved, hfold, hnone]

/-! ## Frames -/

variable {state : ConnectionState} {command : UInt8} {payload : Bytes}

/-- What a module makes of a frame.  One that does not claim the command is not asked, which
passes the frame on. -/
def answer (state : ConnectionState) (command : UInt8) (payload : Bytes) (m : σ) : Reply σ Bool :=
  if claims m command then onCommand m state command payload else .ok m false .none

theorem offer_cons (state : ConnectionState) (command : UInt8) (payload : Bytes) (m : σ)
    (rest : List σ) :
    offer state command payload (m :: rest) =
      match (answer state command payload m).result with
      | .ok false =>
        ((offer state command payload rest).mapNext
          ((answer state command payload m).next :: ·)).after
            (answer state command payload m).output
      | result =>
        ⟨result, (answer state command payload m).next :: rest,
          (answer state command payload m).output⟩ := by
  rw [offer, answer]
  by_cases hclaims : claims m command = true
  · rw [if_pos hclaims, if_pos hclaims]
    dsimp only
    rcases (onCommand m state command payload).result with failure | (_ | _)
    · rfl
    · rfl
    · rfl
  · rw [if_neg hclaims, if_neg hclaims]
    rfl

theorem offer_of_passed
    (h : ∀ m ∈ modules, (answer state command payload m).result = .ok false) :
    offer state command payload modules =
      .ok (modules.map fun m => (answer state command payload m).next) false
        (.join (modules.map fun m => (answer state command payload m).output)) := by
  induction modules with
  | nil => rfl
  | cons m rest ih =>
    obtain ⟨hm, hrest⟩ := List.forall_mem_cons.mp h
    rw [offer_cons]
    simp only [hm]
    rw [ih hrest]
    rfl

/-- Behind the first module that does not pass the frame on, none is asked. -/
theorem offer_of_stopped
    (hfront : ∀ n ∈ front, (answer state command payload n).result = .ok false)
    (hm : (answer state command payload m).result ≠ .ok false) :
    offer state command payload (front ++ m :: behind) =
      ⟨(answer state command payload m).result,
        (front ++ [m]).map (fun n => (answer state command payload n).next) ++ behind,
        .join ((front ++ [m]).map fun n => (answer state command payload n).output)⟩ := by
  induction front with
  | nil =>
    rw [List.nil_append, offer_cons, List.nil_append, List.map_singleton, List.map_singleton,
      Output.join_singleton]
    split
    · next hpassed => exact absurd hpassed hm
    · rfl
  | cons n front ih =>
    obtain ⟨hn, hlater⟩ := List.forall_mem_cons.mp hfront
    rw [List.cons_append, offer_cons]
    simp only [hn]
    rw [ih hlater]
    rfl

end Capability
end PeerLink
