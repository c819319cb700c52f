import Mathlib.Algebra.Ring.Nat
import PeerLink.Bytes

/-!
# Operations that stop a program

A machine stops at a number that its word cannot hold, and at a position that is not there.
The operations of this module have no result in such a case, and a program that is written
with them has no result if one of its operations has none.  For each operation, a lemma says
what it gives where it does not stop.
-/

namespace PeerLink
namespace Guarded

/-- A number, if a word of so many bits can hold it. -/
def word (bits n : Nat) : Option Nat := if n < 2 ^ bits then some n else none

/-- The sum of two sizes, if it is a size. -/
def add (m n : Nat) : Option Nat := word 64 (m + n)

/-- The product of two sizes, if it is a size. -/
def mul (m n : Nat) : Option Nat := word 64 (m * n)

/-- The difference of two sizes, unless it is negative. -/
def sub (m n : Nat) : Option Nat := if n ≤ m then some (m - n) else none

/-- The bytes from one position up to another, if both are there and in order. -/
def slice (bytes : Bytes) (start stop : Nat) : Option Bytes :=
  if start ≤ stop ∧ stop ≤ bytes.length then some ((bytes.drop start).take (stop - start))
  else none

/-- The bytes behind the first `n`, if there are as many. -/
def advance (n : Nat) (bytes : Bytes) : Option Bytes :=
  if n ≤ bytes.length then some (bytes.drop n) else none

/-- Goes on with the result of a computation that may fail, unless it failed or stopped. -/
def andThen {ε α β : Type} (first : Option (Except ε α)) (next : α → Option (Except ε β)) :
    Option (Except ε β) :=
  first.bind fun result =>
    match result with
    | .error e => some (.error e)
    | .ok a => next a

theorem word_eq {bits n : Nat} (h : n < 2 ^ bits) : word bits n = some n := if_pos h

theorem add_eq {m n : Nat} (h : m + n < 2 ^ 64) : add m n = some (m + n) := word_eq h

theorem mul_eq {m n : Nat} (h : m * n < 2 ^ 64) : mul m n = some (m * n) := word_eq h

theorem sub_eq {m n : Nat} (h : n ≤ m) : sub m n = some (m - n) := if_pos h

theorem slice_eq {bytes : Bytes} {start stop : Nat} (horder : start ≤ stop)
    (hstop : stop ≤ bytes.length) :
    slice bytes start stop = some ((bytes.drop start).take (stop - start)) :=
  if_pos ⟨horder, hstop⟩

/-- A slice up to the end is all that follows its start. -/
theorem slice_end {bytes : Bytes} {start : Nat} (h : start ≤ bytes.length) :
    slice bytes start bytes.length = some (bytes.drop start) := by
  rw [slice_eq h (Nat.le_refl _), List.take_of_length_le (Nat.le_of_eq List.length_drop)]

theorem advance_eq {n : Nat} {bytes : Bytes} (h : n ≤ bytes.length) :
    advance n bytes = some (bytes.drop n) := if_pos h

theorem splitAt?_eq {n : Nat} {bytes : Bytes} (h : n ≤ bytes.length) :
    Bytes.splitAt? n bytes = some (bytes.take n, bytes.drop n) := by
  rw [Bytes.splitAt?, if_pos ((Bytes.hasAtLeast_iff n bytes).mpr h)]

/-- Two computations do not stop one after the other if neither of them does. -/
theorem andThen_eq {ε α β : Type} {first : Option (Except ε α)} {result : Except ε α}
    {next : α → Option (Except ε β)} {f : α → Except ε β} (hfirst : first = some result)
    (hnext : ∀ a, result = .ok a → next a = some (f a)) :
    andThen first next = some (result >>= f) := by
  subst hfirst
  cases result with
  | error e => rfl
  | ok a => exact hnext a rfl

end Guarded
end PeerLink
