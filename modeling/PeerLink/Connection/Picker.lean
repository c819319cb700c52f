/-!
# Picking pieces at random

A bitfield is disguised by pieces that are picked at random.  The picks need not
withstand an attacker, so a small generator with 64 bits of state is enough.  It is what a
connection picks with unless its settings name something else.
-/

namespace PeerLink

/-- A generator of random words. -/
structure Picker where
  state : UInt64
  deriving DecidableEq, Repr

namespace Picker

/-- The next word, and the generator behind it. -/
def next (picker : Picker) : UInt64 × Picker :=
  let state := picker.state + 0x9E3779B97F4A7C15
  let word := (state ^^^ (state >>> 30)) * 0xBF58476D1CE4E5B9
  let word := (word ^^^ (word >>> 27)) * 0x94D049BB133111EB
  (word ^^^ (word >>> 31), ⟨state⟩)

/-- Adds one pick from the first `bound + 1` numbers: a random one, or the last
of them if that was picked before. -/
def pick (bound : Nat) (picks : List Nat) (picker : Picker) : List Nat × Picker :=
  let (word, picker) := picker.next
  let choice := word.toNat % (bound + 1)
  (if picks.contains choice then bound :: picks else choice :: picks, picker)

/-- Picks `amount` different numbers below `bound`, which must not be less. -/
def sample (bound : Nat) (picker : Picker) : (amount : Nat) → List Nat × Picker
  | 0 => ([], picker)
  | amount + 1 =>
    let (picks, picker) := sample (bound - 1) picker amount
    pick (bound - 1) picks picker

end Picker
end PeerLink
