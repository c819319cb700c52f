/-!
# Bits of a byte

Bit 0 is the least significant one.  The lemmas say what setting, clearing
and masking do to every bit.
-/

namespace PeerLink
namespace Octet

/-- Whether bit `k` of the byte is set. -/
def bit (byte : UInt8) (k : Nat) : Bool := byte.toNat.testBit k

/-- The byte with bit `k` set. -/
def setBit (byte : UInt8) (k : Nat) : UInt8 := byte ||| UInt8.ofNat (1 <<< k)

/-- The byte with bit `k` cleared. -/
def clearBit (byte : UInt8) (k : Nat) : UInt8 := byte &&& ~~~(UInt8.ofNat (1 <<< k))

/-- The byte with only its `k` lowest bits kept. -/
def low (byte : UInt8) (k : Nat) : UInt8 := UInt8.ofNat (byte.toNat % (1 <<< k))

/-- The number of set bits. -/
def count (byte : UInt8) : Nat := (List.range 8).countP (bit byte)

@[simp]
theorem bit_zero (k : Nat) : bit 0 k = false := by simp [bit]

theorem bit_of_le {byte : UInt8} {k : Nat} (h : 8 ≤ k) : bit byte k = false := by
  refine Nat.testBit_lt_two_pow (Nat.lt_of_lt_of_le byte.toNat_lt ?_)
  exact Nat.pow_le_pow_right (by decide) h

/-- The byte whose only set bit is bit `k` has the value of that bit. -/
theorem toNat_ofNat_shiftLeft {k : Nat} (hk : k < 8) :
    (UInt8.ofNat (1 <<< k)).toNat = 1 <<< k := by
  rw [UInt8.toNat_ofNat', Nat.one_shiftLeft]
  exact Nat.mod_eq_of_lt (Nat.pow_lt_pow_right (by decide) hk)

theorem bit_setBit {byte : UInt8} {j k : Nat} (hk : k < 8) :
    bit (setBit byte k) j = (bit byte j || decide (j = k)) := by
  rw [bit, setBit, UInt8.toNat_or, Nat.testBit_or, toNat_ofNat_shiftLeft hk,
    Nat.one_shiftLeft, Nat.testBit_two_pow]
  exact congrArg (bit byte j || ·) (decide_eq_decide.mpr eq_comm)

theorem bit_low {byte : UInt8} {j k : Nat} :
    bit (low byte k) j = (decide (j < k) && bit byte j) := by
  have h : byte.toNat % 2 ^ k < 2 ^ 8 :=
    Nat.lt_of_le_of_lt (Nat.mod_le _ _) byte.toNat_lt
  rw [bit, low, Nat.one_shiftLeft, UInt8.toNat_ofNat', Nat.mod_eq_of_lt h,
    Nat.testBit_mod_two_pow]
  rfl

theorem bit_clearBit {byte : UInt8} {j k : Nat} (hj : j < 8) (hk : k < 8) :
    bit (clearBit byte k) j = (bit byte j && decide (j ≠ k)) := by
  have h : 2 ^ k < 2 ^ 8 := Nat.pow_lt_pow_right (by decide) hk
  have hmask : (~~~(UInt8.ofNat (1 <<< k))).toNat = 2 ^ 8 - (2 ^ k + 1) := by
    have hsize : UInt8.size = 2 ^ 8 := rfl
    rw [UInt8.toNat_not, toNat_ofNat_shiftLeft hk, Nat.one_shiftLeft, hsize, Nat.sub_sub,
      Nat.add_comm 1]
  rw [bit, clearBit, UInt8.toNat_and, Nat.testBit_and, hmask, Nat.testBit_two_pow_sub_succ h,
    Nat.testBit_two_pow, decide_eq_true hj, Bool.true_and, ← decide_not]
  exact congrArg (bit byte j && ·) (decide_eq_decide.mpr (not_congr eq_comm))

theorem ext {a b : UInt8} (h : ∀ k, k < 8 → bit a k = bit b k) : a = b := by
  apply UInt8.toNat_inj.mp
  apply Nat.eq_of_testBit_eq
  intro k
  by_cases hk : k < 8
  · exact h k hk
  · have hle : 8 ≤ k := Nat.le_of_not_lt hk
    exact (bit_of_le hle).trans (@bit_of_le b k hle).symm

end Octet
end PeerLink
