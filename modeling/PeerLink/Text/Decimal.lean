import PeerLink.Bytes

/-!
# Decimal numbers in ASCII

Lengths and integers cross the wire as decimal digits.  `Decimal.value` reads
what `Decimal.digits` writes; a number has one spelling without leading zeros.
-/

namespace PeerLink
namespace Decimal

/-- Whether the byte is an ASCII digit. -/
def isDigit (byte : UInt8) : Bool := 48 ≤ byte && byte ≤ 57

/-- The digits of a number, most significant first, without leading zeros. -/
def digits (n : Nat) : Bytes :=
  if n < 10 then [UInt8.ofNat (48 + n)]
  else digits (n / 10) ++ [UInt8.ofNat (48 + n % 10)]

/-- The number that a run of digits spells.  Leading zeros count for nothing. -/
def value (run : Bytes) : Nat :=
  run.foldl (fun n byte => n * 10 + (byte.toNat - 48)) 0

/-- An integer in decimal, with a minus sign in front of a negative one. -/
def ofInt : Int → Bytes
  | .ofNat n => digits n
  | .negSucc n => 45 :: digits (n + 1)

theorem value_concat (run : Bytes) (byte : UInt8) :
    value (run ++ [byte]) = value run * 10 + (byte.toNat - 48) := by
  simp [value]

@[simp]
theorem value_digits (n : Nat) : value (digits n) = n := by
  fun_induction digits n with
  | case1 n h =>
    simp [value]
    omega
  | case2 n h ih =>
    rw [value_concat, ih]
    simp
    omega

theorem isDigit_of_mem_digits {n : Nat} {byte : UInt8} (h : byte ∈ digits n) :
    isDigit byte = true := by
  fun_induction digits n with
  | case1 n hn =>
    simp only [List.mem_singleton] at h
    subst h
    simp [isDigit, UInt8.le_iff_toNat_le]
    omega
  | case2 n hn ih =>
    rw [List.mem_append, List.mem_singleton] at h
    rcases h with h | rfl
    · exact ih h
    · simp [isDigit, UInt8.le_iff_toNat_le]
      omega

end Decimal
end PeerLink
