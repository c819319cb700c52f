import Mathlib.Data.List.Basic
import Mathlib.Data.List.Induction
import PeerLink.Text.Decimal

/-!
# The shortest decimal spelling

A number has many spellings by digits, which differ in the zeros in front, and
one without a zero that could be left out.  This module shows that
`Decimal.digits` writes that one: a run of digits is written back digit by digit
exactly when it is the shortest.
-/

namespace PeerLink
namespace Decimal

/-- A run of digits: there is at least one byte, and all bytes are digits. -/
structure IsRun (run : Bytes) : Prop where
  ne_nil : run ≠ []
  isDigit : ∀ byte ∈ run, isDigit byte = true

/-- No zero in front could be left out. -/
def IsShortest (run : Bytes) : Prop :=
  run.head? = some 48 → run = [48]

instance (run : Bytes) : Decidable (IsShortest run) :=
  inferInstanceAs (Decidable (run.head? = some 48 → run = [48]))

/-- A run is not the shortest one exactly if more digits follow a zero. -/
theorem isShortest_iff {run : Bytes} :
    IsShortest run ↔ ¬(run.head? = some 48 ∧ 1 < run.length) := by
  cases run with
  | nil => simp [IsShortest]
  | cons byte run =>
    cases run with
    | nil => simp [IsShortest]
    | cons next run => simp [IsShortest]

theorem isDigit_iff {byte : UInt8} :
    isDigit byte = true ↔ 48 ≤ byte.toNat ∧ byte.toNat ≤ 57 := by
  simp [isDigit, UInt8.le_iff_toNat_le]

/-- A digit is neither a colon, a minus sign nor the closing mark. -/
theorem ne_of_isDigit {byte mark : UInt8} (hbyte : isDigit byte = true)
    (hmark : isDigit mark = false) : byte ≠ mark := by
  rintro rfl
  rw [hbyte] at hmark
  cases hmark

theorem digits_ne_nil (n : Nat) : digits n ≠ [] := by
  rw [digits]
  split <;> simp

theorem isRun_digits (n : Nat) : IsRun (digits n) :=
  ⟨digits_ne_nil n, fun _ hbyte => isDigit_of_mem_digits hbyte⟩

theorem digits_of_lt {n : Nat} (h : n < 10) : digits n = [UInt8.ofNat (48 + n)] := by
  rw [digits, if_pos h]

theorem digits_of_le {n : Nat} (h : 10 ≤ n) :
    digits n = digits (n / 10) ++ [UInt8.ofNat (48 + n % 10)] := by
  rw [digits, if_neg (Nat.not_lt.mpr h)]

/-- The byte of a digit is the one that its value is written as. -/
theorem ofNat_add_sub {byte : UInt8} (h : isDigit byte = true) :
    UInt8.ofNat (48 + (byte.toNat - 48)) = byte := by
  obtain ⟨hlow, -⟩ := isDigit_iff.mp h
  rw [Nat.add_sub_cancel' hlow]
  exact UInt8.ofNat_toNat

theorem IsRun.of_concat {run : Bytes} {byte : UInt8} (h : IsRun (run ++ [byte]))
    (hne : run ≠ []) : IsRun run :=
  ⟨hne, fun d hd => h.isDigit d (List.mem_append_left _ hd)⟩

/-- A run that does not begin with a zero spells a positive number. -/
theorem value_pos {run : Bytes} (h : IsRun run) (hhead : run.head? ≠ some 48) :
    0 < value run := by
  induction run using List.reverseRecOn with
  | nil => exact absurd rfl h.ne_nil
  | append_singleton run byte ih =>
    rw [value_concat]
    by_cases hrun : run = []
    · subst hrun
      have hdigit := isDigit_iff.mp (h.isDigit byte (by simp))
      have hne : byte.toNat ≠ 48 := by
        intro heq
        exact hhead (by simp [show byte = 48 from UInt8.toNat_inj.mp heq])
      omega
    · have hheadRun : run.head? ≠ some 48 := by
        rwa [List.head?_append_of_ne_nil _ hrun] at hhead
      have := ih (h.of_concat hrun) hheadRun
      omega

/-- The shortest run of a positive number does not begin with a zero. -/
theorem head?_ne_zero {run : Bytes} (hshort : IsShortest run) (hpos : 0 < value run) :
    run.head? ≠ some 48 := by
  intro hzero
  rw [hshort hzero] at hpos
  exact absurd hpos (by decide)

/-- The shortest run of digits is what its value is written as. -/
theorem digits_value {run : Bytes} (h : IsRun run) (hshort : IsShortest run) :
    digits (value run) = run := by
  induction run using List.reverseRecOn with
  | nil => exact absurd rfl h.ne_nil
  | append_singleton run byte ih =>
    have hbyte := h.isDigit byte (by simp)
    have hbound := isDigit_iff.mp hbyte
    rw [value_concat]
    by_cases hrun : run = []
    · subst hrun
      have hvalue : value [] * 10 + (byte.toNat - 48) = byte.toNat - 48 := by simp [value]
      rw [hvalue, digits_of_lt (by omega), ofNat_add_sub hbyte]
      rfl
    · have hhead : run.head? ≠ some 48 := by
        intro hzero
        have hall := hshort (by rw [List.head?_append_of_ne_nil _ hrun, hzero])
        have hlength := congrArg List.length hall
        simp only [List.length_append, List.length_singleton] at hlength
        exact hrun (List.length_eq_zero_iff.mp (by omega))
      have hpos := value_pos (h.of_concat hrun) hhead
      have hdiv : (value run * 10 + (byte.toNat - 48)) / 10 = value run := by omega
      have hmod : (value run * 10 + (byte.toNat - 48)) % 10 = byte.toNat - 48 := by omega
      rw [digits_of_le (by omega), hdiv, hmod, ofNat_add_sub hbyte,
        ih (h.of_concat hrun) (fun hzero => absurd hzero hhead)]

/-- What a number is written as begins with a zero only if it is zero. -/
theorem head?_digits_eq_zero {n : Nat} (h : (digits n).head? = some 48) : n = 0 := by
  fun_induction digits n with
  | case1 n hn =>
    have hbyte : UInt8.ofNat (48 + n) = 48 := by simpa using h
    have := congrArg UInt8.toNat hbyte
    simp only [UInt8.toNat_ofNat', UInt8.toNat_ofNat] at this
    omega
  | case2 n hn ih =>
    rw [List.head?_append_of_ne_nil _ (digits_ne_nil _)] at h
    have := ih h
    omega

theorem isShortest_digits (n : Nat) : IsShortest (digits n) := by
  intro h
  rw [head?_digits_eq_zero h, digits_of_lt (by decide)]
  rfl

/-- Taking digits off the front of a run stops at the first other byte. -/
theorem takeWhile_isDigit_append {run : Bytes} (h : ∀ byte ∈ run, isDigit byte = true)
    {mark : UInt8} (hmark : isDigit mark = false) (rest : Bytes) :
    (run ++ mark :: rest).takeWhile isDigit = run := by
  rw [List.takeWhile_append_of_pos h, List.takeWhile_cons_of_neg (by simp [hmark]),
    List.append_nil]

theorem dropWhile_isDigit_append {run : Bytes} (h : ∀ byte ∈ run, isDigit byte = true)
    {mark : UInt8} (hmark : isDigit mark = false) (rest : Bytes) :
    (run ++ mark :: rest).dropWhile isDigit = mark :: rest := by
  rw [List.dropWhile_append_of_pos h, List.dropWhile_cons_of_neg (by simp [hmark])]

end Decimal
end PeerLink
