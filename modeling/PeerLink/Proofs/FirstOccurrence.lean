import Mathlib.Data.List.Induction
import Mathlib.Data.List.Nodup

/-!
# Values in order of first occurrence

Several lists are kept free of repetitions: a value is added behind the others unless it is
there.  After any number of values, such a list is what `List.eraseDups` leaves of all of
them.  It only grows, so that what it was at some time is a prefix of what it is later, and
the other way round every prefix of it is what it was at some time.
-/

namespace PeerLink

variable {α : Type*} [BEq α] [LawfulBEq α]

theorem eraseDups_append_singleton (items : List α) (item : α) :
    (items ++ [item]).eraseDups =
      if items.contains item then items.eraseDups else items.eraseDups ++ [item] := by
  rw [List.eraseDups_append, List.removeAll, List.filter_singleton, List.contains]
  cases items.elem item with
  | true => exact List.append_nil _
  | false => rfl

theorem nodup_eraseDups (items : List α) : items.eraseDups.Nodup := by
  induction items using List.reverseRecOn with
  | nil => exact List.nodup_nil
  | append_singleton items item ih =>
    rw [eraseDups_append_singleton]
    split
    · exact ih
    · next hnew =>
      rw [List.contains_iff_mem, ← List.mem_eraseDups] at hnew
      rw [List.nodup_middle, List.append_nil]
      exact List.nodup_cons.mpr ⟨hnew, ih⟩

theorem eraseDups_of_nodup {items : List α} (h : items.Nodup) : items.eraseDups = items := by
  induction items using List.reverseRecOn with
  | nil => rfl
  | append_singleton items item ih =>
    rw [List.nodup_middle, List.append_nil] at h
    obtain ⟨hnew, hitems⟩ := List.nodup_cons.mp h
    rw [eraseDups_append_singleton, if_neg (mt List.contains_iff_mem.mp hnew), ih hitems]

/-- It makes no difference whether the first values are already free of repetitions. -/
theorem eraseDups_eraseDups_append (first second : List α) :
    (first.eraseDups ++ second).eraseDups = (first ++ second).eraseDups := by
  have hsame : second.removeAll first.eraseDups = second.removeAll first := by
    refine List.filter_congr fun item _ => ?_
    rw [Bool.eq_iff_iff]
    simp
  rw [List.eraseDups_append, List.eraseDups_append, hsame,
    eraseDups_of_nodup (nodup_eraseDups first)]

/-- Values that are new are added, in order. -/
theorem append_filter_eq_eraseDups {first second : List α} (hfirst : first.Nodup)
    (hsecond : second.Nodup) :
    first ++ second.filter (fun item => !first.contains item) = (first ++ second).eraseDups := by
  rw [List.eraseDups_append, eraseDups_of_nodup hfirst, List.removeAll,
    eraseDups_of_nodup (hsecond.filter _)]

/-! ## Prefixes -/

/-- Values that come later do not change those that are there. -/
theorem take_eraseDups_append {first : List α} {size : Nat} (h : size ≤ first.eraseDups.length)
    (second : List α) : (first ++ second).eraseDups.take size = first.eraseDups.take size := by
  rw [List.eraseDups_append, List.take_append_of_le_length h]

/-- Only the first `size` values that are there count for what the first `size` values are
later. -/
theorem take_eraseDups_take_append (first second : List α) (size : Nat) :
    (first.eraseDups.take size ++ second).eraseDups.take size =
      (first ++ second).eraseDups.take size := by
  rcases Nat.le_total first.eraseDups.length size with hfew | hmany
  · rw [List.take_of_length_le hfew, eraseDups_eraseDups_append]
  · have hdistinct := eraseDups_of_nodup ((List.take_sublist size _).nodup (nodup_eraseDups first))
    have hthere : size ≤ (first.eraseDups.take size).eraseDups.length := by
      rw [hdistinct, List.length_take]
      omega
    rw [take_eraseDups_append hthere, hdistinct, List.take_take, Nat.min_self,
      take_eraseDups_append hmany]

/-- Every prefix is what was there after some of the values. -/
theorem exists_take_eraseDups_eq (items : List α) (size : Nat) :
    ∃ count ≤ items.length, items.eraseDups.take size = (items.take count).eraseDups := by
  induction items using List.reverseRecOn with
  | nil => exact ⟨0, Nat.le_refl 0, List.take_nil⟩
  | append_singleton items item ih =>
    obtain ⟨count, hcount, hbefore⟩ := ih
    rcases Nat.lt_or_ge items.eraseDups.length size with hfew | hmany
    · refine ⟨(items ++ [item]).length, Nat.le_refl _, ?_⟩
      rw [List.take_length, List.take_of_length_le]
      rw [eraseDups_append_singleton]
      split
      · exact Nat.le_of_lt hfew
      · rw [List.length_append]
        exact hfew
    · refine ⟨count, by rw [List.length_append]; omega, ?_⟩
      rw [take_eraseDups_append hmany, List.take_append_of_le_length hcount, hbefore]

end PeerLink
