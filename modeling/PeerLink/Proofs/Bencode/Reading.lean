import Mathlib.Algebra.Ring.Int.Defs
import Mathlib.Algebra.Ring.Nat
import Mathlib.Data.List.TakeWhile
import PeerLink.Bencode.Parser
import PeerLink.Proofs.Bencode.Dict
import PeerLink.Proofs.Bencode.Grammar

/-!
# Reading follows the grammar

Each reader takes off the front of its input exactly the spellings of what it
answers: `reads_readInteger_iff` and `reads_readBytes_iff` say so for the parts
of the grammar without nesting, and `readsBelow_readValue` for the values that
do not nest too deep.  By `refusesFrom_readValue`, all higher values are refused
because they nest too deep, however they are spelled.

`decode_eq_ok_iff` and `decodePrefix_eq_ok_iff` say what this means for a whole
input and for the front of one.
-/

namespace PeerLink
namespace Bencode

/-- The reader takes `a` off the front of `input` and leaves `rest`. -/
def Reads {α : Type} (reader : Reader α) (input : Bytes) (a : α) (rest : Bytes) : Prop :=
  ∃ h : rest.length < input.length, reader input = .ok (a, ⟨rest, h⟩)

/-! ## Integers -/

/-- The first byte that is not skipped does not have the property of those that
are. -/
theorem eq_false_of_dropWhile_eq_cons {p : UInt8 → Bool} {input rest : Bytes} {byte : UInt8}
    (h : input.dropWhile p = byte :: rest) : p byte = false := by
  have hhead := List.head?_dropWhile_not p input
  rw [h] at hhead
  simpa using hhead

theorem holds_full_iff (n : Int) :
    IntegerType.full.holds n = true ↔ -2 ^ 63 ≤ n ∧ n < 2 ^ 63 := by
  have hbound : (IntegerType.full.bound : Int) = 2 ^ 63 := by decide
  rw [IntegerType.holds, hbound]
  simp [IntegerType.full]

/-- An integer of 64 bits is the number that it was made from, if that fits. -/
theorem holds_full_and_ofInt_eq_iff {k : Int} {n : Int64} :
    IntegerType.full.holds k = true ∧ Int64.ofInt k = n ↔ n.toInt = k := by
  rw [holds_full_iff]
  constructor
  · rintro ⟨⟨hlow, hhigh⟩, rfl⟩
    exact Int64.toInt_ofInt_of_le hlow hhigh
  · rintro rfl
    exact ⟨⟨n.le_toInt, n.toInt_lt⟩, Int64.ofInt_toInt n⟩

theorem isRun_iff {run : Bytes} :
    Decimal.IsRun run ↔ (run.isEmpty || !run.all Decimal.isDigit) = false := by
  constructor
  · intro h
    simp [h.ne_nil, List.all_eq_true.mpr h.isDigit]
  · intro h
    simp only [Bool.or_eq_false_iff, List.isEmpty_eq_false_iff, Bool.not_eq_false'] at h
    exact ⟨h.1, List.all_eq_true.mp h.2⟩

/-- Without a minus sign, all of the text has to be the shortest run of digits. -/
theorem integerOfText_eq_ok_iff_of_head?_ne {run : Bytes} {n : Int64}
    (hsign : run.head? ≠ some 45) :
    integerOfText run = .ok n ↔
      Decimal.IsRun run ∧ Decimal.IsShortest run ∧ n.toInt = Decimal.value run := by
  rw [isRun_iff, Decimal.isShortest_iff, ← holds_full_and_ofInt_eq_iff, integerOfText]
  simp only [hsign, decide_false, if_false, Bool.false_or]
  by_cases hrun : (run.isEmpty || !run.all Decimal.isDigit) = true
  · simp [hrun]
  · by_cases hzeros : run.head? = some 48 ∧ 1 < run.length
    · simp [hrun, hzeros]
    · by_cases hholds : IntegerType.full.holds (Decimal.value run) = true
      · simp [hrun, hzeros, hholds]
      · simp [hrun, hzeros, hholds]

/-- Behind a minus sign, there has to be a run of digits that begins with another
digit than zero. -/
theorem integerOfText_minus_eq_ok_iff {run : Bytes} {n : Int64} :
    integerOfText (45 :: run) = .ok n ↔
      Decimal.IsRun run ∧ run.head? ≠ some 48 ∧ n.toInt = -(Decimal.value run : Int) := by
  rw [isRun_iff, ← holds_full_and_ofInt_eq_iff, integerOfText]
  simp only [List.head?_cons, List.tail_cons, decide_true, if_true, Bool.true_or, Bool.and_true]
  by_cases hrun : (run.isEmpty || !run.all Decimal.isDigit) = true
  · simp [hrun]
  · by_cases hzeros : run.head? = some 48
    · simp [hrun, hzeros]
    · by_cases hholds : IntegerType.full.holds (-(Decimal.value run : Int)) = true
      · simp [hrun, hzeros, hholds]
      · simp [hrun, hzeros, hholds]

/-- The text of an integer is read exactly as the grammar has it. -/
theorem integerOfText_eq_ok_iff {text : Bytes} {n : Int64} :
    integerOfText text = .ok n ↔ SpellsInteger text n.toInt := by
  constructor
  · intro h
    by_cases hsign : text.head? = some 45
    · obtain ⟨run, rfl⟩ := List.head?_eq_some_iff.mp hsign
      obtain ⟨hrun, hhead, hn⟩ := integerOfText_minus_eq_ok_iff.mp h
      rw [hn]
      exact .neg hrun (fun hzero => absurd hzero hhead) (Decimal.value_pos hrun hhead)
    · obtain ⟨hrun, hshort, hn⟩ := (integerOfText_eq_ok_iff_of_head?_ne hsign).mp h
      rw [hn]
      exact .nonneg hrun hshort
  · intro h
    generalize hn : n.toInt = k at h
    cases h with
    | nonneg hrun hshort =>
      refine (integerOfText_eq_ok_iff_of_head?_ne ?_).mpr ⟨hrun, hshort, hn⟩
      intro hsign
      exact Decimal.ne_of_isDigit (hrun.isDigit 45 (List.mem_of_head? hsign)) (by decide) rfl
    | neg hrun hshort hpos =>
      exact integerOfText_minus_eq_ok_iff.mpr ⟨hrun, Decimal.head?_ne_zero hshort hpos, hn⟩

/-- There is no closing mark inside the text of an integer. -/
theorem SpellsInteger.ne_mark {text : Bytes} {n : Int} (h : SpellsInteger text n) :
    ∀ byte ∈ text, (byte != 101) = true := by
  intro byte hbyte
  rw [bne_iff_ne]
  cases h with
  | nonneg hrun hshort => exact Decimal.ne_of_isDigit (hrun.isDigit byte hbyte) (by decide)
  | neg hrun hshort hpos =>
    rcases List.mem_cons.mp hbyte with rfl | hbyte
    · decide
    · exact Decimal.ne_of_isDigit (hrun.isDigit byte hbyte) (by decide)

/-- An integer is read as far as its closing mark. -/
theorem reads_readInteger_iff {input rest : Bytes} {n : Int64} :
    Reads readInteger input n rest ↔
      ∃ text, SpellsInteger text n.toInt ∧ input = text ++ 101 :: rest := by
  constructor
  · rintro ⟨hlt, h⟩
    rw [readInteger] at h
    split at h
    · cases h
    · next mark left hdrop =>
      split at h
      · cases h
      · next m htext =>
        simp only [Except.ok.injEq, Prod.mk.injEq, Subtype.mk.injEq] at h
        obtain ⟨rfl, rfl⟩ := h
        have hmark : mark = 101 := by
          simpa using eq_false_of_dropWhile_eq_cons hdrop
        refine ⟨input.takeWhile (· != 101), integerOfText_eq_ok_iff.mp htext, ?_⟩
        have hsplit := List.takeWhile_append_dropWhile (p := (· != 101)) (l := input)
        rw [hdrop, hmark] at hsplit
        exact hsplit.symm
  · rintro ⟨text, htext, rfl⟩
    refine ⟨by simp only [List.length_append, List.length_cons]; omega, ?_⟩
    have htake : (text ++ 101 :: rest).takeWhile (· != 101) = text := by
      rw [List.takeWhile_append_of_pos htext.ne_mark, List.takeWhile_cons_of_neg (by decide),
        List.append_nil]
    have hdrop : (text ++ 101 :: rest).dropWhile (· != 101) = 101 :: rest := by
      rw [List.dropWhile_append_of_pos htext.ne_mark, List.dropWhile_cons_of_neg (by decide)]
    rw [readInteger]
    split
    · next hnil =>
      rw [hdrop] at hnil
      cases hnil
    · next mark left hcons =>
      rw [hdrop] at hcons
      cases hcons
      rw [htake, integerOfText_eq_ok_iff.mpr htext]

/-! ## Byte strings -/

/-- A byte string is read as far as its length reaches. -/
theorem reads_readBytes_iff {input content rest : Bytes} :
    Reads readBytes input content rest ↔
      ∃ text, SpellsBytes AnyLength content text ∧ input = text ++ rest := by
  constructor
  · rintro ⟨hlt, h⟩
    rw [readBytes] at h
    split at h
    · cases h
    · next mark left hdrop =>
      dsimp only at h
      split at h
      · cases h
      · next hcond =>
        split at h
        · cases h
        · next hsize =>
          split at h
          · cases h
          · next front back hsplit =>
            simp only [Except.ok.injEq, Prod.mk.injEq, Subtype.mk.injEq] at h
            obtain ⟨rfl, rfl⟩ := h
            simp only [Bool.or_eq_true, bne_iff_ne, not_or, not_not] at hcond
            obtain ⟨hmark, hne⟩ := hcond
            obtain ⟨hlength, hleft⟩ := Bytes.splitAt?_eq_some_iff.mp hsplit
            have hrun : Decimal.IsRun (input.takeWhile Decimal.isDigit) :=
              ⟨by simpa using hne, fun _ hbyte => List.mem_takeWhile_imp hbyte⟩
            refine ⟨_, .mk hrun trivial hlength.symm (by omega), ?_⟩
            rw [List.append_assoc, List.cons_append, ← hleft, ← hmark, ← hdrop,
              List.takeWhile_append_dropWhile]
  · rintro ⟨text, htext, rfl⟩
    cases htext with
    | @mk run _ hrun hP hvalue hsize =>
      refine ⟨by simp only [List.length_append, List.length_cons]; omega, ?_⟩
      have hcolon : Decimal.isDigit 58 = false := by decide
      have hinput : run ++ 58 :: content ++ rest = run ++ 58 :: (content ++ rest) := by simp
      have htake := Decimal.takeWhile_isDigit_append hrun.isDigit hcolon (content ++ rest)
      have hdrop := Decimal.dropWhile_isDigit_append hrun.isDigit hcolon (content ++ rest)
      rw [← hinput] at htake hdrop
      rw [readBytes]
      split
      · next hnil =>
        rw [hdrop] at hnil
        cases hnil
      · next mark left hcons =>
        rw [hdrop] at hcons
        cases hcons
        dsimp only
        rw [if_neg (by rw [htake]; simp [hrun.ne_nil]), if_neg (by rw [htake, hvalue]; omega)]
        split
        · next hnone =>
          rw [htake, hvalue, Bytes.splitAt?_eq_none_iff, List.length_append] at hnone
          omega
        · next front back hsome =>
          rw [htake, hvalue, Bytes.splitAt?_eq_some_iff] at hsome
          obtain ⟨hfront, hback⟩ := hsome
          obtain ⟨rfl, rfl⟩ := List.append_inj hback hfront.symm
          rfl

/-! ## Values -/

theorem SpellsBytes.exists_digit {P : Bytes → Prop} {content text : Bytes}
    (h : SpellsBytes P content text) :
    ∃ byte tail, text = byte :: tail ∧ Decimal.isDigit byte = true := by
  cases h with
  | @mk run _ hrun hP hvalue hsize =>
    obtain ⟨byte, tail, rfl⟩ := List.exists_cons_of_ne_nil hrun.ne_nil
    exact ⟨byte, _, rfl, hrun.isDigit byte (by simp)⟩

/-- No value begins with the closing mark. -/
theorem Spells.exists_ne_mark {P : Bytes → Prop} {v : Value} {text : Bytes}
    (h : Spells P v text) : ∃ byte tail, text = byte :: tail ∧ byte ≠ 101 := by
  cases h with
  | int h => exact ⟨105, _, rfl, by decide⟩
  | bytes h =>
    obtain ⟨byte, tail, rfl, hbyte⟩ := h.exists_digit
    exact ⟨byte, tail, rfl, Decimal.ne_of_isDigit hbyte (by decide)⟩
  | list h => exact ⟨108, _, rfl, by decide⟩
  | dict hkeys h => exact ⟨100, _, rfl, by decide⟩

/-- The reader takes spellings of the values that are less than `levels` high. -/
def ReadsBelow (levels : Nat) (item : Reader Value) : Prop :=
  ∀ input v rest, Reads item input v rest ↔
    ∃ text, Spells AnyLength v text ∧ v.height < levels ∧ input = text ++ rest

variable {levels : Nat} {item : Reader Value}

theorem spellsItems_of_readItems (hitem : ReadsBelow levels item) {outer : Bytes}
    {done items : List Value} {input : Bytes} {h : input.length < outer.length}
    {left : Shorter outer} (hread : readItems item outer done input h = .ok (items, left)) :
    ∃ new text, items = done.reverse ++ new ∧ SpellsItems AnyLength new text ∧
      itemsHeight new ≤ levels ∧ input = text ++ 101 :: left.1 := by
  fun_induction readItems item outer done input h with
  | case1 => cases hread
  | case2 done rest h =>
    cases hread
    exact ⟨[], [], by simp, .nil, Nat.zero_le _, rfl⟩
  | case3 => cases hread
  | case4 done byte rest _ hne v afterItem hlt hv h ih =>
    obtain ⟨new, text, rfl, hnew, hheight, rfl⟩ := ih hread
    obtain ⟨itemText, hspells, hlow, hinput⟩ := (hitem _ _ _).mp ⟨hlt, hv⟩
    refine ⟨v :: new, itemText ++ text, by simp, .cons hspells hnew, ?_, by simp [hinput]⟩
    rw [itemsHeight]
    omega

theorem readItems_of_spellsItems (hitem : ReadsBelow levels item) (outer : Bytes)
    {new : List Value} {text : Bytes} (hnew : SpellsItems AnyLength new text)
    (hheight : itemsHeight new ≤ levels) (done : List Value) {input rest : Bytes}
    (hinput : input = text ++ 101 :: rest) (h : input.length < outer.length) :
    ∃ hrest, readItems item outer done input h = .ok (done.reverse ++ new, ⟨rest, hrest⟩) := by
  induction new generalizing text done input with
  | nil =>
    cases hnew
    subst hinput
    have hrest : rest.length < outer.length := by
      rw [List.nil_append, List.length_cons] at h
      omega
    exact ⟨hrest, by simp only [List.nil_append, List.append_nil, readItems, if_true]⟩
  | cons v new ih =>
    cases hnew with
    | @cons _ _ first later hv hrest =>
      rw [itemsHeight] at hheight
      have hread : Reads item input v (later ++ 101 :: rest) := by
        rw [hitem]
        exact ⟨first, hv, by omega, by rw [hinput, List.append_assoc]⟩
      obtain ⟨hlt, hread⟩ := hread
      obtain ⟨byte, tail, rfl, hne⟩ := hv.exists_ne_mark
      subst hinput
      simp only [List.cons_append] at hread h ⊢
      have hlater := ih hrest (by omega) (v :: done) rfl (Nat.lt_trans hlt h)
      have hdone : (v :: done).reverse ++ new = done.reverse ++ v :: new := by simp
      rw [hdone] at hlater
      simpa only [readItems, if_neg hne, hread] using hlater

theorem spellsEntries_of_readEntries (hitem : ReadsBelow levels item) {outer : Bytes}
    {done : Dict} {entries : Entries} {input : Bytes} {h : input.length < outer.length}
    {left : Shorter outer} (hdone : done.WellIndexed)
    (hread : readEntries item outer done input h = .ok (entries, left)) :
    ∃ new text, entries = done.toList ++ new ∧ (entries.map Prod.fst).Nodup ∧
      SpellsEntries AnyLength new text ∧ entriesHeight new ≤ levels ∧
      input = text ++ 101 :: left.1 := by
  fun_induction readEntries item outer done input h with
  | case1 => cases hread
  | case2 done rest h =>
    cases hread
    exact ⟨[], [], by simp, hdone.nodup, .nil, Nat.zero_le _, rfl⟩
  | case3 => cases hread
  | case4 => cases hread
  | case5 => cases hread
  | case6 => cases hread
  | case7 done byte rest _ hne hdigit key afterKey hkeyLt hkey hnew v afterItem hlt hv h ih =>
    have hfresh : key ∉ done.keys := fun hmem => hnew ((hdone.contains_iff key).mpr hmem)
    obtain ⟨new, text, rfl, hnodup, hspells, hheight, rfl⟩ := ih (hdone.push hfresh v) hread
    obtain ⟨keyText, hkeySpells, hkeyInput⟩ := reads_readBytes_iff.mp ⟨hkeyLt, hkey⟩
    obtain ⟨itemText, hitemSpells, hlow, hitemInput⟩ := (hitem _ _ _).mp ⟨hlt, hv⟩
    refine ⟨(key, v) :: new, keyText ++ (itemText ++ text), by simp, hnodup,
      .cons hkeySpells hitemSpells hspells, ?_, by simp [hkeyInput, hitemInput]⟩
    rw [entriesHeight]
    omega

theorem readEntries_of_spellsEntries (hitem : ReadsBelow levels item) (outer : Bytes)
    {new : Entries} {text : Bytes} (hnew : SpellsEntries AnyLength new text)
    (hheight : entriesHeight new ≤ levels) {done : Dict} (hdone : done.WellIndexed)
    (hnodup : ((done.toList ++ new).map Prod.fst).Nodup) {input rest : Bytes}
    (hinput : input = text ++ 101 :: rest) (h : input.length < outer.length) :
    ∃ hrest, readEntries item outer done input h = .ok (done.toList ++ new, ⟨rest, hrest⟩) := by
  induction new generalizing text done input with
  | nil =>
    cases hnew
    subst hinput
    have hrest : rest.length < outer.length := by
      rw [List.nil_append, List.length_cons] at h
      omega
    exact ⟨hrest, by simp only [List.nil_append, List.append_nil, readEntries, if_true]⟩
  | cons entry new ih =>
    cases hnew with
    | @cons key v _ keyText first later hkey hv hrest =>
      rw [entriesHeight] at hheight
      have hkeyRead : Reads readBytes input key (first ++ (later ++ 101 :: rest)) := by
        rw [reads_readBytes_iff]
        exact ⟨keyText, hkey, by rw [hinput]; simp⟩
      have hread : Reads item (first ++ (later ++ 101 :: rest)) v (later ++ 101 :: rest) := by
        rw [hitem]
        exact ⟨first, hv, by omega, rfl⟩
      have hmiddle : done.toList ++ (key, v) :: new = (done.push key v).toList ++ new := by simp
      have hfresh : key ∉ done.keys := done.not_mem_keys_of_nodup hnodup
      have hnew : ¬done.contains key = true := fun hmem =>
        hfresh ((hdone.contains_iff key).mp hmem)
      obtain ⟨hkeyLt, hkeyRead⟩ := hkeyRead
      obtain ⟨hlt, hread⟩ := hread
      obtain ⟨byte, tail, rfl, hdigit⟩ := hkey.exists_digit
      have hne : byte ≠ 101 := Decimal.ne_of_isDigit hdigit (by decide)
      rw [hmiddle] at hnodup ⊢
      subst hinput
      simp only [List.cons_append] at hkeyRead h ⊢
      have hlater := ih hrest (by omega) (hdone.push hfresh v) hnodup rfl
        (Nat.lt_trans (Nat.lt_trans hlt hkeyLt) h)
      simpa only [readEntries, if_neg hne, hdigit, Bool.not_true, Bool.false_eq_true, if_false,
        hkeyRead, if_neg hnew, hread] using hlater

/-! ## Values that nest too deep -/

/-- The reader refuses the values that are `levels` high or higher. -/
def RefusesFrom (levels : Nat) (item : Reader Value) : Prop :=
  ∀ v text rest, Spells AnyLength v text → levels ≤ v.height →
    item (text ++ rest) = .error .nestingTooDeep

theorem readItems_eq_nestingTooDeep (hitem : ReadsBelow levels item)
    (hdeep : RefusesFrom levels item) (outer : Bytes) {new : List Value} {text : Bytes}
    (hnew : SpellsItems AnyLength new text) (hheight : levels < itemsHeight new)
    (done : List Value) {input rest : Bytes} (hinput : input = text ++ rest)
    (h : input.length < outer.length) :
    readItems item outer done input h = .error .nestingTooDeep := by
  induction new generalizing text done input with
  | nil => exact absurd hheight (Nat.not_lt_zero _)
  | cons v new ih =>
    cases hnew with
    | @cons _ _ first later hv hrest =>
      rw [itemsHeight] at hheight
      have hassoc : input = first ++ (later ++ rest) := by rw [hinput, List.append_assoc]
      by_cases hlow : v.height < levels
      · obtain ⟨hlt, hread⟩ := (hitem input v (later ++ rest)).mpr ⟨first, hv, hlow, hassoc⟩
        obtain ⟨byte, tail, rfl, hne⟩ := hv.exists_ne_mark
        subst hassoc
        simp only [List.cons_append] at hread h ⊢
        simp only [readItems, if_neg hne, hread]
        exact ih hrest (by omega) (v :: done) rfl _
      · have hread := hdeep v first (later ++ rest) hv (by omega)
        obtain ⟨byte, tail, rfl, hne⟩ := hv.exists_ne_mark
        subst hassoc
        simp only [List.cons_append] at hread h ⊢
        simp only [readItems, if_neg hne, hread]

theorem readEntries_eq_nestingTooDeep (hitem : ReadsBelow levels item)
    (hdeep : RefusesFrom levels item) (outer : Bytes) {new : Entries} {text : Bytes}
    (hnew : SpellsEntries AnyLength new text) (hheight : levels < entriesHeight new)
    {done : Dict} (hdone : done.WellIndexed)
    (hnodup : ((done.toList ++ new).map Prod.fst).Nodup) {input rest : Bytes}
    (hinput : input = text ++ rest) (h : input.length < outer.length) :
    readEntries item outer done input h = .error .nestingTooDeep := by
  induction new generalizing text done input with
  | nil => exact absurd hheight (Nat.not_lt_zero _)
  | cons entry new ih =>
    cases hnew with
    | @cons key v _ keyText first later hkey hv hrest =>
      rw [entriesHeight] at hheight
      have hkeyRead : Reads readBytes input key (first ++ (later ++ rest)) := by
        rw [reads_readBytes_iff]
        exact ⟨keyText, hkey, by rw [hinput]; simp⟩
      have hfresh : key ∉ done.keys := done.not_mem_keys_of_nodup hnodup
      have hnew : ¬done.contains key = true := fun hmem =>
        hfresh ((hdone.contains_iff key).mp hmem)
      obtain ⟨hkeyLt, hkeyRead⟩ := hkeyRead
      obtain ⟨byte, tail, rfl, hdigit⟩ := hkey.exists_digit
      have hne : byte ≠ 101 := Decimal.ne_of_isDigit hdigit (by decide)
      subst hinput
      simp only [List.cons_append] at hkeyRead h ⊢
      by_cases hlow : v.height < levels
      · obtain ⟨hlt, hread⟩ := (hitem _ v (later ++ rest)).mpr ⟨first, hv, hlow, rfl⟩
        have hmiddle : done.toList ++ (key, v) :: new = (done.push key v).toList ++ new := by
          simp
        rw [hmiddle] at hnodup
        simp only [readEntries, if_neg hne, hdigit, Bool.not_true, Bool.false_eq_true, if_false,
          hkeyRead, if_neg hnew, hread]
        exact ih hrest (by omega) (hdone.push hfresh v) hnodup rfl _
      · have hread := hdeep v first (later ++ rest) hv (by omega)
        simp only [readEntries, if_neg hne, hdigit, Bool.not_true, Bool.false_eq_true, if_false,
          hkeyRead, if_neg hnew, hread]

/-! ## Levels -/

theorem reads_int (levels : Nat) {rest left : Bytes} {n : Int64}
    (h : Reads readInteger rest n left) :
    Reads (readValue (levels + 1)) (105 :: rest) (.int n) left := by
  obtain ⟨hlt, hread⟩ := h
  exact ⟨Nat.lt_succ_of_lt hlt, by simp only [readValue, if_true, hread]⟩

theorem reads_bytes (levels : Nat) {input left content : Bytes}
    (h : Reads readBytes input content left)
    (hdigit : ∃ byte tail, input = byte :: tail ∧ Decimal.isDigit byte = true) :
    Reads (readValue (levels + 1)) input (.bytes content) left := by
  obtain ⟨hlt, hread⟩ := h
  obtain ⟨byte, tail, rfl, hbyte⟩ := hdigit
  have hint : byte ≠ 105 := Decimal.ne_of_isDigit hbyte (by decide)
  have hlist : byte ≠ 108 := Decimal.ne_of_isDigit hbyte (by decide)
  have hdict : byte ≠ 100 := Decimal.ne_of_isDigit hbyte (by decide)
  exact ⟨hlt, by
    simp only [readValue, if_neg hint, if_neg hlist, if_neg hdict, if_pos hbyte, hread]⟩

/-- A reader of one more level takes spellings of values that are one higher. -/
theorem spells_of_readValue (hitem : ReadsBelow levels (readValue levels)) {input : Bytes}
    {v : Value} {left : Shorter input} (hread : readValue (levels + 1) input = .ok (v, left)) :
    ∃ text, Spells AnyLength v text ∧ v.height < levels + 1 ∧ input = text ++ left.1 := by
  cases input with
  | nil => cases hread
  | cons byte rest =>
    rw [readValue] at hread
    split at hread
    · next hbyte =>
      split at hread
      · cases hread
      · next n after hlt hn =>
        cases hread
        obtain ⟨text, htext, rfl⟩ := reads_readInteger_iff.mp ⟨hlt, hn⟩
        exact ⟨_, .int htext, Nat.succ_pos _, by simp [hbyte]⟩
    · split at hread
      · next hbyte =>
        split at hread
        · cases hread
        · next items after hitems =>
          cases hread
          obtain ⟨new, text, rfl, hnew, hheight, hrest⟩ := spellsItems_of_readItems hitem hitems
          exact ⟨_, .list hnew, Nat.lt_succ_of_le hheight, by simp [hbyte, ← hrest]⟩
      · split at hread
        · next hbyte =>
          split at hread
          · cases hread
          · next entries after hentries =>
            cases hread
            obtain ⟨new, text, rfl, hnodup, hnew, hheight, hrest⟩ :=
              spellsEntries_of_readEntries hitem Dict.wellIndexed_empty hentries
            exact ⟨_, .dict hnodup hnew, Nat.lt_succ_of_le hheight, by simp [hbyte, ← hrest]⟩
        · split at hread
          · split at hread
            · cases hread
            · next content after hcontent =>
              cases hread
              obtain ⟨text, htext, hinput⟩ := reads_readBytes_iff.mp ⟨left.2, hcontent⟩
              exact ⟨text, .bytes htext, Nat.succ_pos _, hinput⟩
          · cases hread

/-- A spelling of a value that nests little enough is read. -/
theorem readValue_of_spells (hitem : ReadsBelow levels (readValue levels)) {v : Value}
    {text : Bytes} (h : Spells AnyLength v text) (hheight : v.height < levels + 1)
    (rest : Bytes) : Reads (readValue (levels + 1)) (text ++ rest) v rest := by
  cases h with
  | @int n text h =>
    have hread := reads_int levels
      (reads_readInteger_iff.mpr ⟨text, h, rfl⟩ : Reads readInteger (text ++ 101 :: rest) n rest)
    simpa using hread
  | bytes h =>
    obtain ⟨byte, tail, rfl, hdigit⟩ := h.exists_digit
    exact reads_bytes levels (reads_readBytes_iff.mpr ⟨_, h, rfl⟩) ⟨byte, _, rfl, hdigit⟩
  | @list items text h =>
    have hinput : text ++ [101] ++ rest = text ++ 101 :: rest := by simp
    obtain ⟨hlt, hread⟩ := readItems_of_spellsItems hitem (108 :: (text ++ [101] ++ rest)) h
      (Nat.le_of_lt_succ hheight) [] hinput (Nat.lt_succ_self _)
    exact ⟨hlt, by simp only [List.cons_append, readValue, hread]; rfl⟩
  | @dict entries text hkeys h =>
    have hinput : text ++ [101] ++ rest = text ++ 101 :: rest := by simp
    obtain ⟨hlt, hread⟩ := readEntries_of_spellsEntries hitem (100 :: (text ++ [101] ++ rest)) h
      (Nat.le_of_lt_succ hheight) Dict.wellIndexed_empty hkeys hinput (Nat.lt_succ_self _)
    exact ⟨hlt, by simp only [List.cons_append, readValue, hread]; rfl⟩

/-- The reader with `levels` levels takes exactly the spellings of the values that
are less than `levels` high. -/
theorem readsBelow_readValue (levels : Nat) : ReadsBelow levels (readValue levels) := by
  induction levels with
  | zero =>
    intro input v rest
    constructor
    · rintro ⟨hlt, h⟩
      cases h
    · rintro ⟨text, -, hheight, -⟩
      exact absurd hheight (Nat.not_lt_zero _)
  | succ levels ih =>
    intro input v rest
    constructor
    · rintro ⟨hlt, h⟩
      exact spells_of_readValue ih h
    · rintro ⟨text, htext, hheight, rfl⟩
      exact readValue_of_spells ih htext hheight rest

/-- All higher values are refused because they nest too deep, however they are
spelled. -/
theorem refusesFrom_readValue (levels : Nat) : RefusesFrom levels (readValue levels) := by
  induction levels with
  | zero =>
    intro v text rest htext hheight
    rfl
  | succ levels ih =>
    intro v text rest htext hheight
    have hitem := readsBelow_readValue levels
    cases htext with
    | int h => exact absurd hheight (Nat.not_succ_le_zero _)
    | bytes h => exact absurd hheight (Nat.not_succ_le_zero _)
    | @list items text h =>
      have hread := readItems_eq_nestingTooDeep hitem ih (108 :: (text ++ [101] ++ rest)) h hheight
        [] (List.append_assoc text [101] rest) (Nat.lt_succ_self _)
      simp only [List.cons_append, readValue, hread]
      rfl
    | @dict entries text hkeys h =>
      have hread := readEntries_eq_nestingTooDeep hitem ih (100 :: (text ++ [101] ++ rest)) h
        hheight Dict.wellIndexed_empty hkeys (List.append_assoc text [101] rest)
        (Nat.lt_succ_self _)
      simp only [List.cons_append, readValue, hread]
      rfl

/-! ## Whole inputs -/

theorem read_eq_ok_iff {input rest : Bytes} {v : Value} :
    Value.read input = .ok (v, rest) ↔
      ∃ text, Spells AnyLength v text ∧ v.height ≤ maxDepth ∧ input = text ++ rest := by
  have hreads := readsBelow_readValue (maxDepth + 1) input v rest
  simp only [Nat.lt_succ_iff] at hreads
  rw [← hreads, Value.read]
  constructor
  · intro h
    split at h
    · cases h
    · next w left hlt hread =>
      cases h
      exact ⟨hlt, hread⟩
  · rintro ⟨hlt, hread⟩
    rw [hread]

theorem read_eq_nestingTooDeep {v : Value} {text : Bytes} (h : Spells AnyLength v text)
    (hheight : maxDepth < v.height) (rest : Bytes) :
    Value.read (text ++ rest) = .error .nestingTooDeep := by
  rw [Value.read, refusesFrom_readValue _ v text rest h hheight]

/-- A value is decoded from its spellings, if it does not nest too deep. -/
theorem decode_eq_ok_iff {input : Bytes} {v : Value} :
    decode input = .ok v ↔ v.height ≤ maxDepth ∧ Spells AnyLength v input := by
  have hread : decode input = .ok v ↔ Value.read input = .ok (v, []) := by
    rw [decode]
    split
    · next h => simp [h]
    · next h => simp [h]
    · next h => simp [h]
  rw [hread, read_eq_ok_iff]
  constructor
  · rintro ⟨text, htext, hheight, rfl⟩
    rw [List.append_nil]
    exact ⟨hheight, htext⟩
  · rintro ⟨hheight, htext⟩
    exact ⟨input, htext, hheight, (List.append_nil input).symm⟩

/-- What is decoded from the front of an input is spelled by as many bytes as are
answered. -/
theorem decodePrefix_eq_ok_iff {input : Bytes} {v : Value} {count : Nat} :
    decodePrefix input = .ok (v, count) ↔
      v.height ≤ maxDepth ∧ count ≤ input.length ∧ Spells AnyLength v (input.take count) := by
  rw [decodePrefix]
  constructor
  · intro h
    split at h
    · cases h
    · next w rest hread =>
      cases h
      obtain ⟨text, htext, hheight, rfl⟩ := read_eq_ok_iff.mp hread
      have hcount : (text ++ rest).length - rest.length = text.length := by simp
      rw [hcount, List.take_left]
      exact ⟨hheight, by simp, htext⟩
  · rintro ⟨hheight, hcount, htext⟩
    have hread : Value.read input = .ok (v, input.drop count) :=
      read_eq_ok_iff.mpr ⟨_, htext, hheight, (List.take_append_drop count input).symm⟩
    have hlength : input.length - (input.drop count).length = count := by
      rw [List.length_drop]
      omega
    rw [hread]
    simp only [hlength]

/-- Nothing has two spellings in front of it: the grammar is unambiguous. -/
theorem Spells.unique {v w : Value} {first second rest left : Bytes}
    (hv : Spells AnyLength v first) (hw : Spells AnyLength w second)
    (hinput : first ++ rest = second ++ left) : v = w ∧ first = second := by
  let levels := max v.height w.height + 1
  have hfirst : Reads (readValue levels) (first ++ rest) v rest :=
    (readsBelow_readValue levels _ v rest).mpr ⟨first, hv, by omega, rfl⟩
  have hsecond : Reads (readValue levels) (first ++ rest) w left :=
    (readsBelow_readValue levels _ w left).mpr ⟨second, hw, by omega, hinput⟩
  obtain ⟨hlt, hread⟩ := hfirst
  obtain ⟨hlt', hread'⟩ := hsecond
  rw [hread] at hread'
  obtain ⟨rfl, hsame⟩ := Prod.mk.inj (Except.ok.inj hread')
  obtain rfl := Subtype.mk.inj hsame
  exact ⟨rfl, List.append_cancel_right hinput⟩

/-- An input is decoded as a value exactly if it is a spelling of the value and the
value nests at most 64 deep, and the same holds of the part of an input that a prefix
is decoded from. -/
theorem decodes_iff_spells (input : Bytes) (v : Value) :
    (decode input = .ok v ↔ v.height ≤ 64 ∧ Spells AnyLength v input) ∧
      ∀ count,
        (decodePrefix input = .ok (v, count) ↔
          v.height ≤ 64 ∧ count ≤ input.length ∧ Spells AnyLength v (input.take count)) ∧
        (decodePrefix input = .ok (v, count) → 0 < count ∧ count ≤ input.length) := by
  refine ⟨decode_eq_ok_iff, ?_⟩
  intro count
  refine ⟨decodePrefix_eq_ok_iff, ?_⟩
  intro hread
  obtain ⟨-, hcount, htext⟩ := decodePrefix_eq_ok_iff.mp hread
  refine ⟨?_, hcount⟩
  -- The empty text is no spelling.
  obtain ⟨byte, tail, hfront, -⟩ := htext.exists_ne_mark
  rw [Nat.pos_iff_ne_zero]
  rintro rfl
  cases hfront

/-- A dictionary whose key has a superfluous zero in front of its length is decoded
from the front of an input, up to its closing mark. -/
theorem decodes_iff_spells_of_prefix :
    let input : Bytes := [100, 48, 49, 58, 97, 105, 45, 53, 101, 101, 101, 48]
    let v : Value := .dict [([97], .int (-5))]
    decodePrefix input = .ok (v, 10) ∧ Spells AnyLength v (input.take 10) ∧
      0 < 10 ∧ 10 ≤ input.length := by
  intro input v
  have hread : decodePrefix input = .ok (v, 10) := by decide +kernel
  obtain ⟨-, hprefix⟩ := decodes_iff_spells input v
  obtain ⟨hiff, hcount⟩ := hprefix 10
  exact ⟨hread, (hiff.mp hread).2.2, hcount hread⟩

end Bencode
end PeerLink
