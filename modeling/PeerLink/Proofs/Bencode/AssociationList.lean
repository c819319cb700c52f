import PeerLink.Bencode.Parser
import PeerLink.Proofs.Bencode.Dict

/-!
# Dictionaries as association lists

A dictionary is meant to be the list of its entries with a faster lookup.  The plain list
serves the same requests by walking over the entries, and it has no index that could go
wrong.  A dictionary that lists some entries answers every request as they do and lists
what they become (`Lists.serve`), also after entries were removed and all positions
behind them changed.  By induction over a history of requests, a dictionary and the list
cannot be told apart: `serveAll_refines`.
-/

namespace PeerLink
namespace Bencode

/-! ## Plain lists of entries -/

namespace Entries

/-- Stores a value at the place of the first entry with the key, or behind all entries. -/
def store (entries : Entries) (key : Bytes) (value : Value) : Entries :=
  match entries with
  | [] => [(key, value)]
  | entry :: rest =>
    if entry.1 = key then (key, value) :: rest else entry :: store rest key value

/-- Removes the first entry with the key. -/
def discard (entries : Entries) (key : Bytes) : Entries :=
  entries.eraseP fun entry => entry.1 == key

variable {entries front back : Entries} {key : Bytes}

theorem store_of_not_mem (h : key ∉ entries.map Prod.fst) (value : Value) :
    entries.store key value = entries ++ [(key, value)] := by
  induction entries with
  | nil => rfl
  | cons entry rest ih =>
    rw [List.map_cons, List.mem_cons, not_or] at h
    rw [store, if_neg (Ne.symm h.1), ih h.2]
    rfl

theorem store_append_cons (h : key ∉ front.map Prod.fst) (old value : Value) :
    store (front ++ (key, old) :: back) key value = front ++ (key, value) :: back := by
  induction front with
  | nil => exact if_pos rfl
  | cons entry rest ih =>
    rw [List.map_cons, List.mem_cons, not_or] at h
    rw [List.cons_append, store, if_neg (Ne.symm h.1), ih h.2]
    rfl

theorem beq_key_eq_false (h : key ∉ entries.map Prod.fst) :
    ∀ entry ∈ entries, ¬ (entry.1 == key) = true := by
  intro entry hentry hkey
  exact h (List.mem_map.mpr ⟨entry, hentry, eq_of_beq hkey⟩)

theorem discard_of_not_mem (h : key ∉ entries.map Prod.fst) : entries.discard key = entries :=
  List.eraseP_of_forall_not (beq_key_eq_false h)

theorem discard_append_cons (h : key ∉ front.map Prod.fst) (old : Value) :
    discard (front ++ (key, old) :: back) key = front ++ back := by
  rw [discard, List.eraseP_append_right _ (beq_key_eq_false h),
    List.eraseP_cons_of_pos (by simp)]

/-- An entry does not matter to other keys. -/
theorem lookup_append_cons_of_ne {other : Bytes} (h : other ≠ key) (value : Value) :
    (front ++ (key, value) :: back).lookup other = (front ++ back).lookup other := by
  have hne : (other == key) = false := beq_eq_false_iff_ne.mpr h
  rw [List.lookup_append, List.lookup_append, List.lookup_cons, hne]

end Entries

namespace Dict

/-! ## Storing and removing -/

section Storing

variable {d : Dict} {entries : Entries}

theorem Lists.store (h : d.Lists entries) (key : Bytes) (value : Value) :
    (d.insert key value).Lists (entries.store key value) := by
  obtain ⟨hindexed, rfl⟩ := h
  refine ⟨hindexed.insert key value, ?_⟩
  cases hindex : d.index[key]? with
  | none =>
    have hkey := hindexed.index_eq_none_iff.mp hindex
    rw [hindexed.insert_of_not_mem hkey, toList_push, Entries.store_of_not_mem hkey]
  | some position =>
    obtain ⟨front, old, back, hsplit, -⟩ := hindexed.exists_split hindex
    rw [hindexed.toList_insert_of_split hsplit, hsplit,
      Entries.store_append_cons (hindexed.not_mem_of_split hsplit).1]

theorem Lists.discard (h : d.Lists entries) (key : Bytes) :
    (d.erase key).Lists (entries.discard key) := by
  obtain ⟨hindexed, rfl⟩ := h
  refine ⟨hindexed.erase key, ?_⟩
  cases hindex : d.index[key]? with
  | none =>
    have hkey := hindexed.index_eq_none_iff.mp hindex
    rw [hindexed.erase_of_not_mem hkey, Entries.discard_of_not_mem hkey]
  | some position =>
    obtain ⟨front, old, back, hsplit, -⟩ := hindexed.exists_split hindex
    rw [hindexed.toList_erase_of_split hsplit, hsplit,
      Entries.discard_append_cons (hindexed.not_mem_of_split hsplit).1]

theorem Lists.storeAll (h : d.Lists entries) (more : Entries) :
    (more.foldl (fun d e => d.insert e.1 e.2) d).Lists
      (more.foldl (fun entries e => entries.store e.1 e.2) entries) := by
  induction more generalizing d entries with
  | nil => exact h
  | cons entry rest ih => exact ih (h.store entry.1 entry.2)

end Storing

/-! ## Requests -/

/-- What can be asked of a dictionary. -/
inductive Request where
  | insert (key : Bytes) (value : Value)
  | remove (key : Bytes)
  | get (key : Bytes)
  | contains (key : Bytes)
  | keys
  | size
  /-- A dictionary that is built of these entries takes the place of this one. -/
  | collect (entries : Entries)
  /-- A key that is there is refused, and another one is appended without a look at the
  index, as it is when a dictionary is read. -/
  | push (key : Bytes) (value : Value)

/-- The answer to a request. -/
inductive Answer where
  | value (value? : Option Value)
  | flag (flag : Bool)
  | keys (keys : List Bytes)
  | size (size : Nat)
  | done
  deriving DecidableEq

/-- What a dictionary does with a request. -/
def serve (d : Dict) : Request → Answer × Dict
  | .insert key value => (.value (d.replace key value).1, (d.replace key value).2)
  | .remove key => (.value (d.remove key).1, (d.remove key).2)
  | .get key => (.value (d.get? key), d)
  | .contains key => (.flag (d.contains key), d)
  | .keys => (.keys d.keys, d)
  | .size => (.size d.size, d)
  | .collect entries => (.done, ofList entries)
  | .push key value =>
    if d.contains key then (.flag false, d) else (.flag true, d.push key value)

end Dict

/-- What a plain list of entries does with a request. -/
def Entries.serve (entries : Entries) : Dict.Request → Dict.Answer × Entries
  | .insert key value => (.value (entries.lookup key), entries.store key value)
  | .remove key => (.value (entries.lookup key), entries.discard key)
  | .get key => (.value (entries.lookup key), entries)
  | .contains key => (.flag (decide (key ∈ entries.map Prod.fst)), entries)
  | .keys => (.keys (entries.map Prod.fst), entries)
  | .size => (.size entries.length, entries)
  | .collect later => (.done, later.foldl (fun entries e => entries.store e.1 e.2) [])
  | .push key value =>
    if key ∈ entries.map Prod.fst then (.flag false, entries)
    else (.flag true, entries ++ [(key, value)])

namespace Dict

/-- Serves requests in order, and collects the answers. -/
def serveAll {σ : Type} (serve : σ → Request → Answer × σ) (s : σ) :
    List Request → List Answer × σ
  | [] => ([], s)
  | request :: rest =>
    ((serve s request).1 :: (serveAll serve (serve s request).2 rest).1,
      (serveAll serve (serve s request).2 rest).2)

variable {d : Dict} {entries : Entries}

/-- A dictionary serves a request as the list of its entries does. -/
theorem Lists.serve (h : d.Lists entries) (request : Request) :
    (d.serve request).1 = (entries.serve request).1 ∧
      (d.serve request).2.Lists (entries.serve request).2 := by
  have hget : ∀ key, d.get? key = entries.lookup key := by
    intro key
    rw [h.wellIndexed.get?_eq, h.toList_eq]
  have hkeys : d.keys = entries.map Prod.fst := by rw [Dict.keys, h.toList_eq]
  have hcontains : ∀ key, d.contains key = decide (key ∈ entries.map Prod.fst) := by
    intro key
    rw [Bool.eq_iff_iff, h.wellIndexed.contains_iff, hkeys, decide_eq_true_eq]
  cases request with
  | insert key value => exact ⟨congrArg Answer.value (hget key), h.store key value⟩
  | remove key => exact ⟨congrArg Answer.value (hget key), h.discard key⟩
  | get key => exact ⟨congrArg Answer.value (hget key), h⟩
  | contains key => exact ⟨congrArg Answer.flag (hcontains key), h⟩
  | keys => exact ⟨congrArg Answer.keys hkeys, h⟩
  | size =>
    have hsize : d.size = entries.length := by rw [← h.toList_eq, toList, Array.length_toList]; rfl
    exact ⟨congrArg Answer.size hsize, h⟩
  | collect later => exact ⟨rfl, lists_empty.storeAll later⟩
  | push key value =>
    rw [Dict.serve, Entries.serve, hcontains]
    by_cases hkey : key ∈ entries.map Prod.fst
    · rw [if_pos (decide_eq_true hkey), if_pos hkey]
      exact ⟨rfl, h⟩
    · rw [if_neg (by simpa using hkey), if_neg hkey]
      have hnew : key ∉ d.keys := by rwa [hkeys]
      exact ⟨rfl, h.wellIndexed.push hnew value, by rw [toList_push, h.toList_eq]⟩

theorem Lists.serveAll (h : d.Lists entries) (requests : List Request) :
    (Dict.serveAll Dict.serve d requests).1 = (Dict.serveAll Entries.serve entries requests).1 ∧
      (Dict.serveAll Dict.serve d requests).2.Lists
        (Dict.serveAll Entries.serve entries requests).2 := by
  induction requests generalizing d entries with
  | nil => exact ⟨rfl, h⟩
  | cons request rest ih =>
    obtain ⟨hanswer, hnext⟩ := h.serve request
    obtain ⟨hanswers, hlast⟩ := ih hnext
    exact ⟨congrArg₂ List.cons hanswer hanswers, hlast⟩

/-- A dictionary is read by pushes alone, and none of them is refused. -/
theorem exists_serveAll_of_readEntries {item : Reader Value} {outer : Bytes} {input : Bytes}
    {h : input.length < outer.length} {left : Shorter outer}
    (hread : readEntries item outer d input h = .ok (entries, left)) :
    ∃ new : Entries,
      let served := Dict.serveAll Dict.serve d (new.map fun entry => .push entry.1 entry.2)
      served.1 = new.map (fun _ => .flag true) ∧ served.2.toList = entries := by
  fun_induction readEntries item outer d input h with
  | case1 => cases hread
  | case2 d rest h =>
    cases hread
    exact ⟨[], rfl, rfl⟩
  | case3 => cases hread
  | case4 => cases hread
  | case5 => cases hread
  | case6 => cases hread
  | case7 d byte rest _ hmark hdigit key afterKey hkeyLt hkey hnew v afterItem hlt hv h ih =>
    obtain ⟨new, hanswers, hentries⟩ := ih hread
    have hserve : d.serve (.push key v) = (.flag true, d.push key v) := if_neg hnew
    refine ⟨(key, v) :: new, ?_⟩
    simp only [List.map_cons, Dict.serveAll, hserve]
    exact ⟨congrArg (.flag true :: ·) hanswers, hentries⟩

/-! ## What the requests do -/

/-- A dictionary acts as the list of its entries. -/
structure ActsAsList (d : Dict) : Prop where
  get?_eq : ∀ key, d.get? key = d.toList.lookup key
  contains_iff : ∀ key, d.contains key = true ↔ key ∈ d.keys
  /-- A key that is there gets another value at its place, and the old one is given back. -/
  replace_present : ∀ {front back : Entries} {key : Bytes} {old : Value},
    d.toList = front ++ (key, old) :: back → ∀ value,
      (d.replace key value).1 = some old ∧
        (d.replace key value).2.toList = front ++ (key, value) :: back
  /-- A new key is appended. -/
  replace_absent : ∀ {key : Bytes}, key ∉ d.keys → ∀ value,
    (d.replace key value).1 = none ∧
      (d.replace key value).2.toList = d.toList ++ [(key, value)]
  /-- Removing a key that is there gives back its value and leaves the others in order. -/
  remove_present : ∀ {front back : Entries} {key : Bytes} {old : Value},
    d.toList = front ++ (key, old) :: back →
      (d.remove key).1 = some old ∧ (d.remove key).2.toList = front ++ back
  remove_absent : ∀ {key : Bytes}, key ∉ d.keys → d.remove key = (none, d)
  /-- Neither of the two changes what is there under another key. -/
  get?_of_ne : ∀ {key other : Bytes}, other ≠ key → ∀ value,
    (d.replace key value).2.get? other = d.get? other ∧
      (d.remove key).2.get? other = d.get? other

/-- Storing or removing under one key does not matter to another. -/
theorem WellIndexed.get?_of_ne (h : d.WellIndexed) {key other : Bytes} (hne : other ≠ key)
    (value : Value) :
    (d.insert key value).get? other = d.get? other ∧ (d.erase key).get? other = d.get? other := by
  rw [(h.insert key value).get?_eq, (h.erase key).get?_eq, h.get?_eq]
  cases hindex : d.index[key]? with
  | none =>
    have hkey := h.index_eq_none_iff.mp hindex
    rw [h.insert_of_not_mem hkey, toList_push, Entries.lookup_append_cons_of_ne hne,
      List.append_nil, h.erase_of_not_mem hkey]
    exact ⟨rfl, rfl⟩
  | some position =>
    obtain ⟨front, old, back, hsplit, -⟩ := h.exists_split hindex
    rw [h.toList_insert_of_split hsplit, h.toList_erase_of_split hsplit, hsplit,
      Entries.lookup_append_cons_of_ne hne, Entries.lookup_append_cons_of_ne hne]
    exact ⟨rfl, rfl⟩

theorem WellIndexed.actsAsList (h : d.WellIndexed) : d.ActsAsList where
  get?_eq := h.get?_eq
  contains_iff := h.contains_iff
  replace_present hsplit value := ⟨h.get?_of_split hsplit, h.toList_insert_of_split hsplit value⟩
  replace_absent {key} hkey value := by
    refine ⟨h.get?_of_not_mem hkey, ?_⟩
    change (d.insert key value).toList = _
    rw [h.insert_of_not_mem hkey, toList_push]
  remove_present hsplit := ⟨h.get?_of_split hsplit, h.toList_erase_of_split hsplit⟩
  remove_absent hkey := by rw [remove, h.get?_of_not_mem hkey, h.erase_of_not_mem hkey]
  get?_of_ne hne value := h.get?_of_ne hne value

/-- A dictionary and the plain list of entries serve all requests alike, whatever was
asked before: the answers are the same, and so are the entries.  All keys differ, the
index has exactly the place of every key, and the next request does what it would do to
the list. -/
theorem serveAll_refines (requests : List Request) :
    let served := Dict.serveAll Dict.serve ∅ requests
    let listed := Dict.serveAll Entries.serve [] requests
    served.1 = listed.1 ∧ served.2.toList = listed.2 ∧ served.2.WellIndexed ∧
      served.2.ActsAsList := by
  intro served listed
  obtain ⟨hanswers, hlists⟩ := Lists.serveAll lists_empty requests
  exact ⟨hanswers, hlists.toList_eq, hlists.wellIndexed, hlists.wellIndexed.actsAsList⟩

/-- The first of three entries is removed and comes back at the end.  In between, the last
one has moved up, and its value is replaced where it stands now. -/
example :
    let served := serveAll Dict.serve ∅
      [.collect [([97], .int 1), ([98], .int 2), ([99], .int 3)], .remove [97],
        .insert [99] (.int 9), .insert [97] (.int 4), .get [99]]
    served.1 = [.done, .value (some (.int 1)), .value (some (.int 3)), .value none,
        .value (some (.int 9))] ∧
      served.2.toList = [([98], .int 2), ([99], .int 9), ([97], .int 4)] := by
  decide +kernel

end Dict
end Bencode
end PeerLink
