import PeerLink.Extension.Handshake

/-!
# The peer's ids

The ids that the peer gives to sub-protocols accumulate over its extension
handshakes: an id of 0 takes a name out of the table, any other id replaces
the one before, and names that a handshake does not list stay as they are.
-/

namespace PeerLink

/-- The id of every sub-protocol that the peer supports. -/
abbrev IdTable := List (String × UInt8)

namespace IdTable

/-- Takes a name out of the table. -/
def remove (table : IdTable) (name : String) : IdTable :=
  List.filter (fun entry => entry.1 != name) table

/-- Gives a name its id, or takes it out of the table if the id is 0. -/
def assign (table : IdTable) (name : String) (id : UInt8) : IdTable :=
  if id = 0 then table.remove name else (name, id) :: table.remove name

/-- Assigns all ids of a handshake, in order. -/
def update (table : IdTable) (ids : List (String × UInt8)) : IdTable :=
  ids.foldl (fun table (name, id) => table.assign name id) table

/-- The id of a name. -/
def id? (table : IdTable) (name : String) : Option UInt8 := List.lookup name table

@[simp]
theorem id?_remove_self (table : IdTable) (name : String) :
    (table.remove name).id? name = none := by
  simpa [id?, remove, List.lookup_eq_none_iff] using fun _ _ _ h => Ne.symm h

theorem id?_remove_of_ne (table : IdTable) {name other : String} (h : other ≠ name) :
    (table.remove name).id? other = table.id? other := by
  induction table with
  | nil => rfl
  | cons entry rest ih =>
    obtain ⟨key, id⟩ := entry
    simp only [id?, remove] at ih ⊢
    by_cases hkey : key = name
    · subst hkey
      simp [List.lookup_cons, beq_eq_false_iff_ne.mpr h, ih]
    · by_cases hother : other = key
      · subst hother
        simp [hkey]
      · simp [hkey, List.lookup_cons, beq_eq_false_iff_ne.mpr hother, ih]

/-- A name has the id that was assigned last, unless that is 0. -/
theorem id?_assign_self (table : IdTable) (name : String) (id : UInt8) :
    (table.assign name id).id? name = if id = 0 then none else some id := by
  unfold assign
  split
  · simp
  · simp [id?]

/-- Assigning an id to one name leaves the others alone. -/
theorem id?_assign_of_ne (table : IdTable) {name other : String} (id : UInt8) (h : other ≠ name) :
    (table.assign name id).id? other = table.id? other := by
  unfold assign
  split
  · exact id?_remove_of_ne table h
  · have hstep : id? ((name, id) :: table.remove name) other = (table.remove name).id? other := by
      simp [id?, List.lookup_cons, beq_eq_false_iff_ne.mpr h]
    exact hstep.trans (id?_remove_of_ne table h)

end IdTable
end PeerLink
