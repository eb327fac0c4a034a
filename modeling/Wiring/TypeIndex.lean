import Wiring.Table
import Wiring.Dict

/-!
Which services stand for a type. Types keep the order of their first registration, ids under a type
the order of theirs. An excluded type is never registered again.
-/

namespace Wiring

structure TypeIndex where
  types : Table (List String) := ∅
  excluded : NameSet := ∅

namespace TypeIndex

instance : EmptyCollection TypeIndex := ⟨{ types := ∅, excluded := ∅ }⟩

instance : Inhabited TypeIndex := ⟨∅⟩

def lookup (index : TypeIndex) (typeName : String) : List String :=
  (index.types.get? typeName).getD []

def contains (index : TypeIndex) (typeName : String) : Bool := index.types.contains typeName

def entries (index : TypeIndex) : List (String × List String) := index.types.entries

/-- A type that loses its last id leaves the index. -/
def erase (index : TypeIndex) (id : String) : TypeIndex :=
  { index with
    types := index.types.filterMap fun _ ids =>
      let left := ids.filter (· ≠ id)
      if left.isEmpty then none else some left }

def addType (id : String) (index : TypeIndex) (typeName : String) : TypeIndex :=
  if index.excluded.contains typeName then index
  else
    let ids := index.lookup typeName
    if id ∈ ids then index
    else { index with types := index.types.insert typeName (ids ++ [id]) }

/-- Replaces all types under which `id` was registered. -/
def register (index : TypeIndex) (id : String) (types : List String) : TypeIndex :=
  types.foldl (addType id) (index.erase id)

def exclude (index : TypeIndex) (typeName : String) : TypeIndex where
  types := index.types.erase typeName
  excluded := index.excluded.add typeName

/-- Excluded types stay excluded. -/
def clear (index : TypeIndex) : TypeIndex := { index with types := ∅ }

@[simp]
theorem lookup_clear (index : TypeIndex) (typeName : String) :
    index.clear.lookup typeName = [] := rfl

@[simp]
theorem lookup_erase (index : TypeIndex) (id typeName : String) :
    (index.erase id).lookup typeName = (index.lookup typeName).filter (· ≠ id) := by
  unfold lookup erase
  rw [Table.get?_filterMap]
  cases index.types.get? typeName with
  | none => rfl
  | some ids =>
      simp only [Option.bind_some, Option.getD_some]
      split
      · next empty => exact (List.isEmpty_iff.1 empty).symm
      · rfl

theorem lookup_addType (id typeName other : String) (index : TypeIndex) :
    (addType id index typeName).lookup other =
      if other = typeName ∧ index.excluded.contains typeName = false ∧ id ∉ index.lookup typeName
      then index.lookup other ++ [id] else index.lookup other := by
  unfold addType
  cases excluded : index.excluded.contains typeName with
  | true => simp
  | false =>
      by_cases listed : id ∈ index.lookup typeName
      · simp [listed]
      · by_cases same : other = typeName
        · subst same
          simp only [Bool.false_eq_true, if_false, listed, not_false_eq_true, and_self, if_true]
          simp [lookup]
        · simp only [Bool.false_eq_true, if_false, listed, same, false_and]
          simp [lookup, same]

@[simp]
theorem lookup_exclude (index : TypeIndex) (excluded typeName : String) :
    (index.exclude excluded).lookup typeName =
      if typeName = excluded then [] else index.lookup typeName := by
  unfold lookup exclude
  rw [Table.get?_erase]
  split <;> rfl

end TypeIndex

/-- Among several candidates the private ones are hidden; a sole candidate stands. -/
def selectCandidates (isPrivate : String → Bool) (ids : List String) : List String :=
  if ids.length ≤ 1 then ids else ids.filter fun id => !isPrivate id

end Wiring
