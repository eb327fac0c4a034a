import Wiring.Entries

/-!
Tables in registration order. A key keeps the place of its first insertion; erasing it and
inserting it again moves it to the end.
-/

namespace Wiring

structure Table (α : Type) where
  entries : Entries α := []
  distinct : entries.Distinct := by exact List.nodup_nil

namespace Table

variable {α β : Type}

instance : Inhabited (Table α) := ⟨{}⟩

instance : EmptyCollection (Table α) := ⟨{}⟩

def get? (table : Table α) (key : String) : Option α := table.entries.lookup key

def contains (table : Table α) (key : String) : Bool := (table.get? key).isSome

def keys (table : Table α) : List String := table.entries.keys

def size (table : Table α) : Nat := table.entries.length

def isEmpty (table : Table α) : Bool := table.entries.isEmpty

def insert (table : Table α) (key : String) (value : α) : Table α where
  entries := table.entries.put key value
  distinct := table.distinct.put key value

def erase (table : Table α) (key : String) : Table α where
  entries := table.entries.without key
  distinct := by
    unfold Entries.Distinct
    rw [Entries.keys_without]
    exact table.distinct.filter _

/-- Keeps the order of the entries for which `f` gives a value. -/
def filterMap (table : Table α) (f : String → α → Option β) : Table β where
  entries := table.entries.filterMap fun entry => (f entry.1 entry.2).map (entry.1, ·)
  distinct :=
    (Entries.keys_filterMap_sublist _ (by
      intro entry kept h
      obtain ⟨_, _, rfl⟩ := Option.map_eq_some_iff.1 h
      rfl) table.entries).nodup table.distinct

@[simp]
theorem get?_insert (table : Table α) (key name : String) (value : α) :
    (table.insert key value).get? name = if name = key then some value else table.get? name :=
  Entries.lookup_put key name value table.entries

@[simp]
theorem get?_erase (table : Table α) (key name : String) :
    (table.erase key).get? name = if name = key then none else table.get? name :=
  Entries.lookup_without key name table.entries

@[simp]
theorem get?_filterMap (table : Table α) (f : String → α → Option β) (name : String) :
    (table.filterMap f).get? name = (table.get? name).bind (f name) :=
  Entries.lookup_filterMap table.distinct f name

theorem keys_erase (table : Table α) (key : String) :
    (table.erase key).keys = table.keys.filter (· ≠ key) :=
  Entries.keys_without key table.entries

end Table
end Wiring
