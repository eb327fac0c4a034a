import Wiring.Entries

/-!
Tables in ascending order of their keys, that is in the order of their code points.
-/

namespace Wiring

structure Dict (α : Type) where
  entries : Entries α := []
  ascending : entries.Ascending := by exact List.Pairwise.nil

namespace Dict

variable {α : Type}

instance : Inhabited (Dict α) := ⟨{}⟩

instance : EmptyCollection (Dict α) := ⟨{}⟩

def get? (dict : Dict α) (key : String) : Option α := dict.entries.lookup key

def contains (dict : Dict α) (key : String) : Bool := (dict.get? key).isSome

def keys (dict : Dict α) : List String := dict.entries.keys

def size (dict : Dict α) : Nat := dict.entries.length

def isEmpty (dict : Dict α) : Bool := dict.entries.isEmpty

def insert (dict : Dict α) (key : String) (value : α) : Dict α where
  entries := dict.entries.putSorted key value
  ascending := dict.ascending.putSorted key value

def erase (dict : Dict α) (key : String) : Dict α where
  entries := dict.entries.without key
  ascending := by
    unfold Entries.Ascending
    rw [Entries.keys_without]
    exact dict.ascending.filter _

def filter (dict : Dict α) (keep : String → α → Bool) : Dict α where
  entries := dict.entries.filter fun entry => keep entry.1 entry.2
  ascending :=
    List.Pairwise.sublist (List.filter_sublist.map Prod.fst) dict.ascending

/-- Of two entries with one key the later one counts. -/
def ofList (entries : List (String × α)) : Dict α :=
  entries.foldl (fun (dict : Dict α) entry => dict.insert entry.1 entry.2) ∅

@[simp]
theorem get?_insert (dict : Dict α) (key name : String) (value : α) :
    (dict.insert key value).get? name = if name = key then some value else dict.get? name :=
  Entries.lookup_putSorted key name value dict.entries

@[simp]
theorem get?_erase (dict : Dict α) (key name : String) :
    (dict.erase key).get? name = if name = key then none else dict.get? name :=
  Entries.lookup_without key name dict.entries

end Dict

/-- A set of names, kept in ascending order. -/
abbrev NameSet := Dict Unit

namespace NameSet

def add (names : NameSet) (name : String) : NameSet := Dict.insert names name ()

end NameSet
end Wiring
