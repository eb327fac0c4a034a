import Mathlib.Data.List.Nodup
import Mathlib.Data.String.Basic
import Wiring.Dict
import Wiring.Table

/-!
# Tables by their lookups

A table is read by its keys. Where no key stands twice, an entry is in the table exactly if its key
looks it up, and two ascending tables with the same lookups are the same table.
-/

namespace Wiring

namespace Entries

variable {α β : Type}

theorem lookup_map (f : String → α → β) (name : String) (entries : Entries α) :
    List.lookup name (entries.map fun entry => (entry.1, f entry.1 entry.2)) =
      (List.lookup name entries).map (f name) := by
  induction entries with
  | nil => rfl
  | cons entry rest ih =>
      rw [List.map_cons, lookup_cons, lookup_cons, ih]
      by_cases here : name = entry.1
      · rw [if_pos here, if_pos here, here, Option.map_some]
      · rw [if_neg here, if_neg here]

theorem lookup_filter {entries : Entries α} (distinct : Distinct entries) (keep : String → α → Bool)
    (name : String) :
    List.lookup name (entries.filter fun entry => keep entry.1 entry.2) =
      (List.lookup name entries).filter (keep name) := by
  have hfilter : (entries.filter fun entry => keep entry.1 entry.2) = entries.filterMap fun entry =>
      ((some entry.2).filter (keep entry.1)).map (entry.1, ·) := by
    rw [← List.filterMap_eq_filter]
    congr 1
    funext entry
    cases hkeep : keep entry.1 entry.2 <;> simp [Option.guard, Option.filter, hkeep]
  rw [hfilter, lookup_filterMap distinct fun key value => (some value).filter (keep key)]
  cases List.lookup name entries with
  | none => rfl
  | some value => rfl

theorem mem_keys_of_mem {key : String} {value : α} {entries : Entries α}
    (hmem : (key, value) ∈ entries) : key ∈ keys entries :=
  List.mem_map.mpr ⟨(key, value), hmem, rfl⟩

theorem lookup_isSome_iff {key : String} {entries : Entries α} :
    (List.lookup key entries).isSome ↔ key ∈ keys entries := by
  induction entries with
  | nil => simp
  | cons entry rest ih =>
      rw [lookup_cons, keys_cons, List.mem_cons]
      by_cases here : key = entry.1
      · simp [here]
      · simp [here, ih]

theorem mem_of_lookup {key : String} {value : α} {entries : Entries α}
    (hlookup : List.lookup key entries = some value) : (key, value) ∈ entries := by
  induction entries with
  | nil => simp at hlookup
  | cons entry rest ih =>
      rw [lookup_cons] at hlookup
      split at hlookup
      · next here =>
          obtain rfl : entry.2 = value := by simpa using hlookup
          exact here ▸ List.mem_cons_self
      · exact List.mem_cons_of_mem _ (ih hlookup)

theorem mem_put {key : String} {value : α} {entries : Entries α} {entry : String × α}
    (hmem : entry ∈ put key value entries) : entry = (key, value) ∨ entry ∈ entries := by
  induction entries with
  | nil => exact .inl (List.mem_singleton.mp hmem)
  | cons first rest ih =>
      rw [put] at hmem
      split at hmem
      · rcases List.mem_cons.mp hmem with hnew | hold
        · exact .inl hnew
        · exact .inr (List.mem_cons_of_mem _ hold)
      · rcases List.mem_cons.mp hmem with rfl | hlater
        · exact .inr List.mem_cons_self
        · exact (ih hlater).imp id (List.mem_cons_of_mem _)

theorem Distinct.lookup_of_mem {key : String} {value : α} {entries : Entries α}
    (distinct : Distinct entries) (hmem : (key, value) ∈ entries) :
    List.lookup key entries = some value := by
  induction entries with
  | nil => simp at hmem
  | cons entry rest ih =>
      simp only [Distinct, keys_cons, List.nodup_cons] at distinct
      rw [lookup_cons]
      rcases List.mem_cons.mp hmem with rfl | later
      · simp
      · have hne : key ≠ entry.1 := by
          rintro rfl
          exact distinct.1 (mem_keys_of_mem later)
        rw [if_neg hne]
        exact ih distinct.2 later

theorem Distinct.mem_iff {key : String} {value : α} {entries : Entries α}
    (distinct : Distinct entries) :
    (key, value) ∈ entries ↔ List.lookup key entries = some value :=
  ⟨distinct.lookup_of_mem, mem_of_lookup⟩

theorem Ascending.distinct {entries : Entries α} (ascending : Ascending entries) :
    Distinct entries :=
  ascending.imp fun hlt => ne_of_lt hlt

theorem Distinct.perm_of_lookup {entries others : Entries α} (distinct : Distinct entries)
    (distinct' : Distinct others)
    (same : ∀ key, List.lookup key entries = List.lookup key others) : entries.Perm others := by
  refine (List.perm_ext_iff_of_nodup distinct.of_map distinct'.of_map).mpr ?_
  rintro ⟨key, value⟩
  rw [distinct.mem_iff, distinct'.mem_iff, same]

theorem Ascending.eq_of_lookup {entries others : Entries α} (ascending : Ascending entries)
    (ascending' : Ascending others)
    (same : ∀ key, List.lookup key entries = List.lookup key others) : entries = others := by
  have hperm : entries.Perm others := ascending.distinct.perm_of_lookup ascending'.distinct same
  refine List.Perm.eq_of_pairwise ?_ (List.pairwise_map.mp ascending)
    (List.pairwise_map.mp ascending') hperm
  intro one other _ _ hlt hgt
  exact absurd hgt (lt_asymm hlt)

end Entries

/-- Two ascending lists of names with the same members are the same list. -/
theorem eq_of_ascending_of_mem_iff {names others : List String}
    (ascending : names.Pairwise (· < ·)) (ascending' : others.Pairwise (· < ·))
    (same : ∀ name, name ∈ names ↔ name ∈ others) : names = others := by
  have hperm : names.Perm others :=
    (List.perm_ext_iff_of_nodup (ascending.imp fun hlt => ne_of_lt hlt)
      (ascending'.imp fun hlt => ne_of_lt hlt)).mpr same
  exact hperm.eq_of_pairwise (fun one other _ _ hlt hgt => absurd hgt (lt_asymm hlt))
    ascending ascending'

namespace Table

variable {α : Type}

theorem contains_iff {table : Table α} {key : String} : table.contains key ↔ key ∈ table.keys :=
  Entries.lookup_isSome_iff

theorem mem_entries_iff {table : Table α} {key : String} {value : α} :
    (key, value) ∈ table.entries ↔ table.get? key = some value :=
  table.distinct.mem_iff

theorem get?_insert_self (table : Table α) (key : String) (value : α) :
    (table.insert key value).get? key = some value :=
  (get?_insert table key key value).trans (if_pos rfl)

theorem get?_insert_of_ne (table : Table α) {key other : String} (hne : other ≠ key) (value : α) :
    (table.insert key value).get? other = table.get? other :=
  (get?_insert table key other value).trans (if_neg hne)

end Table

namespace Dict

variable {α : Type}

theorem contains_iff {dict : Dict α} {key : String} : dict.contains key ↔ key ∈ dict.keys :=
  Entries.lookup_isSome_iff

theorem mem_entries_iff {dict : Dict α} {key : String} {value : α} :
    (key, value) ∈ dict.entries ↔ dict.get? key = some value :=
  dict.ascending.distinct.mem_iff

theorem get?_insert_self (dict : Dict α) (key : String) (value : α) :
    (dict.insert key value).get? key = some value :=
  (get?_insert dict key key value).trans (if_pos rfl)

theorem get?_insert_of_ne (dict : Dict α) {key other : String} (hne : other ≠ key) (value : α) :
    (dict.insert key value).get? other = dict.get? other :=
  (get?_insert dict key other value).trans (if_neg hne)

theorem get?_filter (dict : Dict α) (keep : String → α → Bool) (name : String) :
    (dict.filter keep).get? name = (dict.get? name).filter (keep name) :=
  Entries.lookup_filter dict.ascending.distinct keep name

theorem eq_of_get? {dict other : Dict α} (same : ∀ key, dict.get? key = other.get? key) :
    dict = other := by
  cases dict
  cases other
  congr
  exact Entries.Ascending.eq_of_lookup ‹_› ‹_› same

@[simp]
theorem contains_insert (dict : Dict α) (key name : String) (value : α) :
    (dict.insert key value).contains name ↔ name = key ∨ dict.contains name := by
  unfold contains
  rw [get?_insert]
  split <;> simp [*]

theorem insert_self {dict : Dict α} {key : String} {value : α}
    (hheld : dict.get? key = some value) : dict.insert key value = dict := by
  apply eq_of_get?
  intro name
  rw [get?_insert]
  split
  · next here => rw [here, hheld]
  · rfl

theorem get?_foldl_insert {entries : List (String × α)} (distinct : Entries.Distinct entries)
    (dict : Dict α) (name : String) :
    (entries.foldl (fun (dict : Dict α) entry => dict.insert entry.1 entry.2) dict).get? name =
      (entries.lookup name).or (dict.get? name) := by
  induction entries generalizing dict with
  | nil => simp
  | cons entry rest ih =>
      simp only [Entries.Distinct, Entries.keys_cons, List.nodup_cons] at distinct
      rw [List.foldl_cons, ih distinct.2, get?_insert, Entries.lookup_cons]
      by_cases here : name = entry.1
      · subst here
        rw [Entries.lookup_eq_none_of_not_mem_keys distinct.1]
        simp
      · simp [here]

@[simp]
theorem get?_empty (name : String) : (∅ : Dict α).get? name = none := rfl

theorem get?_ofList {entries : List (String × α)} (distinct : Entries.Distinct entries)
    (name : String) : (ofList entries).get? name = entries.lookup name := by
  rw [ofList, get?_foldl_insert distinct, get?_empty, Option.or_none]

theorem mem_keys_ofList {entries : List (String × α)} (distinct : Entries.Distinct entries)
    {name : String} : name ∈ (ofList entries).keys ↔ name ∈ Entries.keys entries := by
  rw [← contains_iff, contains, get?_ofList distinct, Entries.lookup_isSome_iff]

/-- Entries that ascend already stay as they are. -/
theorem entries_ofList {entries : List (String × α)} (ascending : Entries.Ascending entries) :
    (ofList entries).entries = entries :=
  (ofList entries).ascending.eq_of_lookup ascending (get?_ofList ascending.distinct)

end Dict
end Wiring
