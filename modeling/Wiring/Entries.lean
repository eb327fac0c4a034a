/-!
Keyed entries held in a list, and the two ways of writing one: where the key already stands or
at the end, and where the key belongs in ascending order. Reading is core's `List.lookup`.
-/

namespace Wiring

abbrev Entries (α : Type) := List (String × α)

namespace Entries

variable {α β : Type}

def keys (entries : Entries α) : List String := entries.map Prod.fst

def Distinct (entries : Entries α) : Prop := (keys entries).Nodup

def Ascending (entries : Entries α) : Prop := (keys entries).Pairwise (· < ·)

/-- An existing key keeps its place; a new one goes to the end. -/
def put (key : String) (value : α) : Entries α → Entries α
  | [] => [(key, value)]
  | (other, held) :: rest =>
      if other = key then (key, value) :: rest else (other, held) :: put key value rest

/-- On ascending entries, the only place that keeps them ascending. -/
def putSorted (key : String) (value : α) : Entries α → Entries α
  | [] => [(key, value)]
  | (other, held) :: rest =>
      if other = key then (key, value) :: rest
      else if key < other then (key, value) :: (other, held) :: rest
      else (other, held) :: putSorted key value rest

def without (key : String) (entries : Entries α) : Entries α :=
  entries.filter (·.1 ≠ key)

@[simp]
theorem keys_nil : keys ([] : Entries α) = [] := rfl

@[simp]
theorem keys_cons (entry : String × α) (rest : Entries α) :
    keys (entry :: rest) = entry.1 :: keys rest := rfl

theorem keys_put (key : String) (value : α) (entries : Entries α) :
    keys (put key value entries) =
      if key ∈ keys entries then keys entries else keys entries ++ [key] := by
  induction entries with
  | nil => simp [put]
  | cons entry rest ih =>
      by_cases same : entry.1 = key
      · simp [put, same]
      · have absent : key ≠ entry.1 := fun equal => same equal.symm
        simp only [put, same, if_false, keys_cons, ih, List.mem_cons, absent, false_or]
        split <;> simp

theorem lookup_cons (name : String) (entry : String × α) (rest : Entries α) :
    List.lookup name (entry :: rest) =
      if name = entry.1 then some entry.2 else List.lookup name rest := by
  obtain ⟨key, value⟩ := entry
  rw [List.lookup_cons]
  by_cases same : name = key
  · simp only [same, beq_self_eq_true, if_true]
  · simp only [beq_eq_false_iff_ne.2 same, same, if_false]

theorem lookup_put (key name : String) (value : α) (entries : Entries α) :
    List.lookup name (put key value entries) =
      if name = key then some value else List.lookup name entries := by
  induction entries with
  | nil => simp [put, lookup_cons]
  | cons entry rest ih =>
      by_cases here : entry.1 = key
      · simp only [put, here, if_true, lookup_cons]
        split <;> rfl
      · simp only [put, here, if_false, lookup_cons, ih]
        grind

theorem lookup_putSorted (key name : String) (value : α) (entries : Entries α) :
    List.lookup name (putSorted key value entries) =
      if name = key then some value else List.lookup name entries := by
  induction entries with
  | nil => simp [putSorted, lookup_cons]
  | cons entry rest ih =>
      by_cases here : entry.1 = key
      · simp only [putSorted, here, if_true, lookup_cons]
        split <;> rfl
      · by_cases before : key < entry.1
        · simp only [putSorted, here, before, if_false, if_true, lookup_cons]
        · simp only [putSorted, here, before, if_false, lookup_cons, ih]
          grind

theorem mem_keys_putSorted (key name : String) (value : α) (entries : Entries α) :
    name ∈ keys (putSorted key value entries) ↔ name = key ∨ name ∈ keys entries := by
  induction entries with
  | nil => simp [putSorted]
  | cons entry rest ih =>
      by_cases same : entry.1 = key
      · simp [putSorted, same]
      · by_cases before : key < entry.1
        · simp [putSorted, same, before]
        · simp only [putSorted, same, before, if_false, keys_cons, List.mem_cons, ih]
          grind

theorem Distinct.put {entries : Entries α} (distinct : Distinct entries) (key : String)
    (value : α) : Distinct (put key value entries) := by
  unfold Distinct at *
  rw [keys_put]
  split
  · exact distinct
  · next absent =>
      exact List.nodup_append.2 ⟨distinct, by simp, by
        intro name mem other memKey equal
        simp only [List.mem_singleton] at memKey
        exact absent (memKey ▸ equal ▸ mem)⟩

theorem Ascending.putSorted {entries : Entries α} (ascending : Ascending entries) (key : String)
    (value : α) : Ascending (putSorted key value entries) := by
  induction entries with
  | nil => simp [Entries.putSorted, Ascending]
  | cons entry rest ih =>
      simp only [Ascending, keys_cons, List.pairwise_cons] at ascending
      obtain ⟨first, later⟩ := ascending
      by_cases here : entry.1 = key
      · subst here
        simp only [Entries.putSorted, if_true, Ascending, keys_cons, List.pairwise_cons]
        exact ⟨first, later⟩
      · by_cases before : key < entry.1
        · simp only [Entries.putSorted, here, before, if_false, if_true, Ascending, keys_cons,
            List.pairwise_cons, List.mem_cons]
          refine ⟨?_, first, later⟩
          rintro name (rfl | mem)
          · exact before
          · exact String.lt_trans before (first name mem)
        · have after : entry.1 < key :=
            (String.not_lt.1 before |> fun le =>
              Std.lt_of_le_of_ne le here)
          simp only [Entries.putSorted, here, before, if_false, Ascending, keys_cons,
            List.pairwise_cons]
          refine ⟨?_, ih later⟩
          intro name mem
          rcases (mem_keys_putSorted key name value rest).1 mem with rfl | old
          · exact after
          · exact first name old

theorem keys_without (key : String) (entries : Entries α) :
    keys (without key entries) = (keys entries).filter (· ≠ key) := by
  simp [keys, without, List.filter_map, Function.comp_def]

theorem lookup_without (key name : String) (entries : Entries α) :
    List.lookup name (without key entries) =
      if name = key then none else List.lookup name entries := by
  induction entries with
  | nil => simp [without]
  | cons entry rest ih =>
      unfold without at ih ⊢
      by_cases dropped : entry.1 = key
      · rw [List.filter_cons_of_neg (by simp [dropped]), ih, lookup_cons, dropped]
        split <;> rfl
      · rw [List.filter_cons_of_pos (by simp [dropped]), lookup_cons, ih, lookup_cons]
        by_cases here : name = entry.1
        · rw [if_pos here, if_neg (here ▸ dropped), if_pos here]
        · rw [if_neg here, if_neg here]

theorem lookup_eq_none_of_not_mem_keys {name : String} {entries : Entries α}
    (absent : name ∉ keys entries) : List.lookup name entries = none := by
  induction entries with
  | nil => rfl
  | cons entry rest ih =>
      simp only [keys_cons, List.mem_cons, not_or] at absent
      rw [lookup_cons, if_neg absent.1]
      exact ih absent.2

/-- Where no key is twice, an entry that is left out leaves none of its key. -/
theorem lookup_filterMap {entries : Entries α} (distinct : Distinct entries)
    (f : String → α → Option β) (name : String) :
    List.lookup name (entries.filterMap fun entry => (f entry.1 entry.2).map (entry.1, ·)) =
      (List.lookup name entries).bind (f name) := by
  induction entries with
  | nil => rfl
  | cons entry rest ih =>
      simp only [Distinct, keys_cons, List.nodup_cons] at distinct
      rw [List.filterMap_cons, lookup_cons]
      by_cases here : name = entry.1
      · subst here
        rw [if_pos rfl, Option.bind_some]
        cases kept : f entry.1 entry.2 with
        | none =>
            rw [Option.map_none, ih distinct.2, lookup_eq_none_of_not_mem_keys distinct.1,
              Option.bind_none]
        | some value => rw [Option.map_some, lookup_cons, if_pos rfl]
      · rw [if_neg here, ← ih distinct.2]
        cases f entry.1 entry.2 with
        | none => rfl
        | some value => rw [Option.map_some, lookup_cons, if_neg here]

theorem keys_filterMap_sublist (f : String × α → Option (String × β))
    (keeps : ∀ entry kept, f entry = some kept → kept.1 = entry.1) (entries : Entries α) :
    (keys (entries.filterMap f)).Sublist (keys entries) := by
  induction entries with
  | nil => simp
  | cons entry rest ih =>
      rw [List.filterMap_cons]
      cases h : f entry with
      | none => exact ih.cons _
      | some kept =>
          simp only [keys_cons, keeps entry kept h]
          exact ih.cons_cons _

theorem keys_map (f : String × α → β) (entries : Entries α) :
    keys (entries.map fun entry => (entry.1, f entry)) = keys entries := by
  simp [keys, Function.comp_def]

end Entries
end Wiring
