import Wiring.Compilation
import Wiring.Proofs.Reachability
import Wiring.Proofs.Tables

/-!
# Who stands for a type

A registered definition is listed under a type if it is autowired, declares the type and the type is
not excluded. The index of a reachable registry lists exactly those definitions, whatever happened in
between; the index that a compilation builds lists them too, in ascending order. Where the registry's
own candidates ascend the two select the same candidates.
-/

namespace Wiring

namespace TypeIndex

variable (index : TypeIndex) (id : String)

@[simp]
theorem excluded_addType (typeName : String) : (addType id index typeName).excluded = index.excluded := by
  unfold addType
  dsimp only
  split
  · rfl
  · split <;> rfl

theorem lookup_foldl_addType (types : List String) (typeName : String) :
    (types.foldl (addType id) index).lookup typeName =
      if typeName ∈ types ∧ index.excluded.contains typeName = false ∧ id ∉ index.lookup typeName
      then index.lookup typeName ++ [id] else index.lookup typeName := by
  induction types generalizing index with
  | nil => simp
  | cons first rest ih =>
      rw [List.foldl_cons, ih, excluded_addType, lookup_addType]
      by_cases here : typeName = first
      · subst here
        by_cases listed : id ∈ index.lookup typeName
        · simp [listed]
        · cases excluded : index.excluded.contains typeName <;> simp [listed]
      · simp [here]

@[simp]
theorem excluded_register (types : List String) :
    (index.register id types).excluded = index.excluded := by
  have hfold : ∀ start : TypeIndex, (types.foldl (addType id) start).excluded = start.excluded := by
    induction types with
    | nil => simp
    | cons first rest ih =>
        intro start
        rw [List.foldl_cons, ih, excluded_addType]
  rw [register, hfold]
  rfl

theorem lookup_register (types : List String) (typeName : String) :
    (index.register id types).lookup typeName =
      (index.lookup typeName).filter (· ≠ id) ++
        if typeName ∈ types ∧ index.excluded.contains typeName = false then [id] else [] := by
  rw [register, lookup_foldl_addType, lookup_erase]
  have hexcluded : (index.erase id).excluded = index.excluded := rfl
  rw [hexcluded]
  by_cases listed : typeName ∈ types ∧ index.excluded.contains typeName = false
  · rw [if_pos ⟨listed.1, listed.2, by simp⟩, if_pos listed]
  · rw [if_neg fun h => listed ⟨h.1, h.2.1⟩, if_neg listed, List.append_nil]

end TypeIndex

/-- The definition stands for the type, as far as it and the catalog say. -/
def Definition.Declares (definition : Definition) (catalog : Catalog) (typeName : String) : Prop :=
  definition.flags.autowired = true ∧ typeName ∈ definition.declaredTypes catalog

instance (definition : Definition) (catalog : Catalog) (typeName : String) :
    Decidable (definition.Declares catalog typeName) :=
  inferInstanceAs (Decidable (_ ∧ _))

namespace Registry

theorem mem_entries_of_definition {registry : Registry} {id : String} {definition : Definition}
    (hfound : registry.definition? id = some definition) :
    (id, definition) ∈ registry.definitions.entries :=
  Table.mem_entries_iff.mpr hfound

/-- `id` is a candidate for the type, private or not. -/
def Lists (registry : Registry) (typeName id : String) : Prop :=
  ∃ definition, registry.definition? id = some definition ∧
    definition.Declares registry.catalog typeName ∧
      registry.types.excluded.contains typeName = false

/-- The index says what the definitions say. -/
structure Indexed (registry : Registry) : Prop where
  mem_lookup_iff : ∀ typeName id,
    id ∈ registry.types.lookup typeName ↔ registry.Lists typeName id
  nodup : ∀ typeName, (registry.types.lookup typeName).Nodup

/-- Entries whose ids are new are indexed in their order. -/
theorem lookup_foldl_indexEntry (catalog : Catalog) (entries : List (String × Definition))
    (distinct : Entries.Distinct entries) (index : TypeIndex) (typeName : String)
    (fresh : ∀ id ∈ Entries.keys entries, id ∉ index.lookup typeName) :
    (entries.foldl (indexEntry catalog) index).lookup typeName =
      index.lookup typeName ++ (entries.filter fun entry =>
        entry.2.Declares catalog typeName ∧
          index.excluded.contains typeName = false).map Prod.fst := by
  induction entries generalizing index with
  | nil => simp
  | cons entry rest ih =>
      simp only [Entries.Distinct, Entries.keys_cons, List.nodup_cons] at distinct
      have hfresh : entry.1 ∉ index.lookup typeName := fresh _ List.mem_cons_self
      have hlookup : (indexEntry catalog index entry).lookup typeName =
          index.lookup typeName ++
            if entry.2.Declares catalog typeName ∧ index.excluded.contains typeName = false
            then [entry.1] else [] := by
        unfold indexEntry Definition.Declares
        by_cases hflag : entry.2.flags.autowired = true
        · have hkept : (index.lookup typeName).filter (· ≠ entry.1) = index.lookup typeName := by
            refine List.filter_eq_self.mpr fun id hid => decide_eq_true ?_
            rintro rfl
            exact hfresh hid
          rw [if_pos hflag, TypeIndex.lookup_register, hkept]
          simp only [hflag, true_and]
        · rw [if_neg hflag, if_neg fun h => hflag h.1.1, List.append_nil]
      have hexcluded : (indexEntry catalog index entry).excluded = index.excluded := by
        unfold indexEntry
        split <;> simp
      rw [List.foldl_cons, ih distinct.2, hlookup, hexcluded, List.filter_cons]
      · split <;> simp [*]
      · intro id hid hmem
        rw [hlookup, List.mem_append] at hmem
        rcases hmem with hold | hnew
        · exact fresh id (List.mem_cons_of_mem _ hid) hold
        · have hsame : id = entry.1 := by
            split at hnew
            · exact List.mem_singleton.mp hnew
            · simp at hnew
          exact distinct.1 (hsame ▸ hid)

theorem excluded_foldl_indexEntry (catalog : Catalog) (entries : List (String × Definition))
    (index : TypeIndex) :
    (entries.foldl (indexEntry catalog) index).excluded = index.excluded := by
  induction entries generalizing index with
  | nil => rfl
  | cons entry rest ih =>
      rw [List.foldl_cons, ih]
      unfold indexEntry
      split <;> simp

theorem lookup_reindex (registry : Registry) (typeName : String) :
    registry.reindex.types.lookup typeName =
      (registry.definitions.entries.filter fun entry =>
        entry.2.Declares registry.catalog typeName ∧
          registry.types.excluded.contains typeName = false).map Prod.fst := by
  unfold reindex
  rw [lookup_foldl_indexEntry _ _ registry.definitions.distinct _ _ (by simp),
    TypeIndex.lookup_clear, List.nil_append]
  rfl

theorem indexed_reindex (registry : Registry) : registry.reindex.Indexed where
  mem_lookup_iff typeName id := by
    have hexcluded : registry.reindex.types.excluded = registry.types.excluded :=
      excluded_foldl_indexEntry _ _ _
    rw [lookup_reindex, Lists, hexcluded, List.mem_map]
    constructor
    · rintro ⟨⟨id, definition⟩, hmem, rfl⟩
      rw [List.mem_filter, decide_eq_true_eq] at hmem
      exact ⟨definition, Table.mem_entries_iff.mp hmem.1, hmem.2⟩
    · rintro ⟨definition, hfound, hlisted⟩
      exact ⟨(id, definition),
        List.mem_filter.mpr ⟨Table.mem_entries_iff.mpr hfound, decide_eq_true hlisted⟩, rfl⟩
  nodup typeName := by
    rw [lookup_reindex]
    exact (List.filter_sublist.map Prod.fst).nodup registry.definitions.distinct

theorem definition?_place (registry : Registry) (id name : String) (definition : Definition) :
    (registry.place id definition).definition? name =
      if name = id then some definition else registry.definition? name :=
  Table.get?_insert _ _ _ _

theorem Indexed.place {registry : Registry} (h : registry.Indexed) (id : String)
    (definition : Definition) : (registry.place id definition).Indexed := by
  have hlookup : ∀ typeName, (registry.place id definition).types.lookup typeName =
      (registry.types.lookup typeName).filter (· ≠ id) ++
        if definition.Declares registry.catalog typeName ∧
          registry.types.excluded.contains typeName = false then [id] else [] := by
    intro typeName
    unfold Registry.place indexTypes Definition.Declares
    by_cases hflag : definition.flags.autowired = true
    · rw [if_pos hflag, TypeIndex.lookup_register]
      simp only [hflag, true_and]
    · rw [if_neg hflag, TypeIndex.lookup_erase, if_neg fun h => hflag h.1.1, List.append_nil]
  have hexcluded : (registry.place id definition).types.excluded = registry.types.excluded := by
    unfold Registry.place indexTypes
    dsimp only
    split
    · exact TypeIndex.excluded_register _ _ _
    · rfl
  constructor
  · intro typeName name
    rw [hlookup, List.mem_append, List.mem_filter, h.mem_lookup_iff]
    unfold Lists
    rw [definition?_place, hexcluded]
    change _ ↔ ∃ found : Definition, _ ∧ found.Declares registry.catalog typeName ∧ _
    by_cases here : name = id
    · subst here
      simp
    · simp [here]
  · intro typeName
    rw [hlookup]
    refine List.nodup_append.mpr ⟨(h.nodup typeName).filter _, by split <;> simp, ?_⟩
    intro name hmem other hother
    split at hother
    · rw [List.mem_singleton] at hother
      simpa [hother] using (List.mem_filter.mp hmem).2
    · simp at hother

theorem Indexed.remove {registry : Registry} (h : registry.Indexed) (id : String) :
    (registry.remove id).Indexed where
  mem_lookup_iff typeName name := by
    have hfound : (registry.remove id).definition? name =
        if name = id then none else registry.definition? name := Table.get?_erase _ _ _
    have hlookup : (registry.remove id).types.lookup typeName =
        (registry.types.lookup typeName).filter (· ≠ id) := TypeIndex.lookup_erase _ _ _
    rw [hlookup, List.mem_filter, h.mem_lookup_iff]
    unfold Lists
    rw [hfound]
    change _ ↔ ∃ found : Definition, _ ∧ found.Declares registry.catalog typeName ∧
      registry.types.excluded.contains typeName = false
    by_cases here : name = id <;> simp [here]
  nodup typeName := by
    have hlookup : (registry.remove id).types.lookup typeName =
        (registry.types.lookup typeName).filter (· ≠ id) := TypeIndex.lookup_erase _ _ _
    rw [hlookup]
    exact (h.nodup typeName).filter _

theorem Indexed.exclude {registry : Registry} (h : registry.Indexed) (excluded : String) :
    (registry.exclude excluded).Indexed where
  mem_lookup_iff typeName name := by
    have hlookup : (registry.exclude excluded).types.lookup typeName =
        if typeName = excluded then [] else registry.types.lookup typeName :=
      TypeIndex.lookup_exclude _ _ _
    have hcontains : (registry.exclude excluded).types.excluded.contains typeName ↔
        typeName = excluded ∨ registry.types.excluded.contains typeName :=
      Dict.contains_insert _ _ _ _
    have hcontains' : (registry.exclude excluded).types.excluded.contains typeName = false ↔
        typeName ≠ excluded ∧ registry.types.excluded.contains typeName = false := by
      rw [← Bool.not_eq_true, hcontains, not_or, Bool.not_eq_true]
    rw [hlookup]
    unfold Lists
    rw [hcontains']
    change _ ↔ ∃ found : Definition, registry.definition? name = some found ∧
      found.Declares registry.catalog typeName ∧ _
    by_cases here : typeName = excluded
    · simp [here]
    · rw [if_neg here, h.mem_lookup_iff]
      simp [Lists, here]
  nodup typeName := by
    have hlookup : (registry.exclude excluded).types.lookup typeName =
        if typeName = excluded then [] else registry.types.lookup typeName :=
      TypeIndex.lookup_exclude _ _ _
    rw [hlookup]
    split
    · exact List.nodup_nil
    · exact h.nodup typeName

theorem Indexed.decorate {registry changed : Registry} (h : registry.Indexed) (id : String)
    (decorator : Decorator) (hchanged : registry.decorate id decorator = .ok changed) :
    changed.Indexed := by
  obtain ⟨definition, -, hold, rfl⟩ := decorate_eq_ok hchanged
  refine ⟨fun typeName name => ?_, h.nodup⟩
  rw [h.mem_lookup_iff]
  unfold Lists
  have hfound : ∀ name, { registry with
      definitions := registry.definitions.insert id (definition.decorate decorator) }.definition?
        name = if name = id then some (definition.decorate decorator)
          else registry.definition? name := fun name => Table.get?_insert _ _ _ _
  rw [hfound]
  by_cases here : name = id
  · subst here
    simp only [hold, Option.some.injEq, exists_eq_left', if_true]
    rfl
  · rw [if_neg here]

theorem closed_indexed : Closed Indexed where
  set {registry changed} id definition h hchanged := by
    obtain ⟨-, rfl⟩ := set_eq_ok hchanged
    have hdropped : Indexed { registry with aliases := registry.aliases.erase id } :=
      ⟨h.mem_lookup_iff, h.nodup⟩
    exact hdropped.place id _
  update id change h hchanged := by
    obtain ⟨definition, -, -, rfl⟩ := update_eq_ok hchanged
    exact h.place id _
  decorate id decorator h hchanged := h.decorate id decorator hchanged
  remove id h := h.remove id
  addAlias name target h hchanged := by
    obtain ⟨aliases, -, rfl⟩ := addAlias_eq_ok hchanged
    exact ⟨h.mem_lookup_iff, h.nodup⟩
  tag _ _ _ h := ⟨h.mem_lookup_iff, h.nodup⟩
  setParameter _ _ h := ⟨h.mem_lookup_iff, h.nodup⟩
  registerClass _ _ := indexed_reindex _
  exclude typeName h := h.exclude typeName
  freeze _ h := ⟨h.mem_lookup_iff, h.nodup⟩
  resetRuntimeState h := ⟨h.mem_lookup_iff, h.nodup⟩
  reindex _ := indexed_reindex _
  addProvider _ h := ⟨h.mem_lookup_iff, h.nodup⟩

/-- **The index is what the definitions say**, after any registrations. -/
theorem Reachable.indexed {registry : Registry} (reachable : registry.Reachable) :
    registry.Indexed := by
  refine reachable.induct closed_indexed ⟨fun typeName id => ?_, fun typeName => List.nodup_nil⟩
  constructor
  · intro hmem
    exact absurd hmem List.not_mem_nil
  · rintro ⟨definition, hfound, -⟩
    exact absurd hfound (by simp [definition?, Table.get?, EmptyCollection.emptyCollection])

end Registry

theorem selectCandidates_sublist (isPrivate : String → Bool) (ids : List String) :
    (selectCandidates isPrivate ids).Sublist ids := by
  unfold selectCandidates
  split
  · exact List.Sublist.refl _
  · exact List.filter_sublist

theorem selectCandidates_perm (isPrivate : String → Bool) {ids others : List String}
    (hperm : ids.Perm others) :
    (selectCandidates isPrivate ids).Perm (selectCandidates isPrivate others) := by
  unfold selectCandidates
  rw [hperm.length_eq]
  split
  · exact hperm
  · exact hperm.filter _

/-- A private one is selected alone or not at all. -/
theorem eq_singleton_of_selected {isPrivate : String → Bool} {ids : List String} {id : String}
    (hid : id ∈ selectCandidates isPrivate ids) (hprivate : isPrivate id = true) : ids = [id] := by
  rw [selectCandidates] at hid
  split at hid
  · next hshort =>
      obtain ⟨before, after, hids⟩ := List.append_of_mem hid
      rw [hids, List.length_append, List.length_cons] at hshort
      obtain rfl : before = [] := List.eq_nil_of_length_eq_zero (by omega)
      obtain rfl : after = [] := List.eq_nil_of_length_eq_zero (by omega)
      exact hids
  · have hpublic := (List.mem_filter.mp hid).2
    rw [hprivate] at hpublic
    cases hpublic

/-- The plan by which the registry is compiled. -/
abbrev Registry.plan (registry : Registry) (config : Config) : Plan :=
  .ofRegistry registry config.maxDepth

namespace Plan

variable (registry : Registry) (maxDepth : Nat)

theorem ids_ascending : (ofRegistry registry maxDepth).ids.Pairwise (· < ·) :=
  (Dict.ofList registry.definitions.entries).ascending

theorem ids_nodup : (ofRegistry registry maxDepth).ids.Nodup :=
  (ids_ascending registry maxDepth).imp fun hlt => ne_of_lt hlt

theorem mem_ids_iff {id : String} :
    id ∈ (ofRegistry registry maxDepth).ids ↔ registry.contains id := by
  refine (Dict.mem_keys_ofList registry.definitions.distinct).trans ?_
  exact Table.contains_iff.symm

theorem length_ids : (ofRegistry registry maxDepth).ids.length = registry.definitions.size := by
  have hperm : (ofRegistry registry maxDepth).ids.Perm registry.definitions.keys :=
    (List.perm_ext_iff_of_nodup (ids_nodup registry maxDepth) registry.definitions.distinct).mpr
      fun id => Dict.mem_keys_ofList registry.definitions.distinct
  exact hperm.length_eq.trans (List.length_map _)

theorem mem_ids_of_definition {id : String} {definition : Definition}
    (hfound : registry.definition? id = some definition) :
    id ∈ (ofRegistry registry maxDepth).ids := by
  rw [mem_ids_iff, Registry.contains, Table.contains, ← Registry.definition?, hfound]
  rfl

theorem lookup_types (typeName : String) :
    (ofRegistry registry maxDepth).types.lookup typeName =
      ((Dict.ofList registry.definitions.entries).entries.filter fun entry =>
        entry.2.Declares registry.catalog typeName ∧
          registry.types.excluded.contains typeName = false).map Prod.fst := by
  unfold ofRegistry
  dsimp only
  rw [Registry.lookup_foldl_indexEntry _ _ (Dict.ofList _).ascending.distinct _ _ (by simp),
    TypeIndex.lookup_clear, List.nil_append]
  rfl

theorem mem_lookup_types_iff {typeName id : String} :
    id ∈ (ofRegistry registry maxDepth).types.lookup typeName ↔ registry.Lists typeName id := by
  rw [lookup_types, List.mem_map]
  constructor
  · rintro ⟨⟨id, definition⟩, hmem, rfl⟩
    rw [List.mem_filter, decide_eq_true_eq, Dict.mem_entries_iff,
      Dict.get?_ofList registry.definitions.distinct] at hmem
    exact ⟨definition, hmem.1, hmem.2⟩
  · rintro ⟨definition, hfound, hlisted⟩
    refine ⟨(id, definition), List.mem_filter.mpr ⟨?_, decide_eq_true hlisted⟩, rfl⟩
    rw [Dict.mem_entries_iff, Dict.get?_ofList registry.definitions.distinct]
    exact hfound

theorem lookup_types_ascending (typeName : String) :
    ((ofRegistry registry maxDepth).types.lookup typeName).Pairwise (· < ·) := by
  rw [lookup_types]
  exact (Dict.ofList _).ascending.sublist (List.filter_sublist.map Prod.fst)

theorem contains_of_mem_candidates {typeName id : String}
    (hmem : id ∈ (ofRegistry registry maxDepth).candidates typeName) : registry.contains id := by
  have hlookup := (selectCandidates_sublist _ _).subset hmem
  obtain ⟨definition, hfound, -⟩ := (mem_lookup_types_iff registry maxDepth).mp hlookup
  exact (mem_ids_iff registry maxDepth).mp (mem_ids_of_definition registry maxDepth hfound)

/-- The index that a compilation builds lists what the registry's lists. -/
theorem lookup_types_perm (indexed : registry.Indexed) (typeName : String) :
    ((ofRegistry registry maxDepth).types.lookup typeName).Perm
      (registry.types.lookup typeName) := by
  have hnodup : ((ofRegistry registry maxDepth).types.lookup typeName).Nodup :=
    (lookup_types_ascending registry maxDepth typeName).imp fun hlt => ne_of_lt hlt
  apply (List.perm_ext_iff_of_nodup hnodup (indexed.nodup typeName)).mpr
  intro id
  rw [mem_lookup_types_iff, indexed.mem_lookup_iff]

/-- The plan selects the services that the registry selects, in an order of its own. -/
theorem candidates_perm (indexed : registry.Indexed) (typeName : String) :
    ((ofRegistry registry maxDepth).candidates typeName).Perm (registry.candidates typeName) :=
  selectCandidates_perm registry.isHidden (lookup_types_perm registry maxDepth indexed typeName)

/-- Where the registry's own candidates ascend, the plan selects the same ones. -/
theorem candidates_eq (indexed : registry.Indexed) (typeName : String)
    (ascending : (registry.candidates typeName).Pairwise (· < ·)) :
    (ofRegistry registry maxDepth).candidates typeName = registry.candidates typeName := by
  have hselected : ((ofRegistry registry maxDepth).candidates typeName).Pairwise (· < ·) :=
    (lookup_types_ascending registry maxDepth typeName).sublist (selectCandidates_sublist _ _)
  apply eq_of_ascending_of_mem_iff hselected ascending
  intro id
  exact (candidates_perm registry maxDepth indexed typeName).mem_iff

theorem position_of_link {plan : Plan} {id : String} {found : Link}
    (hlink : plan.link id = .ok found) :
    found.id = id ∧ plan.ids[found.position]? = some id := by
  unfold link at hlink
  split at hlink
  · next position hposition =>
      obtain rfl : { id, position } = found := by simpa using hlink
      obtain ⟨hlt, heq, -⟩ := List.idxOf?_eq_some_iff.mp hposition
      exact ⟨rfl, by rw [List.getElem?_eq_getElem hlt, heq]⟩
  · simp at hlink

theorem link_isOk_of_mem {plan : Plan} {id : String} (hmem : id ∈ plan.ids) :
    ∃ position, plan.link id = .ok ⟨id, position⟩ := by
  unfold link
  cases hposition : plan.ids.idxOf? id with
  | none => exact absurd hmem (List.idxOf?_eq_none_iff.mp hposition)
  | some position => exact ⟨position, rfl⟩

theorem contains_of_target {name id : String}
    (htarget : (ofRegistry registry maxDepth).target name = .ok id) : registry.contains id := by
  unfold target at htarget
  dsimp only at htarget
  split at htarget
  · next hcontains =>
      obtain rfl : _ = id := by simpa using htarget
      exact hcontains
  · split at htarget
    · simp at htarget
    · next only honly =>
        obtain rfl : only = id := by simpa using htarget
        exact contains_of_mem_candidates registry maxDepth (honly ▸ List.mem_singleton_self _)
    · simp at htarget

end Plan
end Wiring
