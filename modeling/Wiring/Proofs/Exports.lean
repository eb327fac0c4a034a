import Wiring.Proofs.Names
import Wiring.Proofs.Programs

/-!
# What a program exports

A program answers questions in place of the registry that it was compiled from: where names lead,
what the public may ask for, which services stand for a type and which carry a tag.
-/

namespace Wiring

theorem AliasTable.get?_flatten (table : AliasTable) (name : String) :
    table.flatten.get? name = if table.contains name then some (table.resolve name) else none := by
  have hentries : (table.aliases.map fun name => (name, table.resolve name)) =
      table.targets.entries.map fun entry => (entry.1, table.resolve entry.1) := by
    rw [aliases, Table.keys, Entries.keys, List.map_map]
    rfl
  have hdistinct : Entries.Distinct (table.aliases.map fun name => (name, table.resolve name)) := by
    rw [hentries, Entries.Distinct, Entries.keys_map]
    exact table.targets.distinct
  rw [flatten, Dict.get?_ofList hdistinct, hentries,
    Entries.lookup_map (fun name _ => table.resolve name), contains, Table.contains, Table.get?]
  cases List.lookup name table.targets.entries with
  | none => rfl
  | some target => rfl

theorem AliasTable.resolve_of_not_contains {table : AliasTable} {name : String}
    (habsent : table.contains name = false) : table.resolve name = name :=
  resolve_of_free (Option.not_isSome_iff_eq_none.mp (Bool.not_eq_true _ ▸ habsent))

/-! ### Tags -/

namespace Program

/-- The attributes with which the table lists a service under a tag. -/
def attributes? (table : Dict (Dict Value)) (tag id : String) : Option Value :=
  ((table.get? tag).getD ∅).get? id

theorem attributes?_insert (table : Dict (Dict Value)) (first tag id other : String)
    (value : Value) :
    attributes? (table.insert first (((table.get? first).getD ∅).insert id value)) tag other =
      if tag = first ∧ other = id then some value else attributes? table tag other := by
  unfold attributes?
  rw [Dict.get?_insert]
  by_cases here : tag = first
  · subst here
    rw [if_pos rfl, Option.getD_some, Dict.get?_insert]
    simp only [true_and]
  · rw [if_neg here, if_neg fun h => here h.1]

theorem attributes?_service {entries : List (String × Value)} (distinct : Entries.Distinct entries)
    (table : Dict (Dict Value)) (tag id other : String) :
    attributes? (entries.foldl (fun (table : Dict (Dict Value)) entry =>
        table.insert entry.1 (((table.get? entry.1).getD ∅).insert id entry.2)) table) tag other =
      if other = id then (entries.lookup tag).or (attributes? table tag other)
      else attributes? table tag other := by
  induction entries generalizing table with
  | nil => simp
  | cons entry rest ih =>
      simp only [Entries.Distinct, Entries.keys_cons, List.nodup_cons] at distinct
      rw [List.foldl_cons, ih distinct.2, attributes?_insert, Entries.lookup_cons]
      by_cases here : other = id
      · by_cases same : tag = entry.1
        · subst same
          rw [Entries.lookup_eq_none_of_not_mem_keys distinct.1]
          simp [here]
        · simp [here, same]
      · simp [here]

theorem attributes?_services {entries : List (String × Table Value)}
    (distinct : Entries.Distinct entries) (table : Dict (Dict Value)) (tag other : String) :
    attributes? (entries.foldl (fun table service =>
        service.2.entries.foldl (fun (table : Dict (Dict Value)) entry =>
          table.insert entry.1 (((table.get? entry.1).getD ∅).insert service.1 entry.2)) table)
          table) tag other =
      ((entries.lookup other).bind (·.get? tag)).or (attributes? table tag other) := by
  induction entries generalizing table with
  | nil => simp
  | cons service rest ih =>
      simp only [Entries.Distinct, Entries.keys_cons, List.nodup_cons] at distinct
      rw [List.foldl_cons, ih distinct.2, attributes?_service service.2.distinct,
        Entries.lookup_cons]
      by_cases here : other = service.1
      · subst here
        rw [Entries.lookup_eq_none_of_not_mem_keys distinct.1, if_pos rfl, if_pos rfl]
        rfl
      · rw [if_neg here, if_neg here]

theorem keys_tagged_sublist (tags : Table (Table Value)) (tag : String) :
    (Entries.keys (tags.entries.filterMap fun entry =>
      (entry.2.get? tag).map (entry.1, ·))).Sublist tags.keys := by
  refine Entries.keys_filterMap_sublist _ ?_ tags.entries
  rintro entry kept hkept
  obtain ⟨value, -, rfl⟩ := Option.map_eq_some_iff.mp hkept
  rfl

theorem lookup_tagTable (tags : Table (Table Value)) (tag id : String) :
    (((tagTable tags).get? tag).getD ∅).entries.lookup id =
      (tags.entries.filterMap fun entry => (entry.2.get? tag).map (entry.1, ·)).lookup id := by
  have hlisted := attributes?_services tags.distinct ∅ tag id
  have hempty : attributes? ∅ tag id = none := rfl
  rw [hempty, Option.or_none] at hlisted
  rw [Entries.lookup_filterMap tags.distinct fun _ held => held.get? tag]
  exact hlisted

/-- Under each tag the services that carry it, with their attributes. -/
theorem entries_tagTable_perm (tags : Table (Table Value)) (tag : String) :
    (((tagTable tags).get? tag).getD ∅).entries.Perm
      (tags.entries.filterMap fun entry => (entry.2.get? tag).map (entry.1, ·)) :=
  (Dict.ascending _).distinct.perm_of_lookup ((keys_tagged_sublist tags tag).nodup tags.distinct)
    (lookup_tagTable tags tag)

/-- They are told in ascending order. -/
theorem entries_tagTable (tags : Table (Table Value)) (ascending : tags.keys.Pairwise (· < ·))
    (tag : String) :
    (((tagTable tags).get? tag).getD ∅).entries =
      tags.entries.filterMap fun entry => (entry.2.get? tag).map (entry.1, ·) :=
  (Dict.ascending _).eq_of_lookup (ascending.sublist (keys_tagged_sublist tags tag))
    (lookup_tagTable tags tag)

end Program

namespace Registry

variable {registry : Registry} {config : Config} {program : Program}

theorem contains_of_definition {id : String} {definition : Definition}
    (hfound : registry.definition? id = some definition) : registry.contains id :=
  Option.isSome_of_eq_some hfound

theorem isHidden_of_definition {id : String} {definition : Definition}
    (hfound : registry.definition? id = some definition) :
    registry.isHidden id = definition.flags.hidden := by
  rw [isHidden, hfound]
  rfl

theorem id_linked {id : String} (hcontains : registry.contains id) :
    (registry.linked config id).id = id := by
  obtain ⟨definition, hfound⟩ := Option.isSome_iff_exists.mp hcontains
  rw [linked_eq hfound]
  rfl

theorem visibility_linked {id : String} (hcontains : registry.contains id) :
    (registry.linked config id).visibility = .exposed ↔ registry.isHidden id = false := by
  obtain ⟨definition, hfound⟩ := Option.isSome_iff_exists.mp hcontains
  rw [linked_eq hfound, isHidden_of_definition hfound, Definition.linked]
  cases definition.flags.hidden <;> simp

namespace Compiled

variable (compiled : registry.Compiled config program)

include compiled

/-- An alias is exported unless it leads to something private. -/
theorem get?_aliases (name : String) :
    program.aliases.get? name =
      if registry.aliases.contains name ∧ registry.isHidden (registry.resolveAlias name) = false
      then some (registry.resolveAlias name) else none := by
  have haliases : program.aliases =
      registry.aliases.flatten.filter fun _ target => !registry.isHidden target := by
    rw [compiled.program_eq]
    rfl
  rw [haliases, Dict.get?_filter, AliasTable.get?_flatten, resolveAlias]
  cases registry.aliases.contains name with
  | true => cases hhidden : registry.isHidden (registry.aliases.resolve name) <;>
      simp [Option.filter, hhidden]
  | false => simp

/-- Exported aliases lead where the registry's own do. -/
theorem canonical_of_exposed {name : String}
    (exposed : registry.aliases.contains name →
      registry.isHidden (registry.resolveAlias name) = false) :
    (program.aliases.get? name).getD name = registry.resolveAlias name := by
  rw [compiled.get?_aliases]
  cases hcontains : registry.aliases.contains name with
  | true => simp [exposed hcontains]
  | false => simp [resolveAlias, AliasTable.resolve_of_not_contains hcontains]

theorem canonical_of_hidden {name : String}
    (hhidden : registry.isHidden (registry.resolveAlias name) = true) :
    (program.aliases.get? name).getD name = name := by
  rw [compiled.get?_aliases, hhidden]
  simp

/-- Exported aliases lead where the registry's own do, unless it is to something private. -/
theorem canonical_eq
    (exposed : ∀ name, registry.aliases.contains name →
      registry.isHidden (registry.resolveAlias name) = false) (name : String) :
    (program.aliases.get? name).getD name = registry.resolveAlias name :=
  compiled.canonical_of_exposed (exposed name)

theorem routine?_eq (id : String) :
    program.routine? id = if registry.contains id then some (registry.linked config id) else none := by
  have hids : ∀ ids : List String, (∀ other ∈ ids, registry.contains other) →
      (ids.map (registry.linked config)).find? (·.id = id) =
        if id ∈ ids then some (registry.linked config id) else none := by
    intro ids hall
    induction ids with
    | nil => rfl
    | cons first rest ih =>
        have hfirst : (registry.linked config first).id = first :=
          id_linked (hall first List.mem_cons_self)
        rw [List.map_cons, List.find?_cons, hfirst,
          ih fun other hother => hall other (List.mem_cons_of_mem _ hother)]
        by_cases here : first = id
        · simp [here]
        · simp [here, Ne.symm here]
  rw [Program.routine?, compiled.routines_eq, hids _ fun other hother =>
    (Plan.mem_ids_iff registry config.maxDepth).mp hother]
  simp only [Plan.mem_ids_iff]

/-- A routine is that of a definition. -/
theorem definition_of_mem {routine : Routine} (hroutine : routine ∈ program.routines) :
    ∃ definition, registry.definition? routine.id = some definition ∧
      routine = definition.linked (registry.plan config) routine.id := by
  rw [compiled.routines_eq] at hroutine
  obtain ⟨id, hid, rfl⟩ := List.mem_map.mp hroutine
  have hcontains := (Plan.mem_ids_iff registry config.maxDepth).mp hid
  obtain ⟨definition, hfound⟩ := Option.isSome_iff_exists.mp hcontains
  rw [id_linked hcontains]
  exact ⟨definition, hfound, linked_eq hfound config⟩

/-- A routine is the one of its id. -/
theorem routine?_of_mem {routine : Routine} (hroutine : routine ∈ program.routines) :
    program.routine? routine.id = some routine := by
  obtain ⟨definition, hfound, hlinked⟩ := compiled.definition_of_mem hroutine
  rw [compiled.routine?_eq, if_pos (contains_of_definition hfound), linked_eq hfound, ← hlinked]

theorem ids_eq : program.routines.map (·.id) = (registry.plan config).ids := by
  rw [compiled.routines_eq, List.map_map]
  refine (List.map_congr_left fun id hid => ?_).trans (List.map_id _)
  exact id_linked ((Plan.mem_ids_iff registry config.maxDepth).mp hid)

theorem ascending : (program.routines.map (·.id)).Pairwise (· < ·) := by
  rw [compiled.ids_eq]
  exact Plan.ids_ascending registry config.maxDepth

/-- The methods stand in the order of the routines. -/
theorem entries_methods : program.methods.entries =
    (program.routines.filter (·.visibility = .exposed)).map fun routine =>
      (routine.id, routine.method) := by
  have hmethods : program.methods = .ofList ((program.routines.filter (·.visibility = .exposed)).map
      fun routine => (routine.id, routine.method)) := by
    rw [compiled.program_eq]
    rfl
  rw [hmethods, Dict.entries_ofList]
  rw [Entries.Ascending, Entries.keys, List.map_map]
  exact compiled.ascending.sublist (List.filter_sublist.map _)

theorem keys_methods : program.methods.keys =
    (registry.plan config).ids.filter fun id => !registry.isHidden id := by
  have hcontains : ∀ id ∈ (registry.plan config).ids, registry.contains id := fun id hid =>
    (Plan.mem_ids_iff registry config.maxDepth).mp hid
  have hshown : ∀ id ∈ (registry.plan config).ids,
      decide ((registry.linked config id).visibility = .exposed) = !registry.isHidden id := by
    intro id hid
    rw [Bool.eq_iff_iff, decide_eq_true_iff, visibility_linked (hcontains id hid), Bool.not_eq_true']
  rw [Dict.keys, compiled.entries_methods, Entries.keys, List.map_map, compiled.routines_eq,
    List.filter_map, List.map_map]
  refine (congrArg _ (List.filter_congr hshown)).trans ?_
  refine (List.map_congr_left fun id hid => ?_).trans (List.map_id _)
  exact id_linked (hcontains id (List.mem_of_mem_filter hid))

theorem contains_methods (id : String) :
    program.methods.contains id = (registry.contains id && !registry.isHidden id) := by
  rw [Bool.eq_iff_iff, Dict.contains_iff, compiled.keys_methods, List.mem_filter, Plan.mem_ids_iff,
    Bool.and_eq_true]

/-- A type that nothing stands for is not listed. -/
theorem get?_types (typeName : String) :
    program.types.get? typeName =
      (some ((registry.plan config).candidates typeName)).filter fun ids => !ids.isEmpty := by
  have htypes : program.types = .ofList (((registry.plan config).types.entries.map fun entry =>
      (entry.1, selectCandidates registry.isHidden entry.2)).filter fun entry =>
        !entry.2.isEmpty) := by
    rw [compiled.program_eq]
    rfl
  have hdistinct : Entries.Distinct ((registry.plan config).types.entries.map fun entry =>
      (entry.1, selectCandidates registry.isHidden entry.2)) := by
    rw [Entries.Distinct, Entries.keys_map]
    exact (registry.plan config).types.types.distinct
  have hkept : Entries.Distinct (((registry.plan config).types.entries.map fun entry =>
      (entry.1, selectCandidates registry.isHidden entry.2)).filter fun entry =>
        !entry.2.isEmpty) :=
    (List.filter_sublist.map Prod.fst).nodup hdistinct
  rw [htypes, Dict.get?_ofList hkept, Entries.lookup_filter hdistinct fun _ ids => !ids.isEmpty,
    Entries.lookup_map fun _ ids => selectCandidates registry.isHidden ids]
  change _ = Option.filter _ (some (selectCandidates registry.isHidden
    (((registry.plan config).types.entries.lookup typeName).getD [])))
  cases List.lookup typeName (registry.plan config).types.entries with
  | none => rfl
  | some ids => rfl

theorem candidates_eq (typeName : String) :
    (program.types.get? typeName).getD [] = (registry.plan config).candidates typeName := by
  rw [compiled.get?_types]
  cases (registry.plan config).candidates typeName with
  | nil => rfl
  | cons first rest => rfl

theorem tagged_eq (ascending : registry.tags.keys.Pairwise (· < ·)) (tag : String) :
    ((program.tags.get? tag).getD ∅).entries = registry.tagged tag := by
  have htags : program.tags = Program.tagTable registry.tags := by
    rw [compiled.program_eq]
    rfl
  rw [htags, Program.entries_tagTable registry.tags ascending, tagged]

/-- Where definitions are kept in ascending order, the public ids are told in the same order. -/
theorem keys_eq (ascending : registry.definitions.keys.Pairwise (· < ·)) :
    program.methods.keys = registry.keys := by
  have hids : (registry.plan config).ids = registry.definitions.keys := by
    change (Dict.ofList registry.definitions.entries).keys = _
    rw [Dict.keys, Dict.entries_ofList ascending]
    rfl
  rw [compiled.keys_methods, hids, keys]

end Compiled

end Registry
end Wiring
