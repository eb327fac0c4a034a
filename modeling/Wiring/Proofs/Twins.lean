import Wiring.Proofs.Exports
import Wiring.Proofs.Matching

/-!
# Twins

An interpreter of a registry and a machine of the registry's program are twins while they hold the
same services. They answer every question alike, and they remain twins when the same is done to both.
-/

namespace Wiring

/-- What the program of a registry takes for granted: no alias is named like a definition or leads
to a private one, everything is kept in ascending order, and callees are called by their own ids. -/
structure Registry.Orderly (registry : Registry) : Prop where
  free : ∀ id, registry.contains id → registry.aliases.target? id = none
  exposed : ∀ name, registry.aliases.contains name →
    registry.isHidden (registry.resolveAlias name) = false
  definitions : registry.definitions.keys.Pairwise (· < ·)
  tags : registry.tags.keys.Pairwise (· < ·)
  candidates : ∀ typeName, (registry.candidates typeName).Pairwise (· < ·)
  callees : ∀ {id : String} {definition : Definition}, registry.definition? id = some definition →
    ∀ name, .callee name ∈ definition.demands registry.candidates → registry.contains name

/-- The cache that a machine keeps a service in. -/
def Registry.cacheFor (registry : Registry) (id : String) : CacheTable :=
  if registry.isHidden id then .privates else .services

/-- A machine's two caches are the interpreter's one, parted by what is private. -/
structure Registry.Twins (registry : Registry) (program : Program) (interpreter : Interpreter)
    (machine : Machine) : Prop where
  registry_eq : ∃ frozen tags, interpreter.registry = { registry with frozen, tags }
  program_eq : machine.program = program
  catalog : machine.catalog = registry.catalog
  maxDepth : interpreter.config.maxDepth = machine.maxDepth
  handler : interpreter.handler = machine.handler
  loading : interpreter.loading = machine.loading
  cached : ∀ table id, (machine.table table).get? id =
    if table = registry.cacheFor id then interpreter.services.get? id else none
  tags : ∀ tag, interpreter.registry.tagged tag = machine.tagged tag

def Container.Twins (registry : Registry) (program : Program) (a b : Container) : Prop :=
  ∃ interpreter machine, a = .interpreting interpreter ∧ b = .running machine ∧
    registry.Twins program interpreter machine

/-- A compiled registry that answers like its program, with user code that does not reset. -/
structure Registry.Mirrored (registry : Registry) (config : Config) (program : Program) : Prop where
  compiled : registry.Compiled config program
  orderly : registry.Orderly
  unambiguous : Interpreter.Unambiguous registry config.maxDepth
  catalog : registry.catalog.ResetFree
  decorators : ∀ {id : String} {definition : Definition},
    registry.definition? id = some definition →
      ∀ decorator ∈ definition.decorators, ∀ c service, (decorator.apply c service).ResetFree

theorem Registry.Mirrored.ofReachable {registry : Registry} (reachable : registry.Reachable)
    {config : Config} {program : Program} (hcompile : registry.compile config = .ok program)
    (orderly : registry.Orderly) {code : Array Code} (hfree : registry.ResetFree code) :
    registry.Mirrored config program :=
  ⟨compiled_of_compile hcompile, orderly, .ofReachable reachable orderly.free orderly.candidates,
    hfree.catalog, hfree.decorators⟩

/-- A registry tells of a name what another does. -/
structure Registry.Reads (reading registry : Registry) (name : String) : Prop where
  canonical : reading.resolveAlias name = registry.resolveAlias name
  definition? : reading.definition? (registry.resolveAlias name) =
    registry.definition? (registry.resolveAlias name)
  candidates : reading.candidates (registry.resolveAlias name) =
    registry.candidates (registry.resolveAlias name)

theorem Compiling.cacheOf_factory {flags : Flags} (hfactory : flags.factory = true) :
    cacheOf flags = none := by
  rw [cacheOf, if_pos hfactory]

theorem Compiling.cacheOf_kept {flags : Flags} (hfactory : flags.factory = false) :
    cacheOf flags = some (if flags.hidden then .privates else .services) := by
  rw [cacheOf, hfactory]
  cases flags.hidden with
  | true => rfl
  | false => rfl

namespace Registry.Twins

variable {registry : Registry} {config : Config} {program : Program} {interpreter : Interpreter}
  {machine : Machine}

theorem reads (twins : registry.Twins program interpreter machine) (name : String) :
    interpreter.registry.Reads registry name := by
  obtain ⟨frozen, tags, hregistry⟩ := twins.registry_eq
  rw [hregistry]
  exact ⟨rfl, rfl, rfl⟩

section Questions

variable (mirrored : registry.Mirrored config program)
  (twins : registry.Twins program interpreter machine)

include mirrored twins

theorem canonical (name : String) : machine.canonical name = registry.resolveAlias name := by
  rw [Machine.canonical, twins.program_eq]
  exact mirrored.compiled.canonical_eq mirrored.orderly.exposed name

theorem candidates (typeName : String) :
    machine.candidates typeName = registry.candidates typeName := by
  rw [Machine.candidates, twins.program_eq, mirrored.compiled.candidates_eq,
    mirrored.unambiguous.candidates]

theorem has (name : String) : interpreter.registry.has name = machine.has name := by
  obtain ⟨frozen, tags, hregistry⟩ := twins.registry_eq
  have hread : interpreter.registry.has name = registry.has name := by
    rw [hregistry]
    rfl
  rw [hread, Registry.has, Machine.has, twins.canonical mirrored, twins.candidates mirrored,
    twins.program_eq, mirrored.compiled.routine?_eq, mirrored.compiled.contains_methods]
  cases hfound : registry.definition? (registry.resolveAlias name) with
  | some definition =>
      have hcontains := contains_of_definition hfound
      rw [if_pos hcontains, hcontains, isHidden_of_definition hfound]
      rfl
  | none =>
      have habsent : ¬ registry.contains (registry.resolveAlias name) :=
        Option.not_isSome_iff_eq_none.mpr hfound
      rw [if_neg habsent]

theorem keys : interpreter.registry.keys = machine.keys := by
  obtain ⟨frozen, tags, hregistry⟩ := twins.registry_eq
  rw [Machine.keys, twins.program_eq, mirrored.compiled.keys_eq mirrored.orderly.definitions,
    hregistry]
  rfl

theorem parameter (name : String) :
    interpreter.registry.parameter name = machine.parameter name := by
  obtain ⟨frozen, tags, hregistry⟩ := twins.registry_eq
  have hread : interpreter.registry.parameter name = registry.parameter name := by
    rw [hregistry]
    rfl
  have hsame : machine.program.parameters = registry.parameters := by
    rw [twins.program_eq]
    exact mirrored.compiled.parameters_eq
  rw [hread]
  cases hvalue : registry.parameters.get? name with
  | none => simp only [Registry.parameter, Machine.parameter, hsame, hvalue]
  | some value => simp only [Registry.parameter, Machine.parameter, hsame, hvalue]

theorem initialized (name : String) :
    interpreter.initialized name = machine.initialized name := by
  obtain ⟨frozen, tags, hregistry⟩ := twins.registry_eq
  have hread : interpreter.registry.resolveAlias name = registry.resolveAlias name := by
    rw [hregistry]
    rfl
  have hservices : ∀ id, machine.services.get? id =
      if CacheTable.services = registry.cacheFor id then interpreter.services.get? id else none :=
    twins.cached .services
  have hprivates : ∀ id, machine.privates.get? id =
      if CacheTable.privates = registry.cacheFor id then interpreter.services.get? id else none :=
    twins.cached .privates
  rw [Interpreter.initialized, Machine.initialized, hread, twins.canonical mirrored,
    Table.contains, Dict.contains, Dict.contains, hservices, hprivates]
  cases registry.cacheFor (registry.resolveAlias name) with
  | services => simp
  | privates => simp

end Questions

/-! ### What keeps twins twins -/

variable (twins : registry.Twins program interpreter machine)

include twins

theorem setLoading (chain : List String) :
    registry.Twins program { interpreter with loading := chain } { machine with loading := chain } :=
  { twins with loading := rfl }

theorem clearCache : registry.Twins program { interpreter with services := ∅ }
    { machine with services := ∅, privates := ∅ } :=
  { twins with
    cached := fun table id => by cases table <;> exact (ite_self none).symm }

theorem clearRuntimeState :
    registry.Twins program { interpreter with registry := interpreter.registry.resetRuntimeState }
      { machine with tags := ∅ } :=
  { twins with
    registry_eq := by
      obtain ⟨frozen, tags, hregistry⟩ := twins.registry_eq
      refine ⟨∅, ∅, ?_⟩
      rw [hregistry]
      rfl
    tags := fun tag => rfl }

/-- A new service goes into the cache that is meant for it. -/
theorem cache {id : String} {definition : Definition}
    (hfound : registry.definition? id = some definition) {table : CacheTable}
    (htable : Compiling.cacheOf definition.flags = some table) (service : Value) :
    registry.Twins program (interpreter.cache id service) (machine.cache table id service) := by
  have hmeant : table = registry.cacheFor id := by
    rw [Registry.cacheFor, isHidden_of_definition hfound]
    cases hfactory : definition.flags.factory with
    | true =>
        rw [Compiling.cacheOf_factory hfactory] at htable
        cases htable
    | false =>
        rw [Compiling.cacheOf_kept hfactory] at htable
        exact (Option.some.inj htable).symm
  have hservices : ∀ other, (interpreter.cache id service).services.get? other =
      if other = id then some service else interpreter.services.get? other :=
    fun other => Table.get?_insert _ id other service
  have hregistry : ∃ frozen tags,
      (interpreter.cache id service).registry = { registry with frozen, tags } := by
    obtain ⟨frozen, tags, hregistry⟩ := twins.registry_eq
    refine ⟨frozen.add id, tags, ?_⟩
    rw [Interpreter.cache, hregistry]
    rfl
  have hcached : ∀ held other, ((machine.cache table id service).table held).get? other =
      if held = registry.cacheFor other then (interpreter.cache id service).services.get? other
      else none := by
    intro held other
    rw [Machine.get?_cache, twins.cached, hservices]
    by_cases here : other = id
    · rw [here, ← hmeant]
      by_cases hheld : held = table
      · rw [if_pos ⟨hheld, rfl⟩, if_pos hheld, if_pos rfl]
      · rw [if_neg (fun h => hheld h.1), if_neg hheld, if_neg hheld]
    · rw [if_neg (fun h => here h.2), if_neg here]
  have hothers : ∃ services privates,
      machine.cache table id service = { machine with services, privates } := by
    cases table with
    | services => exact ⟨_, _, rfl⟩
    | privates => exact ⟨_, _, rfl⟩
  obtain ⟨services, privates, hmachine⟩ := hothers
  rw [hmachine] at hcached ⊢
  exact { twins with registry_eq := hregistry, cached := hcached }

theorem cached? {id : String} {definition : Definition}
    (hfound : registry.definition? id = some definition) (plan : Plan) :
    machine.cached? (definition.linked plan id) =
      if definition.flags.factory then none else interpreter.services.get? id := by
  change (Compiling.cacheOf definition.flags).bind (fun table => (machine.table table).get? id) = _
  cases hfactory : definition.flags.factory with
  | true =>
      rw [Compiling.cacheOf_factory hfactory]
      rfl
  | false =>
      rw [Compiling.cacheOf_kept hfactory, Option.bind_some, twins.cached, Registry.cacheFor,
        isHidden_of_definition hfound, if_pos rfl]
      rfl

/-- Both hold the same services, each in its own order. -/
theorem cached_perm :
    (Container.cached (.interpreting interpreter)).Perm (Container.cached (.running machine)) := by
  have hmem : ∀ table {id : String} {service : Value},
      (id, service) ∈ (machine.table table).entries ↔
        table = registry.cacheFor id ∧ interpreter.services.get? id = some service := by
    intro table id service
    rw [Dict.mem_entries_iff, twins.cached]
    by_cases htable : table = registry.cacheFor id
    · rw [if_pos htable, and_iff_right htable]
    · simp [htable]
  have hservices : ∀ {id : String} {service : Value}, (id, service) ∈ machine.services.entries ↔
      .services = registry.cacheFor id ∧ interpreter.services.get? id = some service :=
    hmem .services
  have hprivates : ∀ {id : String} {service : Value}, (id, service) ∈ machine.privates.entries ↔
      .privates = registry.cacheFor id ∧ interpreter.services.get? id = some service :=
    hmem .privates
  apply List.Perm.map Prod.snd
  refine (List.perm_ext_iff_of_nodup interpreter.services.distinct.of_map ?_).mpr ?_
  · refine List.nodup_append.mpr ⟨machine.services.ascending.distinct.of_map,
      machine.privates.ascending.distinct.of_map, ?_⟩
    rintro ⟨id, service⟩ hshown ⟨other, service'⟩ hhidden hsame
    obtain ⟨rfl, rfl⟩ := Prod.mk.inj hsame
    rw [hservices] at hshown
    rw [hprivates, ← hshown.1] at hhidden
    exact CacheTable.noConfusion hhidden.1
  · rintro ⟨id, service⟩
    rw [List.mem_append, hservices, hprivates, Table.mem_entries_iff, ← or_and_right]
    cases registry.cacheFor id <;> simp

end Registry.Twins

namespace Container

variable {registry : Registry} {config : Config} {program : Program}

theorem congruent_twins (mirrored : registry.Mirrored config program) :
    Congruent (Twins registry program) where
  has := by
    rintro _ _ ⟨interpreter, machine, rfl, rfl, twins⟩ name
    exact twins.has mirrored name
  keys := by
    rintro _ _ ⟨interpreter, machine, rfl, rfl, twins⟩
    exact twins.keys mirrored
  parameter := by
    rintro _ _ ⟨interpreter, machine, rfl, rfl, twins⟩ name
    exact twins.parameter mirrored name
  tagged := by
    rintro _ _ ⟨interpreter, machine, rfl, rfl, twins⟩ tag
    exact twins.tags tag
  initialized := by
    rintro _ _ ⟨interpreter, machine, rfl, rfl, twins⟩ name
    exact twins.initialized mirrored name
  catalog := by
    rintro _ _ ⟨interpreter, machine, rfl, rfl, twins⟩
    obtain ⟨frozen, tags, hregistry⟩ := twins.registry_eq
    rw [catalog, catalog, twins.catalog, hregistry]
  maxDepth := by
    rintro _ _ ⟨interpreter, machine, rfl, rfl, twins⟩
    exact twins.maxDepth
  handler := by
    rintro _ _ ⟨interpreter, machine, rfl, rfl, twins⟩
    exact twins.handler
  loading := by
    rintro _ _ ⟨interpreter, machine, rfl, rfl, twins⟩
    exact twins.loading
  setLoading := by
    rintro _ _ ⟨interpreter, machine, rfl, rfl, twins⟩ chain
    exact ⟨_, _, rfl, rfl, twins.setLoading chain⟩
  clearCache := by
    rintro _ _ ⟨interpreter, machine, rfl, rfl, twins⟩
    exact ⟨_, _, rfl, rfl, twins.clearCache⟩
  clearRuntimeState := by
    rintro _ _ ⟨interpreter, machine, rfl, rfl, twins⟩
    exact ⟨_, _, rfl, rfl, twins.clearRuntimeState⟩

/-- A new interpreter and a newly loaded machine are twins. -/
theorem twins_fresh (mirrored : registry.Mirrored config program) (handler : NoticeHandler) :
    Twins registry program (.interpreting (.ofRegistry registry config handler))
      (.running (.load program registry.catalog config.maxDepth handler)) := by
  refine ⟨_, _, rfl, rfl, ?_⟩
  exact {
    registry_eq := ⟨registry.frozen, registry.tags, rfl⟩
    program_eq := rfl
    catalog := rfl
    maxDepth := rfl
    handler := rfl
    loading := rfl
    cached := fun table id => by cases table <;> exact (ite_self none).symm
    tags := fun tag => (mirrored.compiled.tagged_eq mirrored.orderly.tags tag).symm }

end Container
end Wiring
