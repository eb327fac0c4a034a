import Wiring.Proofs.Links
import Wiring.Proofs.Sharing

/-!
# Where calls lead

A call that follows a name fails at once or obtains the service of one definition, perhaps after a type
was looked up on the way. Which of these it is depends on what the container was made of, and on nothing
that changes while services are made.
-/

namespace Wiring

/-- The definition that a name stands for, directly or as the sole service of a type. -/
def Lookup.aim : Lookup → Option String
  | .definition id => some id
  | .services _ [only] => some only
  | _ => none

namespace Container

/-- Names lead to definitions, and the id of a definition leads to itself. -/
structure Orderly (container : Container) : Prop where
  defined : ∀ {isPublic : Bool} {name id : String},
    container.lookup isPublic name = .definition id → container.defines id
  sole : ∀ {isPublic : Bool} {name typeName only : String},
    container.lookup isPublic name = .services typeName [only] →
      container.lookup false only = .definition only
  routine : ∀ {position : Nat} {id : String},
    container.routineId? position = some id → container.defines id

/-- The definition whose service a call is for. -/
def aim (container : Container) : Call → Option String
  | .get _ name _ => (container.lookup true name).aim
  | .resolve _ name _ => (container.lookup false name).aim
  | .routine _ position => container.routineId? position
  | _ => none

end Container

namespace Call

/-- Calls that follow a name, with no special options. -/
inductive Names (home : ContainerRef) : Call → Prop
  | locate (isPublic : Bool) (name : String) : Names home (.locate isPublic home name {})
  | routine (position : Nat) : Names home (.routine home position)

/-- What a call does in every state of the container. -/
inductive Course (container : Container) (home : ContainerRef) (call : Call) : Prop
  | fails (error : Error) (haim : container.aim call = none)
      (hrun : ∀ {world : World} {a : Container}, world.container? home = some a →
        a.bare = container.bare → ∀ depth,
          run (depth + 1) call world = (.error (.error error), world))
  | obtains {id : String} (delay : Nat) (hdelay : delay ≤ 1)
      (haim : container.aim call = some id) (hdefined : container.defines id)
      (hrun : ∀ {world : World} {a : Container}, world.container? home = some a →
        a.bare = container.bare → ∀ depth,
          run (depth + delay + 1) call world = a.obtain (run depth) home id {} world)
      (hshort : ∀ {world : World} {a : Container}, world.container? home = some a →
        a.bare = container.bare → ∀ depth ≤ delay,
          run depth call world = (.error .unfinished, world))

variable {home : ContainerRef} {container : Container}

theorem aim_locate (isPublic : Bool) (name : String) (options : ResolveOptions) :
    container.aim (.locate isPublic home name options) = (container.lookup isPublic name).aim := by
  cases isPublic <;> rfl

theorem run_locate {world : World} {a : Container} (hat : world.container? home = some a)
    (hbare : a.bare = container.bare) (isPublic : Bool) (name : String) (depth : Nat) :
    run (depth + 1) (.locate isPublic home name {}) world =
      (container.lookup isPublic name).run (run depth) home a name {} world := by
  rw [run, step_locate hat, Container.lookup_of_bare hbare]

/-- A type with one service takes another call, which asks for that. -/
theorem course_sole (orderly : container.Orderly) {isPublic : Bool} {name typeName only : String}
    (hlookup : container.lookup isPublic name = .services typeName [only]) :
    Course container home (.locate isPublic home name {}) := by
  have hsole := orderly.sole hlookup
  have haim : container.aim (.locate isPublic home name {}) = some only := by
    rw [aim_locate, hlookup]
    rfl
  have hthen : ∀ {world : World} {a : Container}, world.container? home = some a →
      a.bare = container.bare → ∀ depth,
        run (depth + 1) (.locate isPublic home name {}) world =
          run depth (.resolve home only {}) world := by
    intro world a hat hbare depth
    rw [run_locate hat hbare, hlookup]
    rfl
  refine .obtains 1 (Nat.le_refl 1) haim (orderly.defined hsole) ?_ ?_
  · intro world a hat hbare depth
    rw [hthen hat hbare]
    change run (depth + 1) (.locate false home only {}) world = _
    rw [run_locate hat hbare, hsole]
    rfl
  · intro world a hat hbare depth hdepth
    rcases Nat.le_one_iff_eq_zero_or_eq_one.mp hdepth with rfl | rfl
    · rfl
    · rw [hthen hat hbare]
      rfl

theorem course_locate (orderly : container.Orderly) (isPublic : Bool) (name : String) :
    Course container home (.locate isPublic home name {}) := by
  have haim : container.aim (.locate isPublic home name {}) =
      (container.lookup isPublic name).aim := aim_locate isPublic name {}
  cases hlookup : container.lookup isPublic name with
  | definition id =>
      rw [hlookup] at haim
      refine .obtains 0 (Nat.zero_le 1) haim (orderly.defined hlookup) ?_ ?_
      · intro world a hat hbare depth
        rw [run_locate hat hbare, hlookup]
        rfl
      · intro world a hat hbare depth hdepth
        obtain rfl := Nat.le_zero.mp hdepth
        rfl
  | withheld =>
      rw [hlookup] at haim
      refine .fails (.notFound name) haim fun hat hbare depth => ?_
      rw [run_locate hat hbare, hlookup]
      rfl
  | services typeName ids =>
      rw [hlookup] at haim
      rcases ids with _ | ⟨only, _ | ⟨second, rest⟩⟩
      · refine .fails (.notFound typeName) haim fun hat hbare depth => ?_
        rw [run_locate hat hbare, hlookup]
        rfl
      · exact course_sole orderly hlookup
      · refine .fails (.ambiguousType typeName (only :: second :: rest)) haim
          fun hat hbare depth => ?_
        rw [run_locate hat hbare, hlookup, Lookup.run, Run.resolveType_several,
          if_neg Bool.false_ne_true]
        rfl

theorem course_routine {registry : Registry} {config : Config}
    (hosts : registry.Hosts config container) (orderly : container.Orderly) (position : Nat) :
    Course container home (.routine home position) := by
  cases hid : container.routineId? position with
  | none =>
      refine .fails (.notFound "") hid fun hat hbare depth => ?_
      rw [run, step_routine hat (hosts.of_bare hbare), Container.routineId?_of_bare hbare, hid]
      rfl
  | some id =>
      refine .obtains 0 (Nat.zero_le 1) hid (orderly.routine hid) ?_ ?_
      · intro world a hat hbare depth
        rw [Nat.add_zero, run, step_routine hat (hosts.of_bare hbare),
          Container.routineId?_of_bare hbare, hid]
      · intro world a hat hbare depth hdepth
        obtain rfl := Nat.le_zero.mp hdepth
        rfl

/-- **A call that follows a name** has a course. -/
theorem Names.course {registry : Registry} {config : Config}
    (hosts : registry.Hosts config container) (orderly : container.Orderly) {call : Call}
    (hnames : Names home call) : Course container home call := by
  cases hnames with
  | locate isPublic name => exact course_locate orderly isPublic name
  | routine position => exact course_routine hosts orderly position

end Call

namespace Registry

variable {registry : Registry} {config : Config} {container : Container}

/-- The names that definitions follow are followed by such calls. -/
theorem names_follow (c : ContainerRef) (name : String) :
    Call.Names c ((registry.reading config c container).follow name) := by
  cases container with
  | interpreting interpreter => exact .locate false name
  | running machine => exact .routine _

section Orderly

variable (free : ∀ id, registry.contains id → registry.aliases.target? id = none)

include free

theorem orderly_lookup (indexed : registry.Indexed) {isPublic : Bool} {name typeName only : String}
    (hlookup : registry.lookup isPublic name = .services typeName [only]) :
    registry.lookup false only = .definition only := by
  have hcandidates := services_of_lookup hlookup
  have hlisted : only ∈ registry.types.lookup typeName := by
    refine (selectCandidates_sublist registry.isHidden _).subset ?_
    have hmem : only ∈ registry.candidates typeName := hcandidates ▸ List.mem_singleton_self only
    exact hmem
  obtain ⟨definition, hfound, -⟩ := (indexed.mem_lookup_iff typeName only).mp hlisted
  exact lookup_of_free free (contains_of_definition hfound)

/-- The sole service of a type that a machine names is found under its own id. -/
theorem Compiled.orderly_lookup {machine : Machine} (compiled : registry.Compiled config machine.program)
    {isPublic : Bool} {name typeName only : String}
    (hlookup : (Container.running machine).lookup isPublic name = .services typeName [only]) :
    (Container.running machine).lookup false only = .definition only := by
  have hmem : only ∈ machine.candidates typeName :=
    Machine.services_of_lookup hlookup ▸ List.mem_singleton_self only
  rw [Machine.candidates, compiled.candidates_eq] at hmem
  have hcontains := Plan.contains_of_mem_candidates registry config.maxDepth hmem
  have hunaliased : registry.aliases.contains only = false := by
    rw [AliasTable.contains, Table.contains]
    exact Option.isSome_eq_false_iff.mpr (Option.isNone_iff_eq_none.mpr (free only hcontains))
  have hcanonical : machine.canonical only = only := by
    rw [Machine.canonical, compiled.get?_aliases, hunaliased]
    rfl
  change machine.internalLookup only = _
  rw [Machine.internalLookup, hcanonical, compiled.routine?_eq, if_pos hcontains]
  rfl

omit free in
theorem Hosts.defines_of_routineId? (hosts : registry.Hosts config container) {position : Nat}
    {id : String} (hid : container.routineId? position = some id) : container.defines id := by
  rw [hosts.defines_eq]
  rcases hosts.cases_kind with ⟨interpreter, frozen, rfl, -⟩ | ⟨machine, rfl, compiled, -⟩
  · cases hid
  · obtain ⟨routine, hroutine, rfl⟩ := Option.map_eq_some_iff.mp hid
    have hfound := compiled.routine?_of_mem (List.mem_of_getElem? hroutine)
    rw [compiled.routine?_eq] at hfound
    by_contra habsent
    rw [if_neg habsent] at hfound
    cases hfound

/-- **Containers of a registry** in which no alias has the id of a definition are orderly. -/
theorem Hosts.orderly (hosts : registry.Hosts config container) (indexed : registry.Indexed) :
    container.Orderly where
  defined := Container.defines_of_lookup
  routine := hosts.defines_of_routineId?
  sole {isPublic name typeName only} hlookup := by
    rcases hosts.cases_kind with ⟨interpreter, frozen, rfl, hregistry, -⟩ | ⟨machine, rfl, compiled, -⟩
    · have hsame : ∀ isPublic name, (Container.interpreting interpreter).lookup isPublic name =
          registry.lookup isPublic name := by
        intro isPublic name
        rw [Container.lookup, hregistry]
        rfl
      rw [hsame] at hlookup ⊢
      exact orderly_lookup free indexed hlookup
    · exact compiled.orderly_lookup free hlookup

end Orderly

end Registry
end Wiring
