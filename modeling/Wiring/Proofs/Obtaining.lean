import Wiring.Proofs.Selection

/-!
# Obtaining a service

Both kinds of container give the service of a definition in one way: a cached one at once, and else a
new one, which is made while its id is under construction and then cached, unless services of the
definition are made anew each time. What changes in a container on the way is told apart from what
it is made of.
-/

namespace Wiring

theorem Machine.id_of_routine? {program : Program} {id : String} {routine : Routine}
    (hfound : program.routine? id = some routine) : routine.id = id := by
  have hnamed := List.find?_some hfound
  exact of_decide_eq_true hnamed

namespace Container

/-- The container without what changes while it gives services. -/
def bare : Container → Container
  | .interpreting c =>
      .interpreting { c with
        registry := { c.registry with frozen := ∅ }
        services := ∅
        loading := [] }
  | .running c => .running { c with services := ∅, privates := ∅, loading := [] }

def defines (id : String) : Container → Bool
  | .interpreting c => c.registry.contains id
  | .running c => (c.program.routine? id).isSome

/-- Whether services of the definition are made anew each time. -/
def isFactory (id : String) : Container → Bool
  | .interpreting c => (c.registry.definition? id).any fun definition => definition.flags.factory
  | .running c => (c.program.routine? id).any fun routine => routine.cache.isNone

def notice? (id : String) : Container → Option Deprecation
  | .interpreting c => (c.registry.definition? id).bind Definition.deprecation
  | .running c => (c.program.routine? id).bind Routine.deprecation

/-- The service that the container gives for the definition as long as it holds on to it. -/
def cached? (id : String) : Container → Option Value
  | .interpreting c => (c.registry.definition? id).bind fun definition =>
      if definition.flags.factory then none else c.services.get? id
  | .running c => (c.program.routine? id).bind c.cached?

/-- Whether anything stands under the id where services are cached. -/
def holds (id : String) : Container → Bool
  | .interpreting c => c.services.contains id
  | .running c => c.services.contains id || c.privates.contains id

/-- What is cached can be given. -/
def Tidy (container : Container) : Prop :=
  ∀ id, container.holds id → (container.cached? id).isSome

/-- A new service of the definition, decorated. -/
def make (recur : Caller) (c : ContainerRef) (id : String) : Container → Run Value
  | .interpreting container =>
      match container.registry.definition? id with
      | some definition => Interpreter.create recur c container.registry id definition
      | none => Run.fail (.notFound id)
  | .running machine =>
      match machine.program.routine? id with
      | some routine => Machine.create recur c machine routine
      | none => Run.fail (.notFound id)

/-- How a service of the definition is cached. -/
def storing (id : String) (service : Value) : Container → Container → Container
  | .interpreting _ => Interpreter.store id service
  | .running machine =>
      match (machine.program.routine? id).bind Routine.cache with
      | some table => Machine.store table id service
      | none => fun container => container

def keep (c : ContainerRef) (id : String) (options : ResolveOptions) (container : Container)
    (service : Value) : Run Value := do
  if !container.isFactory id && !options.ignoreFreezing then
    Run.changeContainer c (container.storing id service)
  return service

/-- A name leads to definitions only. -/
theorem defines_of_lookup {container : Container} {isPublic : Bool} {name id : String}
    (hlookup : container.lookup isPublic name = .definition id) : container.defines id := by
  cases container with
  | interpreting interpreter =>
      have hfound : interpreter.registry.lookup isPublic name = .definition id := hlookup
      cases hdefined : interpreter.registry.definition? (interpreter.registry.resolveAlias name) with
      | none =>
          rw [Registry.lookup_of_undefined hdefined] at hfound
          cases hfound
      | some definition =>
          rw [Registry.lookup_of_definition hdefined] at hfound
          split at hfound
          · cases hfound
          · cases hfound
            exact Option.isSome_iff_exists.mpr ⟨definition, hdefined⟩
  | running machine =>
      have hinternal : ∀ {name : String}, machine.internalLookup name = .definition id →
          (machine.program.routine? id).isSome := by
        intro name hfound
        rw [Machine.internalLookup] at hfound
        split at hfound
        · next hdefined =>
            cases hfound
            exact hdefined
        · cases hfound
      cases isPublic with
      | false => exact hinternal hlookup
      | true =>
          have hfound : machine.publicLookup name = .definition id := hlookup
          rw [Machine.publicLookup] at hfound
          split at hfound
          · exact hinternal hfound
          · split at hfound <;> cases hfound

section Obtaining

variable {container : Container} {id : String}

theorem obtain_undefined (hdefined : container.defines id = false) (recur : Caller)
    (c : ContainerRef) (options : ResolveOptions) :
    container.obtain recur c id options = Run.fail (.notFound id) := by
  cases container with
  | interpreting interpreter =>
      have habsent : interpreter.registry.definition? id = none :=
        Option.isSome_eq_false_iff.mp hdefined |> Option.isNone_iff_eq_none.mp
      rw [obtain, habsent]
  | running machine =>
      have habsent : machine.program.routine? id = none :=
        Option.isSome_eq_false_iff.mp hdefined |> Option.isNone_iff_eq_none.mp
      rw [obtain, habsent]

/-- **A cached service** is given without running anything, whatever the options. -/
theorem obtain_cached {service : Value} (hcached : container.cached? id = some service)
    (recur : Caller) (c : ContainerRef) (options : ResolveOptions) :
    container.obtain recur c id options = pure service := by
  cases container with
  | interpreting interpreter =>
      obtain ⟨definition, hfound, hheld⟩ := Option.bind_eq_some_iff.mp hcached
      rw [obtain, hfound]
      dsimp only at hheld ⊢
      split at hheld
      · cases hheld
      · next hfactory =>
          rw [hheld]
          exact Interpreter.resolveDefinition_cached (Bool.eq_false_iff.mpr hfactory) service options
  | running machine =>
      obtain ⟨routine, hfound, hheld⟩ := Option.bind_eq_some_iff.mp hcached
      rw [obtain, hfound]
      exact Machine.runRoutine_cached hheld options

/-- **A new service** is made, announced and kept while the id is under construction. -/
theorem obtain_made (hdefined : container.defines id) (hcached : container.cached? id = none)
    (recur : Caller) (c : ContainerRef) (options : ResolveOptions) :
    container.obtain recur c id options = Run.entering c id (do
      let service ← container.make recur c id
      Run.announce c id (container.notice? id)
      container.keep c id options service) := by
  cases container with
  | interpreting interpreter =>
      obtain ⟨definition, hfound⟩ : ∃ definition,
          interpreter.registry.definition? id = some definition :=
        Option.isSome_iff_exists.mp hdefined
      have hmade : definition.flags.factory = true ∨ interpreter.services.get? id = none := by
        rw [cached?, hfound, Option.bind_some] at hcached
        split at hcached
        · next hfactory => exact .inl hfactory
        · exact .inr hcached
      have hkeep : Interpreter.keep c id definition.flags options =
          keep c id options (.interpreting interpreter) := by
        funext service
        rw [Interpreter.keep, keep, isFactory, hfound, Option.any_some, storing]
      rw [obtain, hfound]
      dsimp only
      rw [Interpreter.resolveDefinition_made hmade, hkeep, make, hfound, notice?, hfound,
        Option.bind_some]
  | running machine =>
      obtain ⟨routine, hfound⟩ := Option.isSome_iff_exists.mp hdefined
      have hid : routine.id = id := Machine.id_of_routine? hfound
      have hmade : machine.cached? routine = none := by
        rw [cached?, hfound, Option.bind_some] at hcached
        exact hcached
      have hkeep : Machine.keep c id routine.cache options =
          keep c id options (.running machine) := by
        funext service
        rw [keep, isFactory, storing, hfound, Option.any_some, Option.bind_some]
        cases hcache : routine.cache with
        | none => rfl
        | some table => rfl
      rw [obtain, hfound]
      dsimp only
      rw [Machine.runRoutine_made hmade, hid, hkeep, make, hfound, notice?, hfound, Option.bind_some]

section Uncached

variable {world inner : World} {recur : Caller} {c : ContainerRef} {options : ResolveOptions}
  {longer : List String} (hat : world.container? c = some container)
  (hdefined : container.defines id) (hcached : container.cached? id = none)

include hat hdefined hcached

theorem obtain_refused {error : Error}
    (henter : Chain.enter container.maxDepth container.loading id = .error error) :
    container.obtain recur c id options world = (.error (.error error), world) := by
  rw [obtain_made hdefined hcached, Run.entering_refused hat henter]
  rfl

theorem obtain_failed
    (henter : Chain.enter container.maxDepth container.loading id = .ok longer) {halt : Halt}
    (hmake : container.make recur c id (world.put c (container.setLoading longer)) =
      (.error halt, inner)) :
    container.obtain recur c id options world =
      (.error halt, Run.cut c container.loading.length inner) := by
  rw [obtain_made hdefined hcached, Run.entering_apply hat henter, Run.bind_of_error hmake]

end Uncached

end Obtaining

/-! ### What does not change -/

section Bare

variable {a b : Container}

@[simp]
theorem bare_setLoading (container : Container) (chain : List String) :
    (container.setLoading chain).bare = container.bare := by
  cases container <;> rfl

/-- What can be read off the bare container stays the same with it. -/
theorem eq_of_bare {α : Type} {read : Container → α}
    (hread : ∀ container : Container, read container.bare = read container)
    (h : b.bare = a.bare) : read b = read a := by
  rw [← hread b, h, hread a]

theorem lookup_of_bare (h : b.bare = a.bare) (isPublic : Bool) (name : String) :
    b.lookup isPublic name = a.lookup isPublic name :=
  eq_of_bare (fun container => by cases container <;> rfl) h

theorem defines_of_bare (h : b.bare = a.bare) (id : String) : b.defines id = a.defines id :=
  eq_of_bare (fun container => by cases container <;> rfl) h

theorem isFactory_of_bare (h : b.bare = a.bare) (id : String) : b.isFactory id = a.isFactory id :=
  eq_of_bare (fun container => by cases container <;> rfl) h

theorem storing_of_bare (h : b.bare = a.bare) (id : String) (service : Value) :
    b.storing id service = a.storing id service :=
  eq_of_bare (fun container => by cases container <;> rfl) h

theorem maxDepth_of_bare (h : b.bare = a.bare) : b.maxDepth = a.maxDepth :=
  eq_of_bare (fun container => by cases container <;> rfl) h

end Bare

/-! ### The cache -/

section Cache

variable {container : Container} {id : String}

theorem cached?_factory (hfactory : container.isFactory id) : container.cached? id = none := by
  cases container with
  | interpreting interpreter =>
      rw [isFactory, Option.any_eq_true] at hfactory
      obtain ⟨definition, hfound, hflag⟩ := hfactory
      rw [cached?, hfound, Option.bind_some, if_pos hflag]
  | running machine =>
      rw [isFactory, Option.any_eq_true] at hfactory
      obtain ⟨routine, hfound, hflag⟩ := hfactory
      rw [cached?, hfound, Option.bind_some, Machine.cached?, Option.isNone_iff_eq_none.mp hflag]
      rfl

theorem Tidy.holds_factory (tidy : container.Tidy) (hfactory : container.isFactory id) :
    container.holds id = false := by
  rw [Bool.eq_false_iff]
  intro hheld
  have hgiven := tidy id hheld
  rw [cached?_factory hfactory] at hgiven
  cases hgiven

theorem cached?_clearCache (container : Container) (id : String) :
    container.clearCache.cached? id = none := by
  cases container with
  | interpreting interpreter =>
      change ((interpreter.registry.definition? id).bind fun definition =>
        if definition.flags.factory then none else none) = none
      cases interpreter.registry.definition? id with
      | none => rfl
      | some definition =>
          rw [Option.bind_some]
          split <;> rfl
  | running machine =>
      change (machine.program.routine? id).bind _ = none
      cases machine.program.routine? id with
      | none => rfl
      | some routine =>
          rw [Option.bind_some, Machine.cached?]
          cases routine.cache with
          | none => rfl
          | some table => cases table <;> rfl

@[simp]
theorem cached?_setLoading (container : Container) (chain : List String) (id : String) :
    (container.setLoading chain).cached? id = container.cached? id := by
  cases container <;> rfl

@[simp]
theorem holds_setLoading (container : Container) (chain : List String) (id : String) :
    (container.setLoading chain).holds id = container.holds id := by
  cases container <;> rfl

@[simp]
theorem loading_setLoading (container : Container) (chain : List String) :
    (container.setLoading chain).loading = chain := by
  cases container <;> rfl

@[simp]
theorem bare_storing (container : Container) (id : String) (service : Value) :
    (container.storing id service container).bare = container.bare := by
  cases container with
  | interpreting interpreter => rfl
  | running machine =>
      rw [storing]
      cases (machine.program.routine? id).bind Routine.cache with
      | none => rfl
      | some table => cases table <;> rfl

@[simp]
theorem loading_storing (container : Container) (id : String) (service : Value) :
    (container.storing id service container).loading = container.loading := by
  cases container with
  | interpreting interpreter => rfl
  | running machine =>
      rw [storing]
      cases (machine.program.routine? id).bind Routine.cache with
      | none => rfl
      | some table => cases table <;> rfl

/-- Only what stands under the id changes. -/
theorem cached?_storing (hdefined : container.defines id) (hshared : container.isFactory id = false)
    (service : Value) (other : String) :
    (container.storing id service container).cached? other =
      if other = id then some service else container.cached? other := by
  cases container with
  | interpreting interpreter =>
      obtain ⟨definition, hfound⟩ : ∃ definition,
          interpreter.registry.definition? id = some definition :=
        Option.isSome_iff_exists.mp hdefined
      rw [isFactory, hfound, Option.any_some] at hshared
      have hstored : (storing id service (.interpreting interpreter)
          (.interpreting interpreter)).cached? other =
            (interpreter.registry.definition? other).bind fun definition =>
              if definition.flags.factory then none
              else (interpreter.services.insert id service).get? other := rfl
      rw [hstored, Table.get?_insert]
      by_cases hsame : other = id
      · subst hsame
        rw [hfound, Option.bind_some, if_pos rfl, if_pos rfl, hshared]
        rfl
      · rw [if_neg hsame, if_neg hsame]
        rfl
  | running machine =>
      obtain ⟨routine, hfound⟩ := Option.isSome_iff_exists.mp hdefined
      rw [isFactory, hfound, Option.any_some] at hshared
      obtain ⟨table, htable⟩ : ∃ table, routine.cache = some table :=
        Option.isSome_iff_exists.mp (Option.isNone_eq_false_iff.mp hshared)
      have hstoring : storing id service (.running machine) (.running machine) =
          .running (machine.cache table id service) := by
        rw [storing, hfound, Option.bind_some, htable]
        rfl
      have hprogram : (machine.cache table id service).program = machine.program := by
        cases table <;> rfl
      rw [hstoring, cached?, hprogram, cached?]
      by_cases hsame : other = id
      · subst hsame
        rw [if_pos rfl, hfound, Option.bind_some, Machine.cached?_cache,
          if_pos ⟨htable, Machine.id_of_routine? hfound⟩]
      · rw [if_neg hsame]
        cases hother : machine.program.routine? other with
        | none => rfl
        | some found =>
            have hid : found.id ≠ id := Machine.id_of_routine? hother ▸ hsame
            rw [Option.bind_some, Option.bind_some, Machine.cached?_cache, if_neg fun h => hid h.2]

theorem holds_storing (container : Container) (id : String) (service : Value) {other : String}
    (hheld : (container.storing id service container).holds other) :
    other = id ∨ container.holds other := by
  by_cases hsame : other = id
  · exact .inl hsame
  right
  cases container with
  | interpreting interpreter =>
      have hstored : ((interpreter.services.insert id service).get? other).isSome := hheld
      rw [Table.get?_insert, if_neg hsame] at hstored
      exact hstored
  | running machine =>
      rw [storing] at hheld
      cases htable : (machine.program.routine? id).bind Routine.cache with
      | none =>
          rw [htable] at hheld
          exact hheld
      | some table =>
          rw [htable] at hheld
          cases table with
          | services =>
              simpa [Machine.store, Machine.cache, holds, Dict.contains, hsame] using hheld
          | privates =>
              simpa [Machine.store, Machine.cache, holds, Dict.contains, hsame] using hheld

theorem Tidy.storing (tidy : container.Tidy) (hdefined : container.defines id)
    (hshared : container.isFactory id = false) (service : Value) :
    (container.storing id service container).Tidy := by
  intro other hheld
  rw [cached?_storing hdefined hshared]
  by_cases hsame : other = id
  · rw [if_pos hsame]
    rfl
  · rw [if_neg hsame]
    exact tidy other ((holds_storing container id service hheld).resolve_left hsame)

end Cache

end Container
end Wiring
