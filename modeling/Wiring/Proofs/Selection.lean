import Mathlib.Data.List.Forall2
import Mathlib.Data.Option.Basic
import Wiring.Proofs.Exports
import Wiring.Proofs.Runs

/-!
# What a name selects

A container takes a name for one of its definitions, or for the services of a type, and these it
looks up in turn. `Container.select` tells what that comes to; `Call.run_select` says that the
containers do run what they select.
-/

namespace Wiring

/-- Where a name leads at once. -/
inductive Lookup where
  | definition (id : String)
  /-- To a definition that the public does not see. -/
  | withheld
  /-- To the services of a type. -/
  | services (typeName : String) (ids : List String)

def Registry.lookup (registry : Registry) (isPublic : Bool) (name : String) : Lookup :=
  let canonical := registry.resolveAlias name
  match registry.definition? canonical with
  | some definition =>
      if isPublic && definition.flags.hidden then .withheld else .definition canonical
  | none => .services canonical (registry.candidates canonical)

theorem Registry.lookup_of_definition {registry : Registry} {name : String} {definition : Definition}
    (hfound : registry.definition? (registry.resolveAlias name) = some definition)
    (isPublic : Bool) :
    registry.lookup isPublic name =
      if isPublic && definition.flags.hidden then .withheld
      else .definition (registry.resolveAlias name) := by
  rw [lookup, hfound]

theorem Registry.lookup_of_undefined {registry : Registry} {name : String}
    (habsent : registry.definition? (registry.resolveAlias name) = none) (isPublic : Bool) :
    registry.lookup isPublic name =
      .services (registry.resolveAlias name) (registry.candidates (registry.resolveAlias name)) := by
  rw [lookup, habsent]

namespace Machine

variable (machine : Machine)

def internalLookup (name : String) : Lookup :=
  let canonical := machine.canonical name
  if (machine.program.routine? canonical).isSome then .definition canonical
  else .services canonical (machine.candidates canonical)

def publicLookup (name : String) : Lookup :=
  let canonical := machine.canonical name
  if machine.program.methods.contains canonical then machine.internalLookup canonical
  else if (machine.program.routine? canonical).isSome then .withheld
  else .services canonical (machine.candidates canonical)

def lookup (isPublic : Bool) (name : String) : Lookup :=
  if isPublic then machine.publicLookup name else machine.internalLookup name

end Machine

namespace Container

def lookup (isPublic : Bool) (name : String) : Container → Lookup
  | .interpreting c => c.registry.lookup isPublic name
  | .running c => c.lookup isPublic name

/-- Gives the service of a definition: the cached one, or a new one. -/
def obtain (recur : Caller) (c : ContainerRef) (id : String) (options : ResolveOptions) :
    Container → Run Value
  | .interpreting container =>
      match container.registry.definition? id with
      | some definition =>
          Interpreter.resolveDefinition recur c container.registry (container.services.get? id) id
            definition options
      | none => Run.fail (.notFound id)
  | .running machine =>
      match machine.program.routine? id with
      | some routine => Machine.runRoutine recur c machine routine options
      | none => Run.fail (.notFound id)

end Container

def Lookup.run (recur : Caller) (c : ContainerRef) (container : Container) (name : String)
    (options : ResolveOptions) : Lookup → Run Value
  | .definition id => container.obtain recur c id options
  | .withheld => Run.fail (.notFound name)
  | .services typeName ids => Run.resolveType recur c typeName ids options

theorem Interpreter.resolve_eq (recur : Caller) (c : ContainerRef) (container : Interpreter)
    (isPublic : Bool) (name : String) (options : ResolveOptions) :
    resolve recur c container isPublic name options =
      (container.registry.lookup isPublic name).run recur c (.interpreting container) name
        options := by
  rw [resolve]
  cases hfound : container.registry.definition? (container.registry.resolveAlias name) with
  | none =>
      rw [Registry.lookup_of_undefined hfound]
      rfl
  | some definition =>
      rw [Registry.lookup_of_definition hfound]
      dsimp only
      split
      · rfl
      · rw [Lookup.run, Container.obtain, hfound]

theorem Machine.resolve_eq (recur : Caller) (c : ContainerRef) (machine : Machine) (name other : String)
    (options : ResolveOptions) :
    resolve recur c machine name options =
      (machine.internalLookup name).run recur c (.running machine) other options := by
  rw [resolve, internalLookup]
  cases hfound : machine.program.routine? (machine.canonical name) with
  | none => rfl
  | some routine =>
      dsimp only
      rw [Option.isSome_some, if_pos rfl, Lookup.run, Container.obtain, hfound]

theorem Machine.get_eq (recur : Caller) (c : ContainerRef) (machine : Machine) (name : String)
    (options : ResolveOptions) :
    get recur c machine name options =
      (machine.publicLookup name).run recur c (.running machine) name options := by
  rw [get, publicLookup]
  split
  · exact resolve_eq recur c machine _ name options
  · split <;> rfl

namespace Call

/-- What the public asks for, or what definitions ask for. -/
def locate (isPublic : Bool) (c : ContainerRef) (name : String) (options : ResolveOptions) : Call :=
  if isPublic then .get c name options else .resolve c name options

/-- **A call runs what its name leads to.** -/
theorem step_locate {world : World} {c : ContainerRef} {container : Container}
    (hat : world.container? c = some container) (recur : Caller) (isPublic : Bool) (name : String)
    (options : ResolveOptions) :
    step recur (locate isPublic c name options) world =
      (container.lookup isPublic name).run recur c container name options world := by
  cases isPublic with
  | true =>
      rw [locate, if_pos rfl, step, Run.bind_of_ok (Run.container_apply hat)]
      cases container with
      | interpreting interpreter => exact congrFun (Interpreter.resolve_eq ..) world
      | running machine => exact congrFun (Machine.get_eq ..) world
  | false =>
      rw [locate, if_neg Bool.false_ne_true, step, Run.bind_of_ok (Run.container_apply hat)]
      cases container with
      | interpreting interpreter => exact congrFun (Interpreter.resolve_eq ..) world
      | running machine => exact congrFun (Machine.resolve_eq ..) world

end Call

/-- What a name comes to. -/
inductive Selection where
  | definition (id : String)
  /-- All services of a type, each with what it comes to itself. -/
  | all (members : List Selection)
  | notFound
  | ambiguous

/-- A sole candidate's, or all of them if that is asked for. -/
def Selection.among (options : ResolveOptions) (select : String → Option Selection) :
    List String → Option Selection
  | [] => some .notFound
  | [id] => select id
  | ids => if options.ignoreAmbiguity then (ids.mapM select).map .all else some .ambiguous

theorem Selection.among_several (options : ResolveOptions) (select : String → Option Selection)
    (first second : String) (rest : List String) :
    among options select (first :: second :: rest) =
      if options.ignoreAmbiguity then ((first :: second :: rest).mapM select).map .all
      else some .ambiguous := rfl

theorem Run.resolveType_several (recur : Caller) (c : ContainerRef) (typeName : String)
    (options : ResolveOptions) (first second : String) (rest : List String) :
    resolveType recur c typeName (first :: second :: rest) options =
      if options.ignoreAmbiguity then do
        return .list (← (first :: second :: rest).mapM fun id => recur (.resolve c id options))
      else Run.fail (.ambiguousType typeName (first :: second :: rest)) := rfl

namespace Container

/-- Nothing is selected where lookups are nested deeper than `depth`. -/
def select (container : Container) (options : ResolveOptions) :
    (depth : Nat) → (isPublic : Bool) → (name : String) → Option Selection
  | 0, _, _ => none
  | depth + 1, isPublic, name =>
      match container.lookup isPublic name with
      | .definition id => some (.definition id)
      | .withheld => some .notFound
      | .services _ ids =>
          Selection.among options (fun id => container.select options depth false id) ids

end Container

/-- A run does what was selected: it gives the definition's service, resolves all members in turn,
or fails as it should. -/
def Selection.Serves (container : Container) (c : ContainerRef) (options : ResolveOptions)
    (world : World) (answer : Except Halt Value × World) : Selection → Prop
  | .definition id => ∃ depth, answer = container.obtain (Call.run depth) c id options world
  | .all members => ∃ (depth : Nat) (ids : List String),
      List.Forall₂ (fun id member => container.select options depth false id = some member)
        ids members ∧
      answer = (do
        return .list (← ids.mapM fun id => Call.run depth (.resolve c id options)) : Run Value) world
  | .notFound => ∃ missing, answer = (.error (.error (.notFound missing)), world)
  | .ambiguous => ∃ typeName ids, answer = (.error (.error (.ambiguousType typeName ids)), world)

theorem mapM_eq_some_iff {α β : Type} {f : α → Option β} {items : List α} {results : List β} :
    items.mapM f = some results ↔
      List.Forall₂ (fun item result => f item = some result) items results := by
  induction items generalizing results with
  | nil => cases results <;> simp
  | cons item rest ih =>
      rw [List.mapM_cons, Option.bind_eq_bind, Option.bind_eq_some_iff]
      constructor
      · rintro ⟨first, hfirst, h⟩
        obtain ⟨others, hothers, h⟩ := Option.bind_eq_some_iff.mp h
        obtain rfl : first :: others = results := Option.some.inj h
        exact .cons hfirst (ih.mp hothers)
      · rintro (_ | ⟨hfirst, hothers⟩)
        exact ⟨_, hfirst, Option.bind_eq_some_iff.mpr ⟨_, ih.mpr hothers, rfl⟩⟩

/-- **A call does what its name selects.** -/
theorem Call.run_select {world : World} {c : ContainerRef} {container : Container}
    (hat : world.container? c = some container) {options : ResolveOptions} {depth : Nat}
    {isPublic : Bool} {name : String} {selection : Selection}
    (hselect : container.select options depth isPublic name = some selection) :
    selection.Serves container c options world
      (Call.run depth (.locate isPublic c name options) world) := by
  induction depth generalizing isPublic name with
  | zero => cases hselect
  | succ depth ih =>
      rw [run, step_locate hat]
      rw [Container.select] at hselect
      cases hlookup : container.lookup isPublic name with
      | definition id =>
          rw [hlookup] at hselect
          cases hselect
          exact ⟨depth, rfl⟩
      | withheld =>
          rw [hlookup] at hselect
          cases hselect
          exact ⟨name, rfl⟩
      | services typeName ids =>
          rw [hlookup] at hselect
          dsimp only at hselect
          rw [Lookup.run]
          rcases ids with _ | ⟨first, _ | ⟨second, rest⟩⟩
          · cases hselect
            exact ⟨typeName, rfl⟩
          · exact ih hselect
          · rw [Selection.among_several] at hselect
            rw [Run.resolveType_several]
            cases hall : options.ignoreAmbiguity with
            | true =>
                rw [hall, if_pos rfl] at hselect
                obtain ⟨members, hmembers, rfl⟩ := Option.map_eq_some_iff.mp hselect
                exact ⟨depth, _, mapM_eq_some_iff.mp hmembers, rfl⟩
            | false =>
                rw [hall, if_neg Bool.false_ne_true] at hselect
                cases hselect
                exact ⟨typeName, _, rfl⟩

end Wiring
