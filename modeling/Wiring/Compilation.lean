import Wiring.Config
import Wiring.Program
import Wiring.Registry

/-!
Compiling a registry. Definitions are taken in ascending order of their ids, each compiled once, and
every reference between them becomes a position. A reference to a lazy definition becomes a handle
and is not followed; what a statement calls is followed always. One failure fails the whole.
-/

namespace Wiring

/-- Letters and digits of ASCII in lower case, an underscore for anything else. -/
def sanitized (id : String) : String :=
  id.map fun c => if c.isAlphanum then c.toLower else '_'

def suffixed (base : String) (n : Nat) : String := base ++ "_" ++ toString n

/-- The first suffix from `n` on whose name is free. -/
def freeName (used : List String) (base : String) : Nat → Nat → String
  | 0, n => suffixed base n
  | tries + 1, n =>
      let name := suffixed base n
      if name ∈ used then freeName used base tries (n + 1) else name

/-- Among one more names than are used, one is free. -/
def methodName (used : List String) (id : String) : String :=
  let base := "get_" ++ sanitized id
  if base ∈ used then freeName used base used.length 2 else base

def methodNames (ids : List String) : List String :=
  ids.foldl (fun used id => used ++ [methodName used id]) []

/-- What stays the same while a registry is compiled. -/
structure Plan where
  registry : Registry
  maxDepth : Nat
  ids : List String
  methods : List String
  types : TypeIndex

namespace Plan

/-- Types are indexed again in the order of the ids, so that the order of registration leaves no
trace. -/
def ofRegistry (registry : Registry) (maxDepth : Nat) : Plan :=
  let definitions := (Dict.ofList registry.definitions.entries).entries
  let ids := registry.sortedIds
  { registry, maxDepth, ids
    methods := methodNames ids
    types := definitions.foldl (Registry.indexEntry registry.catalog) registry.types.clear }

def candidates (plan : Plan) (typeName : String) : List String :=
  selectCandidates plan.registry.isHidden (plan.types.lookup typeName)

/-- By alias, by id, by type. -/
def target (plan : Plan) (name : String) : Except Error String :=
  let canonical := plan.registry.resolveAlias name
  if plan.registry.contains canonical then .ok canonical
  else
    match plan.candidates canonical with
    | [] => .error (.notFound canonical)
    | [only] => .ok only
    | ids => .error (.ambiguousType canonical ids)

def link (plan : Plan) (id : String) : Except Error Link :=
  match plan.ids.idxOf? id with
  | some position => .ok { id, position }
  | none => .error (.notFound id)

end Plan

/-- Compiling keeps the finished routines by id. -/
abbrev Compiling := StateT (Dict Routine) (Except Error)

namespace Compiling

def lift {α : Type} (result : Except Error α) : Compiling α := StateT.lift result

/-- What is known where an expression is compiled: the plan, and how to finish a routine. -/
structure Scope where
  plan : Plan
  finish : String → Compiling Unit

variable (scope : Scope)

def follow (name : String) : Compiling Link := do
  let id ← lift (scope.plan.target name)
  let link ← lift (scope.plan.link id)
  scope.finish id
  return link

def reference (name : String) : Compiling Expr := do
  let id ← lift (scope.plan.target name)
  let link ← lift (scope.plan.link id)
  if scope.plan.registry.isLazy id then return .handle link
  else
    scope.finish id
    return .service link

def callee (id : String) (target : Callee) (args : ExprArgs) : Compiling Expr := do
  match target with
  | .invocable f => return .invoke f args
  | .construct className =>
      lift (scope.plan.registry.catalog.ensureInstantiable id className args.positional.length)
      return .construct className args
  | .service service => return .callService (← follow scope service) args
  | .method service method => return .callMethod (← follow scope service) method args

mutual

def argument (id : String) : Argument → Compiling Expr
  | .value v => return .literal v
  | .reference target => reference scope target
  | .parameter name => do
      let _ ← lift (scope.plan.registry.parameter name)
      return .parameter name
  | .collection typeName => return .list (← (scope.plan.candidates typeName).mapM (reference scope))
  | .statement s => statement id s
  | .list items => return .list (← arguments id items)

def statement (id : String) : Statement → Compiling Expr
  | .mk target (.mk positional named) => do
      let positional ← arguments id positional
      let named ← namedArguments id named
      callee scope id target (.mk positional named)

def arguments (id : String) : List Argument → Compiling (List Expr)
  | [] => return []
  | arg :: rest => do
      let first ← argument id arg
      let others ← arguments id rest
      return first :: others

def namedArguments (id : String) : List (String × Argument) → Compiling (List (String × Expr))
  | [] => return []
  | (name, arg) :: rest => do
      let first ← argument id arg
      let others ← namedArguments id rest
      return (name, first) :: others

end

def allArguments (id : String) (args : Arguments) : Compiling ExprArgs := do
  let positional ← arguments scope id args.positional
  let named ← namedArguments scope id args.named
  return .mk positional named

/-- The definition's arguments follow those of a statement; a plain value takes none. -/
def entity (id : String) (definition : Definition) : Compiling Expr := do
  match definition.entity with
  | .value v => return .literal v
  | .construct className =>
      callee scope id (.construct className) (← allArguments scope id definition.arguments)
  | .invocable f => return .invoke f (← allArguments scope id definition.arguments)
  | .statement s =>
      callee scope id s.callee (← allArguments scope id (s.args.merged definition.arguments))

def binding (id : String) : Binding → Compiling BindingOp
  | .member name value => return .member name (← argument scope id value)
  | .extra code => return .extra (← argument scope id code)

def cacheOf (flags : Flags) : Option CacheTable :=
  if flags.factory then none else if flags.hidden then some .privates else some .services

def routine (id : String) (definition : Definition) : Compiling Routine := do
  let body ← entity scope id definition
  let bindings ← definition.bindings.mapM (binding scope id)
  let link ← lift (scope.plan.link id)
  return {
    id, body, bindings
    method := (scope.plan.methods[link.position]?).getD ""
    visibility := if definition.flags.hidden then .hidden else .exposed
    cache := cacheOf definition.flags
    lazy := definition.flags.lazy
    returnTypes := definition.declaredTypes scope.plan.registry.catalog
    deprecation := definition.deprecation
    decorators := definition.decorators }

/-- Marks what fails as found in `id`. -/
def within {α : Type} (id : String) (act : Compiling α) : Compiling α :=
  fun finished => (act finished).mapError (·.within id)

/-- Finishes the routine of `id`, after those it needs. No id is twice in a chain, so that one call
for each definition and one more are enough. -/
def finish (plan : Plan) : Nat → List String → String → Compiling Unit
  | 0, _, id => lift (.error (.notFound id))
  | calls + 1, chain, id => do
      if (← get).contains id then return ()
      match plan.registry.definition? id with
      | none => lift (.error (.notFound id))
      | some definition =>
          let chain ← lift (Chain.enter plan.maxDepth chain id)
          let finished ← within id (routine ⟨plan, finish plan calls chain⟩ id definition)
          modify (·.insert id finished)

def finishAll (plan : Plan) : Compiling Unit :=
  plan.ids.forM (finish plan (plan.ids.length + 1) [])

end Compiling

namespace Program

/-- For each tag the services that carry it. -/
def tagTable (tags : Table (Table Value)) : Dict (Dict Value) :=
  tags.entries.foldl (fun table service =>
    service.2.entries.foldl (fun (table : Dict (Dict Value)) tag =>
      table.insert tag.1 (((table.get? tag.1).getD ∅).insert service.1 tag.2)) table) ∅

def ofRoutines (plan : Plan) (containerClass : String) (routines : List Routine) : Program :=
  let registry := plan.registry
  { containerClass, routines
    methods := .ofList ((routines.filter (·.visibility = .exposed)).map fun routine =>
      (routine.id, routine.method))
    types := .ofList ((plan.types.entries.map fun entry =>
      (entry.1, selectCandidates registry.isHidden entry.2)).filter fun entry => !entry.2.isEmpty)
    aliases := registry.aliases.flatten.filter fun _ target => !registry.isHidden target
    parameters := registry.parameters
    tags := tagTable registry.tags
    privateServices := (routines.filter (·.visibility = .hidden)).length }

end Program

def Registry.compile (registry : Registry) (config : Config) : Except Error Program := do
  let plan := Plan.ofRegistry registry config.maxDepth
  let (_, finished) ← (Compiling.finishAll plan).run ∅
  return Program.ofRoutines plan config.containerClass (finished.entries.map Prod.snd)

end Wiring
