import Wiring.World

/-!
Resolving services. Both kinds of container answer the same calls: an interpreter looks names up
while it resolves, a machine runs the routines of its program.

A call may lead to further calls, through references between definitions and through user code.
`Call.step` is one call with the further ones left open; `Call.run` closes it, down to a given depth
of nesting.
-/

namespace Wiring

inductive Call where
  /-- What the public may ask for. -/
  | get (c : ContainerRef) (id : String) (options : ResolveOptions)
  /-- What definitions may ask for: private services as well. -/
  | resolve (c : ContainerRef) (id : String) (options : ResolveOptions)
  /-- A routine of a compiled program, by position. -/
  | routine (c : ContainerRef) (position : Nat)
  | invoke (c : ContainerRef) (f : CallableRef) (args : CallArgs)
  | force (l : LazyRef)
  | reset (c : ContainerRef)
deriving Inhabited

abbrev Caller := Call → Run Value

namespace Request

def taggedServices (recur : Caller) (c : ContainerRef) (entries : List (String × Value)) :
    Run (List (Value × Value)) :=
  entries.mapM fun entry => return (← recur (.resolve c entry.1 {}), entry.2)

def perform (recur : Caller) : (r : Request) → Run r.Reply
  | .note text => Run.changeStore (·.record (.noted text))
  | .allocate className => Run.onStore (·.allocate className)
  | .properties o => return (← Run.world).store.properties o
  | .setProperty o name value => Run.changeStore (·.setProperty o name value)
  | .count key => Run.onStore (·.count key)
  | .get c id options => Run.outcome (recur (.get c id options))
  | .reference c id => Run.outcome (recur (.resolve c id {}))
  | .has c id => return ((← Run.world).container? c).any (·.has id)
  | .keys c => return (((← Run.world).container? c).map Container.keys).getD []
  | .parameter c name => Run.outcome do Run.ofExcept ((← Run.container c).parameter name)
  | .tagged c tag => Run.outcome do
      taggedServices recur c ((← Run.container c).tagged tag)
  | .initialized c id => return ((← Run.world).container? c).any (·.initialized id)
  | .reset c => do
      let _ ← Run.outcome (recur (.reset c))
      return ()
  | .invoke c f args => Run.outcome (recur (.invoke c f args))
  | .force l => Run.outcome (recur (.force l))

end Request

def Behaviour.run {α : Type} (recur : Caller) : Behaviour α → Run α
  | .done result => Run.ofExcept result
  | .ask request next => do
      let reply ← request.perform recur
      (next reply).run recur

/-- A sole candidate, or all of them if that is asked for. -/
def Run.resolveType (recur : Caller) (c : ContainerRef) (typeName : String)
    (candidates : List String) (options : ResolveOptions) : Run Value :=
  match candidates with
  | [] => Run.fail (.notFound typeName)
  | [id] => recur (.resolve c id options)
  | ids =>
      if options.ignoreAmbiguity then
        return .list (← ids.mapM fun id => recur (.resolve c id options))
      else Run.fail (.ambiguousType typeName ids)

/-- The callee's value takes the arguments if it is callable, and stands for itself if there are
none. -/
def Run.callService (recur : Caller) (c : ContainerRef) (id name : String) (service : Value)
    (args : CallArgs) : Run Value :=
  match service with
  | .callable f => recur (.invoke c f args)
  | value =>
      if args.isEmpty then return value
      else Run.fail (.invalidEntity id (.notCallable name))

def Run.callMethod (recur : Caller) (catalog : Catalog) (id name : String) (service : Value)
    (method : String) (args : CallArgs) : Run Value :=
  match service with
  | .object o => (catalog.callMethod id o method args).run recur
  | _ => Run.fail (.invalidEntity id (.notObject name))

/-- The value is asked for only where it can be bound. -/
def Run.bindMember (recur : Caller) (catalog : Catalog) (id : String) (service : Value)
    (name : String) (value : Run Value) : Run Unit :=
  match service with
  | .object o => do (catalog.applyMember o name (← value)).run recur
  | _ => Run.fail (.invalidEntity id (.notBindable name))

def Run.runExtra (recur : Caller) (c : ContainerRef) (service code : Value) : Run Unit :=
  match code with
  | .callable f => do
      let _ ← recur (.invoke c f (.ofList [service]))
      return ()
  | _ => return ()

def Run.decorate (recur : Caller) (c : ContainerRef) (decorators : List Decorator)
    (service : Value) : Run Value :=
  decorators.foldlM (fun service decorator => (decorator.apply c service).run recur) service

/-- The lazy definition that a reference stands for, if it stands for one. -/
def Registry.lazyTarget? (registry : Registry) (name : String) : Option String :=
  let canonical := registry.resolveAlias name
  let id :=
    if registry.contains canonical then some canonical
    else
      match registry.candidates canonical with
      | [only] => some only
      | _ => none
  id.filter registry.isLazy

namespace Interpreter

variable (recur : Caller) (c : ContainerRef) (registry : Registry)

def reference (name : String) : Run Value :=
  match registry.lazyTarget? name with
  | some id => return .handle (← Run.onStore (·.addHandle id (some c)))
  | none => recur (.resolve c name {})

def callee (id : String) (target : Callee) (args : CallArgs) : Run Value := do
  match target with
  | .invocable f => recur (.invoke c f args)
  | .construct className => (registry.catalog.instantiate id className args).run recur
  | .service service => Run.callService recur c id service (← recur (.resolve c service {})) args
  | .method service method =>
      Run.callMethod recur registry.catalog id service (← recur (.resolve c service {})) method args

mutual

def argument (id : String) : Argument → Run Value
  | .value v => return v
  | .reference target => reference recur c registry target
  | .parameter name => Run.ofExcept (registry.parameter name)
  | .collection typeName =>
      return .list (← (registry.candidates typeName).mapM (reference recur c registry))
  | .statement s => statement id s
  | .list items => return .list (← arguments id items)

def statement (id : String) : Statement → Run Value
  | .mk target (.mk positional named) => do
      let positional ← arguments id positional
      let named ← namedArguments id named ∅
      callee recur c registry id target { positional, named }

def arguments (id : String) : List Argument → Run (List Value)
  | [] => return []
  | arg :: rest => do
      let first ← argument id arg
      let others ← arguments id rest
      return first :: others

def namedArguments (id : String) : List (String × Argument) → Dict Value → Run (Dict Value)
  | [], values => return values
  | (name, arg) :: rest, values => do
      let value ← argument id arg
      namedArguments id rest (values.insert name value)

end

def allArguments (id : String) (args : Arguments) : Run CallArgs := do
  let positional ← arguments recur c registry id args.positional
  let named ← namedArguments recur c registry id args.named ∅
  return { positional, named }

/-- The definition's arguments follow those of a statement; a plain value takes none. -/
def entity (id : String) (definition : Definition) : Run Value := do
  match definition.entity with
  | .value v => return v
  | .construct className =>
      callee recur c registry id (.construct className)
        (← allArguments recur c registry id definition.arguments)
  | .invocable f =>
      callee recur c registry id (.invocable f)
        (← allArguments recur c registry id definition.arguments)
  | .statement s =>
      callee recur c registry id s.callee
        (← allArguments recur c registry id (s.args.merged definition.arguments))

def bind (id : String) (service : Value) : Binding → Run Unit
  | .member name value =>
      Run.bindMember recur registry.catalog id service name (argument recur c registry id value)
  | .extra code => do Run.runExtra recur c service (← argument recur c registry id code)

def create (id : String) (definition : Definition) : Run Value := do
  let service ← entity recur c registry id definition
  definition.bindings.forM (bind recur c registry id service)
  Run.decorate recur c definition.decorators service

def store (id : String) (service : Value) : Container → Container
  | .interpreting container => .interpreting (container.cache id service)
  | other => other

/-- A cached service is given again; a new one is cached unless it is made anew each time. -/
def resolveDefinition (cached : Option Value) (id : String) (definition : Definition)
    (options : ResolveOptions) : Run Value := do
  match definition.flags.factory, cached with
  | false, some service => return service
  | factory, _ =>
      Run.entering c id do
        let service ← create recur c registry id definition
        Run.announce c id definition.deprecation
        if !factory && !options.ignoreFreezing then
          Run.changeContainer c (store id service)
        return service

/-- By alias, by id, by type. The public does not see a private id. -/
def resolve (container : Interpreter) (isPublic : Bool) (id : String)
    (options : ResolveOptions) : Run Value :=
  let canonical := container.registry.resolveAlias id
  match container.registry.definition? canonical with
  | some definition =>
      if isPublic && definition.flags.hidden then Run.fail (.notFound id)
      else
        resolveDefinition recur c container.registry (container.services.get? canonical) canonical
          definition options
  | none =>
      Run.resolveType recur c canonical (container.registry.candidates canonical) options

end Interpreter

namespace Machine

variable (recur : Caller) (c : ContainerRef) (machine : Machine)

mutual

def eval (id : String) : Expr → Run Value
  | .literal v => return v
  | .construct className args => do
      (machine.catalog.instantiate id className (← callArgs id args)).run recur
  | .invoke f args => do recur (.invoke c f (← callArgs id args))
  | .callService service args => do
      let args ← callArgs id args
      Run.callService recur c id service.id (← recur (.routine c service.position)) args
  | .callMethod service method args => do
      let args ← callArgs id args
      Run.callMethod recur machine.catalog id service.id (← recur (.routine c service.position))
        method args
  | .service link => recur (.routine c link.position)
  | .handle link => return .handle (← Run.onStore (·.addHandle link.id (some c)))
  | .parameter name => Run.ofExcept (machine.parameter name)
  | .list items => return .list (← evalAll id items)

def callArgs (id : String) : ExprArgs → Run CallArgs
  | .mk positional named => do
      let positional ← evalAll id positional
      let named ← evalNamed id named ∅
      return { positional, named }

def evalAll (id : String) : List Expr → Run (List Value)
  | [] => return []
  | item :: rest => do
      let first ← eval id item
      let others ← evalAll id rest
      return first :: others

def evalNamed (id : String) : List (String × Expr) → Dict Value → Run (Dict Value)
  | [], values => return values
  | (name, item) :: rest, values => do
      let value ← eval id item
      evalNamed id rest (values.insert name value)

end

def bind (id : String) (service : Value) : BindingOp → Run Unit
  | .member name value =>
      Run.bindMember recur machine.catalog id service name (eval recur c machine id value)
  | .extra code => do Run.runExtra recur c service (← eval recur c machine id code)

def create (routine : Routine) : Run Value := do
  let service ← eval recur c machine routine.id routine.body
  routine.bindings.forM (bind recur c machine routine.id service)
  Run.decorate recur c routine.decorators service

def store (table : CacheTable) (id : String) (service : Value) : Container → Container
  | .running container => .running (container.cache table id service)
  | other => other

def runRoutine (routine : Routine) (options : ResolveOptions) : Run Value := do
  match machine.cached? routine with
  | some service => return service
  | none =>
      Run.entering c routine.id do
        let service ← create recur c machine routine
        Run.announce c routine.id routine.deprecation
        match routine.cache with
        | some table =>
            if !options.ignoreFreezing then
              Run.changeContainer c (store table routine.id service)
        | none => pure ()
        return service

/-- By exported alias, by id, by type; private routines as well. -/
def resolve (id : String) (options : ResolveOptions) : Run Value :=
  let canonical := machine.canonical id
  match machine.program.routine? canonical with
  | some routine => runRoutine recur c machine routine options
  | none => Run.resolveType recur c canonical (machine.candidates canonical) options

def get (id : String) (options : ResolveOptions) : Run Value :=
  let canonical := machine.canonical id
  if machine.program.methods.contains canonical then resolve recur c machine canonical options
  else if (machine.program.routine? canonical).isSome then Run.fail (.notFound id)
  else Run.resolveType recur c canonical (machine.candidates canonical) options

def runAt (position : Nat) : Run Value :=
  match machine.program.routines[position]? with
  | some routine => runRoutine recur c machine routine {}
  | none => Run.fail (.notFound "")

end Machine

namespace Call

variable (recur : Caller)

/-- A handle that has no value yet takes the one it finds, unless it got one meanwhile. -/
def forceHandle (l : LazyRef) : Run Value := do
  let world ← Run.world
  let cell := world.store.cell l
  match cell.value with
  | some value => return value
  | none =>
      match cell.home.filter fun c => (world.container? c).isSome with
      | none => Run.fail (.containerDropped l.target)
      | some c =>
          let value ← recur (.resolve c l.target {})
          Run.onStore (·.settle l value)

def tearDown (catalog : Catalog) (service : Value) : Run Unit := do
  match service.object?.bind catalog.teardown? with
  | some teardown =>
      let _ ← Run.outcome (teardown.run recur)
      return ()
  | none => return ()

/-- The cache is emptied first, then each service that was in it is torn down. -/
def resetContainer (c : ContainerRef) : Run Unit := do
  let container ← Run.container c
  Run.changeContainer c Container.clearCache
  container.cached.forM (tearDown recur container.catalog)
  Run.changeContainer c Container.clearRuntimeState

def step : Call → Run Value
  | .get c id options => do
      match ← Run.container c with
      | .interpreting container => Interpreter.resolve recur c container true id options
      | .running machine => Machine.get recur c machine id options
  | .resolve c id options => do
      match ← Run.container c with
      | .interpreting container => Interpreter.resolve recur c container false id options
      | .running machine => Machine.resolve recur c machine id options
  | .routine c position => do
      match ← Run.container c with
      | .interpreting _ => Run.fail (.notFound "")
      | .running machine => Machine.runAt recur c machine position
  | .invoke c f args => do
      match (← Run.world).store.codeOf? f with
      | some code => (code c args).run recur
      | none => return .null
  | .force l => forceHandle recur l
  | .reset c => do
      resetContainer recur c
      return .null

def run : Nat → Call → Run Value
  | 0, _ => throw .unfinished
  | depth + 1, call => step (run depth) call

end Call

/-- Calls nested deeper than this are given up; no stack holds as many. -/
def nestingLimit : Nat := 1048576

/-- What a caller outside asks for. -/
def Request.answer (request : Request) : Run request.Reply :=
  request.perform (Call.run nestingLimit)

end Wiring
