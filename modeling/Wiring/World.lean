import Wiring.Config
import Wiring.Program
import Wiring.Registry

/-!
Containers, and the world they live in. A container either interprets its registry or runs a
compiled program. User code that gets hold of several containers may call any of them, so that a run
works on all of them and on one store.

A run ends with a result, with an error, or unfinished: it was nested too deep. The world keeps what
was done before the end in each case.
-/

namespace Wiring

/-- Where notices of deprecated services go. -/
inductive NoticeHandler where
  | journal
  | silent
deriving DecidableEq, Inhabited, Repr

structure Interpreter where
  registry : Registry := ∅
  services : Table Value := ∅
  loading : List String := []
  config : Config := {}
  handler : NoticeHandler := .journal
deriving Inhabited

structure Machine where
  program : Program
  catalog : Catalog := ∅
  services : Dict Value := ∅
  privates : Dict Value := ∅
  tags : Dict (Dict Value) := ∅
  loading : List String := []
  maxDepth : Nat := defaultMaxDepth
  handler : NoticeHandler := .journal
deriving Inhabited

namespace Interpreter

def ofRegistry (registry : Registry) (config : Config) (handler : NoticeHandler) : Interpreter :=
  { registry, config, handler }

/-- Whether the id, or what it stands for, is cached. -/
def initialized (container : Interpreter) (id : String) : Bool :=
  container.services.contains (container.registry.resolveAlias id)

def definition? (container : Interpreter) (id : String) : Option Definition :=
  container.registry.definition? (container.registry.resolveAlias id)

/-- The cached instance goes with the definition. -/
def remove (container : Interpreter) (id : String) : Interpreter :=
  { container with
    services := container.services.erase id
    registry := container.registry.remove id }

/-- Decorates a service that is not cached yet. -/
def extend (container : Interpreter) (id : String) (decorator : Decorator) :
    Except Error Interpreter := do
  let canonical := container.registry.resolveAlias id
  if container.services.contains canonical then .error (.frozenConflict canonical)
  else return { container with registry := ← container.registry.decorate canonical decorator }

def cache (container : Interpreter) (id : String) (service : Value) : Interpreter :=
  { container with
    services := container.services.insert id service
    registry := container.registry.freeze id }

end Interpreter

namespace Machine

def load (program : Program) (catalog : Catalog) (maxDepth : Nat) (handler : NoticeHandler) :
    Machine :=
  { program, catalog, tags := program.tags, maxDepth, handler }

/-- Exported aliases already name the end of their chain. -/
def canonical (machine : Machine) (id : String) : String :=
  (machine.program.aliases.get? id).getD id

def table (machine : Machine) : CacheTable → Dict Value
  | .services => machine.services
  | .privates => machine.privates

def cache (machine : Machine) (table : CacheTable) (id : String) (service : Value) : Machine :=
  match table with
  | .services => { machine with services := machine.services.insert id service }
  | .privates => { machine with privates := machine.privates.insert id service }

def cached? (machine : Machine) (routine : Routine) : Option Value := do
  (machine.table (← routine.cache)).get? routine.id

def initialized (machine : Machine) (id : String) : Bool :=
  let canonical := machine.canonical id
  machine.services.contains canonical || machine.privates.contains canonical

def keys (machine : Machine) : List String := machine.program.methods.keys

def candidates (machine : Machine) (typeName : String) : List String :=
  (machine.program.types.get? typeName).getD []

def has (machine : Machine) (id : String) : Bool :=
  let canonical := machine.canonical id
  match machine.program.routine? canonical with
  | some _ => machine.program.methods.contains canonical
  | none => !(machine.candidates canonical).isEmpty

def parameter (machine : Machine) (name : String) : Except Error Value :=
  match machine.program.parameters.get? name with
  | some value => .ok value
  | none => .error (.parameterNotFound name)

def tagged (machine : Machine) (tag : String) : List (String × Value) :=
  ((machine.tags.get? tag).getD ∅).entries

end Machine

inductive Container where
  | interpreting (interpreter : Interpreter)
  | running (machine : Machine)
deriving Inhabited

namespace Container

def has (id : String) : Container → Bool
  | .interpreting c => c.registry.has id
  | .running c => c.has id

def keys : Container → List String
  | .interpreting c => c.registry.keys
  | .running c => c.keys

def parameter (name : String) : Container → Except Error Value
  | .interpreting c => c.registry.parameter name
  | .running c => c.parameter name

def tagged (tag : String) : Container → List (String × Value)
  | .interpreting c => c.registry.tagged tag
  | .running c => c.tagged tag

def initialized (id : String) : Container → Bool
  | .interpreting c => c.initialized id
  | .running c => c.initialized id

def catalog : Container → Catalog
  | .interpreting c => c.registry.catalog
  | .running c => c.catalog

def maxDepth : Container → Nat
  | .interpreting c => c.config.maxDepth
  | .running c => c.maxDepth

def handler : Container → NoticeHandler
  | .interpreting c => c.handler
  | .running c => c.handler

/-- What is under construction, from the outermost id to the innermost. -/
def loading : Container → List String
  | .interpreting c => c.loading
  | .running c => c.loading

def setLoading (loading : List String) : Container → Container
  | .interpreting c => .interpreting { c with loading }
  | .running c => .running { c with loading }

/-- All cached services, in the order in which a reset visits them. -/
def cached : Container → List Value
  | .interpreting c => c.services.entries.map Prod.snd
  | .running c => (c.services.entries ++ c.privates.entries).map Prod.snd

def clearCache : Container → Container
  | .interpreting c => .interpreting { c with services := ∅ }
  | .running c => .running { c with services := ∅, privates := ∅ }

/-- Tags go too, and so does what made ids frozen. -/
def clearRuntimeState : Container → Container
  | .interpreting c => .interpreting { c with registry := c.registry.resetRuntimeState }
  | .running c => .running { c with tags := ∅ }

end Container

/-- A released container leaves its place empty. -/
structure World where
  store : Store := {}
  containers : Array (Option Container) := #[]
deriving Inhabited

namespace World

def container? (world : World) (c : ContainerRef) : Option Container :=
  (world.containers[c.index]?).join

def add (world : World) (container : Container) : ContainerRef × World :=
  (⟨world.containers.size⟩, { world with containers := world.containers.push (some container) })

def put (world : World) (c : ContainerRef) (container : Container) : World :=
  { world with containers := world.containers.setIfInBounds c.index (some container) }

def release (world : World) (c : ContainerRef) : World :=
  { world with containers := world.containers.setIfInBounds c.index none }

end World

inductive Halt where
  | error (error : Error)
  | unfinished
deriving DecidableEq, Inhabited

abbrev Run := ExceptT Halt (StateM World)

namespace Run

variable {α : Type}

def fail (error : Error) : Run α := throw (.error error)

def ofExcept : Except Error α → Run α
  | .ok a => pure a
  | .error error => fail error

/-- The error as an answer; an unfinished run stays unfinished. -/
def outcome (act : Run α) : Run (Except Error α) := ExceptT.mk do
  match ← act.run with
  | .ok a => return .ok (.ok a)
  | .error (.error error) => return .ok (.error error)
  | .error .unfinished => return .error .unfinished

/-- Whatever the end of `act`, the world is changed afterwards. -/
def ensuring (act : Run α) (after : World → World) : Run α := ExceptT.mk do
  let result ← act.run
  modify after
  return result

def world : Run World := get

def onStore {β : Type} (f : Store → β × Store) : Run β := do
  let world ← get
  let (b, store) := f world.store
  set { world with store }
  return b

def changeStore (f : Store → Store) : Run Unit :=
  modify fun world => { world with store := f world.store }

/-- Only a handle can outlive its container, and it is told so; anything else that asks for a
released container gets the same answer. -/
def container (c : ContainerRef) : Run Container := do
  match (← get).container? c with
  | some container => return container
  | none => fail (.containerDropped "")

def changeContainer (c : ContainerRef) (f : Container → Container) : Run Unit := do
  let container ← Run.container c
  modify (·.put c (f container))

def cut (c : ContainerRef) (depth : Nat) (world : World) : World :=
  match world.container? c with
  | some container => world.put c (container.setLoading (container.loading.take depth))
  | none => world

/-- Runs `act` with `id` at the end of the container's chain. -/
def entering (c : ContainerRef) (id : String) (act : Run α) : Run α := do
  let container ← Run.container c
  let chain ← ofExcept (Chain.enter container.maxDepth container.loading id)
  changeContainer c (·.setLoading chain)
  ensuring act (cut c container.loading.length)

def announce (c : ContainerRef) (id : String) (notice : Option Deprecation) : Run Unit := do
  match notice, (← Run.container c).handler with
  | some notice, .journal => changeStore (·.record (.deprecated id notice))
  | _, _ => return ()

end Run
end Wiring
