import Wiring.Builder
import Wiring.Resolution

/-!
A bench: a place where registrations arrive, and the two containers that are made from what has
arrived, one that interprets it and one that runs it compiled. Where the registrations arrive at the
interpreting container itself, the two containers and the registrations share their world.
-/

namespace Wiring

inductive Host where
  | registry (registry : Registry)
  | builder (registry : Registry)
  | container
deriving Inhabited

structure Bench where
  world : World := {}
  host : Host := .registry ∅
  config : Config := {}
  handler : NoticeHandler := .journal
  interpreting : Option ContainerRef := none
  running : Option ContainerRef := none
deriving Inhabited

abbrev Benching := StateM Bench

namespace Bench

/-- For a container, what it has registered so far. -/
def registry (bench : Bench) : Registry :=
  match bench.host with
  | .registry registry => registry
  | .builder registry => registry
  | .container =>
      match bench.interpreting.bind bench.world.container? with
      | some (.interpreting container) => container.registry
      | _ => ∅

def builder (bench : Bench) : Builder :=
  { registry := bench.registry, config := bench.config, handler := bench.handler }

/-- The definition for an id; a container goes through its aliases. -/
def definition? (bench : Bench) (id : String) : Option Definition :=
  match bench.host with
  | .container => bench.registry.definition? (bench.registry.resolveAlias id)
  | _ => bench.registry.definition? id

def store (bench : Bench) : Store := bench.world.store

def onStore {α : Type} (f : Store → α × Store) : Benching α :=
  modifyGet fun bench =>
    let (a, store) := f bench.world.store
    (a, { bench with world := { bench.world with store } })

def onWorld {α : Type} (f : World → α × World) : Benching α :=
  modifyGet fun bench =>
    let (a, world) := f bench.world
    (a, { bench with world })

/-- Puts a container with the bench's classes into the interpreting place. -/
def start (catalog : Catalog) : Benching Unit := do
  let bench ← get
  let registry : Registry := { (∅ : Registry) with catalog }
  match bench.host with
  | .registry _ => set { bench with host := .registry registry }
  | .builder _ => set { bench with host := .builder registry }
  | .container =>
      let c ← onWorld (·.add (.interpreting (.ofRegistry registry bench.config bench.handler)))
      modify fun bench => { bench with interpreting := some c }

def register (op : Registration) : Benching (Except Error Unit) := do
  let bench ← get
  match bench.host with
  | .registry registry =>
      let (result, setup) := op.run.run ⟨registry, bench.store⟩
      set { bench with
        host := .registry setup.registry
        world := { bench.world with store := setup.store } }
      return result
  | .builder _ =>
      let (result, builder, store) := bench.builder.register bench.store op
      set { bench with host := .builder builder.registry, world := { bench.world with store } }
      return result
  | .container =>
      match bench.interpreting with
      | none => return .ok ()
      | some c => onWorld (·.register c op)

/-- Stops at the first registration that fails. -/
def registerAll : List Registration → Benching (Except Error Unit)
  | [] => return .ok ()
  | op :: rest => do
      match ← register op with
      | .ok _ => registerAll rest
      | .error error => return .error error

/-- A bare registry is compiled as it is; otherwise the hooks of its providers go first. What they
register stays with a builder and is forgotten by a container. -/
def compile : Benching (Except Error Program) := do
  let bench ← get
  match bench.host with
  | .registry registry => return registry.compile bench.config
  | host =>
      let (result, builder, store) := bench.builder.compile bench.store
      let host := match host with
        | .builder _ => .builder builder.registry
        | other => other
      set { bench with host, world := { bench.world with store } }
      return result

def releaseRunning : Benching Unit :=
  modify fun bench =>
    match bench.running with
    | some c => { bench with world := bench.world.release c, running := none }
    | none => bench

def releaseInterpreting : Benching Unit :=
  modify fun bench =>
    match bench.interpreting with
    | some c => { bench with world := bench.world.release c, interpreting := none }
    | none => bench

/-- A new interpreting container, with an empty cache, from what is registered. -/
def load : Benching Unit := do
  let bench ← get
  releaseInterpreting
  let container := Interpreter.ofRegistry bench.registry bench.config bench.handler
  let c ← onWorld (·.add (.interpreting container))
  modify fun bench => { bench with interpreting := some c }

/-- Compiles and puts the program into the running place; the container that was there goes first.
The program runs with the classes that are registered by then, so that those which a container's
hooks registered are forgotten with the rest. -/
def build : Benching (Except Error Program) := do
  releaseRunning
  match ← compile with
  | .error error => return .error error
  | .ok program =>
      let machine := (← get).builder.load program
      let c ← onWorld (·.add (.running machine))
      modify fun bench => { bench with running := some c }
      return .ok program

/-- The answer of a run that was given up. -/
def tooDeep : Error := .resolutionDepthExceeded "" nestingLimit

def perform {α : Type} (act : Run α) : Benching (Except Error α) := do
  match ← onWorld act.run with
  | .ok a => return .ok a
  | .error (.error error) => return .error error
  | .error .unfinished => return .error tooDeep

def ask (request : Request) : Benching (Except Error request.Reply) := perform request.answer

/-- User code outside any container. -/
def runAlone {α : Type} (behaviour : Behaviour α) : Benching (Except Error α) :=
  perform (behaviour.run (Call.run nestingLimit))

end Bench
end Wiring
