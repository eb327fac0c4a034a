import Wiring.Compilation
import Wiring.World

/-!
Where registrations arrive: at a registry, at a builder, which compiles what it has collected, or at
a running container, whose cache has to follow.
-/

namespace Wiring

/-- Hooks first; what they register is compiled too, and stays registered. -/
def Registering.compile (config : Config) : Registering Program := do
  Registry.beforeCompile
  ExceptT.mk (return (← get).registry.compile config)

structure Builder where
  registry : Registry := ∅
  config : Config := {}
  handler : NoticeHandler := .journal
deriving Inhabited

namespace Builder

/-- A decorator reaches its service through aliases. -/
def throughAlias (registry : Registry) : Registration → Registration
  | .decorate id decorator => .decorate (registry.resolveAlias id) decorator
  | op => op

def register (builder : Builder) (store : Store) (op : Registration) :
    Except Error Unit × Builder × Store :=
  let (result, setup) := (throughAlias builder.registry op).run.run ⟨builder.registry, store⟩
  (result, { builder with registry := setup.registry }, setup.store)

def compile (builder : Builder) (store : Store) : Except Error Program × Builder × Store :=
  let (result, setup) := (Registering.compile builder.config).run ⟨builder.registry, store⟩
  (result, { builder with registry := setup.registry }, setup.store)

/-- The container that runs `program`. -/
def load (builder : Builder) (program : Program) : Machine :=
  .load program builder.registry.catalog builder.config.maxDepth builder.handler

end Builder

/-- Removal and decoration look at the cache; everything else goes to the registry alone. -/
def Interpreter.register (container : Interpreter) (store : Store) :
    Registration → Except Error Unit × Interpreter × Store
  | .remove id => (.ok (), container.remove id, store)
  | .decorate id decorator =>
      match container.extend id decorator with
      | .ok container => (.ok (), container, store)
      | .error error => (.error error, container, store)
  | op =>
      let (result, setup) := op.run.run ⟨container.registry, store⟩
      (result, { container with registry := setup.registry }, setup.store)

/-- A registration at the container `c`; a container that runs a program takes none. -/
def World.register (world : World) (c : ContainerRef) (op : Registration) :
    Except Error Unit × World :=
  match world.container? c with
  | some (.interpreting container) =>
      let (result, container, store) := container.register world.store op
      (result, { world with store }.put c (.interpreting container))
  | _ => (.ok (), world)

end Wiring
