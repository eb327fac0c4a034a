import Wiring.AliasTable
import Wiring.Definition
import Wiring.Store
import Wiring.TypeIndex

/-!
What is registered: definitions, aliases, types, tags, parameters, classes and providers. A frozen
id accepts no new definition and no change of the one it has.

A provider is registration code. Like user code it is a tree: it makes fresh values, performs
registrations one after the other, and goes on with the outcome of each.
-/

namespace Wiring

mutual

inductive Registration where
  | set (id : String) (definition : Definition)
  | autowire (id : String) (definition : Definition) (types : List String)
  | update (id : String) (change : Definition → Definition)
  | decorate (id : String) (decorator : Decorator)
  | remove (id : String)
  | addAlias (name target : String)
  | tag (id tag : String) (attributes : Value)
  | parameter (name : String) (value : Value)
  | registerClass (spec : ClassSpec)
  | exclude (typeName : String)
  | freeze (id : String)
  | resetRuntimeState
  | reindex
  | provider (provider : Provider) (config : Value)

inductive Provider where
  | mk (name : String) (register : Value → Hook) (beforeCompile : Hook)

/-- What the code of a provider does, step by step. What it goes on with may depend on what it has
created and on how each step on the registry came out; that it can also read the registry is left out.
No run is lost by that. What code reads on a given run is settled by what was done before, so the run
is that of the hook which takes the same steps without reading. -/
inductive Hook where
  | done
  | fail (error : Error)
  | record (event : Event) (next : Hook)
  | create (what : Store.Creation) (next : Value → Hook)
  | perform (step : Registration) (next : Except Error Unit → Hook)

end

instance : Inhabited Hook := ⟨.done⟩

instance : Inhabited Provider := ⟨.mk "" (fun _ => .done) .done⟩

/-- Each id gets each tag, without attributes. -/
def Registration.tagAll (ids tags : List String) : List Registration :=
  ids.flatMap fun id => tags.map fun tag => .tag id tag .null

namespace Provider

def name : Provider → String
  | .mk name _ _ => name

def beforeCompile : Provider → Hook
  | .mk _ _ hook => hook

end Provider

structure Registry where
  definitions : Table Definition := ∅
  aliases : AliasTable := ∅
  types : TypeIndex := ∅
  tags : Table (Table Value) := ∅
  parameters : Dict Value := ∅
  catalog : Catalog := ∅
  providers : List Provider := []
  frozen : NameSet := ∅

namespace Registry

instance : EmptyCollection Registry := ⟨{ definitions := ∅ }⟩

instance : Inhabited Registry := ⟨∅⟩

def definition? (registry : Registry) (id : String) : Option Definition :=
  registry.definitions.get? id

def contains (registry : Registry) (id : String) : Bool := registry.definitions.contains id

def isHidden (registry : Registry) (id : String) : Bool :=
  (registry.definition? id).any fun definition => definition.flags.hidden

def isLazy (registry : Registry) (id : String) : Bool :=
  (registry.definition? id).any fun definition => definition.flags.lazy

def isFrozen (registry : Registry) (id : String) : Bool := registry.frozen.contains id

/-- Public ids in registration order. -/
def keys (registry : Registry) : List String :=
  registry.definitions.keys.filter fun id => !registry.isHidden id

def sortedIds (registry : Registry) : List String :=
  (Dict.ofList registry.definitions.entries).keys

def resolveAlias (registry : Registry) (id : String) : String := registry.aliases.resolve id

/-- The services that stand for a type. -/
def candidates (registry : Registry) (typeName : String) : List String :=
  selectCandidates registry.isHidden (registry.types.lookup typeName)

/-- Whether the public can resolve the id, alias or type. -/
def has (registry : Registry) (id : String) : Bool :=
  let canonical := registry.resolveAlias id
  match registry.definition? canonical with
  | some definition => !definition.flags.hidden
  | none => !(registry.candidates canonical).isEmpty

def parameter (registry : Registry) (name : String) : Except Error Value :=
  match registry.parameters.get? name with
  | some value => .ok value
  | none => .error (.parameterNotFound name)

/-- Services with the tag and its attributes, in the order in which services were first tagged. -/
def tagged (registry : Registry) (tag : String) : List (String × Value) :=
  registry.tags.entries.filterMap fun entry => (entry.2.get? tag).map (entry.1, ·)

def ensureNotFrozen (registry : Registry) (id : String) : Except Error Unit :=
  if registry.isFrozen id then .error (.frozenConflict id) else .ok ()

def indexTypes (registry : Registry) (id : String) (definition : Definition) : TypeIndex :=
  if definition.flags.autowired then
    registry.types.register id (definition.declaredTypes registry.catalog)
  else registry.types.erase id

/-- Puts an attached definition under its id and indexes its types. -/
def place (registry : Registry) (id : String) (definition : Definition) : Registry :=
  { registry with
    types := registry.indexTypes id definition
    definitions := registry.definitions.insert id definition }

/-- A definition displaces an alias of the same name. -/
def set (registry : Registry) (id : String) (definition : Definition) :
    Except Error Registry := do
  registry.ensureNotFrozen id
  return { registry with aliases := registry.aliases.erase id }.place id (definition.attach id)

def autowire (registry : Registry) (id : String) (definition : Definition)
    (types : List String) : Except Error Registry :=
  registry.set id (definition.autowire types)

def update (registry : Registry) (id : String) (change : Definition → Definition) :
    Except Error Registry := do
  registry.ensureNotFrozen id
  match registry.definition? id with
  | none => .error (.notFound id)
  | some definition => return registry.place id ((change definition).attach id)

def decorate (registry : Registry) (id : String) (decorator : Decorator) :
    Except Error Registry := do
  registry.ensureNotFrozen id
  match registry.definition? id with
  | none => .error (.notFound id)
  | some definition =>
      return { registry with
        definitions := registry.definitions.insert id (definition.decorate decorator) }

/-- The definition goes, and with it everything that is kept under its id or leads to it. -/
def remove (registry : Registry) (id : String) : Registry :=
  { registry with
    definitions := registry.definitions.erase id
    types := registry.types.erase id
    tags := registry.tags.erase id
    aliases := (registry.aliases.erase id).eraseTargeting id
    frozen := registry.frozen.erase id }

/-- The target has to lead to a definition or to an indexed type. -/
def addAlias (registry : Registry) (name target : String) : Except Error Registry := do
  if name = target then .error (.aliasToItself name)
  else
    let canonical := registry.resolveAlias target
    if registry.contains canonical || registry.types.contains canonical then
      return { registry with aliases := ← registry.aliases.insert name target }
    else .error (.notFound target)

def tag (registry : Registry) (id tag : String) (attributes : Value) : Registry :=
  let held := (registry.tags.get? id).getD ∅
  { registry with tags := registry.tags.insert id (held.insert tag attributes) }

def setParameter (registry : Registry) (name : String) (value : Value) : Registry :=
  { registry with parameters := registry.parameters.insert name value }

def exclude (registry : Registry) (typeName : String) : Registry :=
  { registry with types := registry.types.exclude typeName }

def indexEntry (catalog : Catalog) (index : TypeIndex) (entry : String × Definition) :
    TypeIndex :=
  if entry.2.flags.autowired then index.register entry.1 (entry.2.declaredTypes catalog)
  else index

/-- Builds the index again, in registration order. -/
def reindex (registry : Registry) : Registry :=
  { registry with
    types := registry.definitions.entries.foldl (indexEntry registry.catalog)
      registry.types.clear }

/-- A class may change what its implementers' services stand for. -/
def registerClass (registry : Registry) (spec : ClassSpec) : Registry :=
  { registry with catalog := registry.catalog.register spec }.reindex

def freeze (registry : Registry) (id : String) : Registry :=
  { registry with frozen := registry.frozen.add id }

/-- Frozen ids and tags go; definitions and aliases stay. -/
def resetRuntimeState (registry : Registry) : Registry :=
  { registry with frozen := ∅, tags := ∅ }

/-- Configuration that says something is kept as a service and as a parameter. -/
def keepConfig (registry : Registry) (name : String) (config : Value) :
    Except Error Registry := do
  if config.isVacant then return registry
  else return (← registry.set (name ++ ".config") (.ofValue config)).setParameter name config

def addProvider (registry : Registry) (provider : Provider) : Registry :=
  { registry with providers := registry.providers ++ [provider] }

end Registry

/-- What registration code works on. It keeps what it has done when it fails. -/
structure Setup where
  registry : Registry
  store : Store
deriving Inhabited

abbrev Registering := ExceptT Error (StateM Setup)

namespace Registering

def change (f : Registry → Except Error Registry) : Registering Unit := do
  let setup ← get
  match f setup.registry with
  | .ok registry => set { setup with registry }
  | .error error => throw error

def record (event : Event) : Registering Unit :=
  modify fun setup => { setup with store := setup.store.record event }

def create (what : Store.Creation) : Registering Value := do
  let setup ← get
  let (value, store) := setup.store.create what
  set { setup with store }
  return value

def outcome (act : Registering Unit) : Registering (Except Error Unit) :=
  ExceptT.mk (do return .ok (← act.run))

end Registering

open Registering in
mutual

def Registration.run : Registration → Registering Unit
  | .set id definition => change (·.set id definition)
  | .autowire id definition types => change (·.autowire id definition types)
  | .update id f => change (·.update id f)
  | .decorate id decorator => change (·.decorate id decorator)
  | .remove id => change fun registry => .ok (registry.remove id)
  | .addAlias name target => change (·.addAlias name target)
  | .tag id tag attributes => change fun registry => .ok (registry.tag id tag attributes)
  | .parameter name value => change fun registry => .ok (registry.setParameter name value)
  | .registerClass spec => change fun registry => .ok (registry.registerClass spec)
  | .exclude typeName => change fun registry => .ok (registry.exclude typeName)
  | .freeze id => change fun registry => .ok (registry.freeze id)
  | .resetRuntimeState => change fun registry => .ok registry.resetRuntimeState
  | .reindex => change fun registry => .ok registry.reindex
  | .provider provider config => provider.install config

/-- A provider that fails is not added, but what it registered stays. -/
def Provider.install : Provider → Value → Registering Unit
  | .mk name register beforeCompile, config => do
      change (·.keepConfig name config)
      (register config).run
      change fun registry => .ok (registry.addProvider (.mk name register beforeCompile))

def Hook.run : Hook → Registering Unit
  | .done => return ()
  | .fail error => throw error
  | .record event next => do
      Registering.record event
      next.run
  | .create what next => do
      let value ← Registering.create what
      (next value).run
  | .perform step next => do
      let result ← outcome step.run
      (next result).run

end

/-- Runs the hooks of all providers in the order of their registration. -/
def Registry.beforeCompile : Registering Unit := do
  let providers := (← get).registry.providers
  providers.forM fun provider => provider.beforeCompile.run

end Wiring
