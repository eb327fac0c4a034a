import Wiring.Argument
import Wiring.Catalog
import Wiring.Deprecation

/-!
How a service is made: its entity, the entity's arguments, what is bound to it afterwards, how it
lives, and what decorates it. Builder functions take a definition and give the changed one.
-/

namespace Wiring

inductive Flag where
  | factory
  | lazy
  | hidden
  | autowired
deriving DecidableEq, Inhabited, Repr

structure Flags where
  /-- Made anew for every request. -/
  factory : Bool := false
  /-- Referred to through a handle. -/
  lazy : Bool := false
  /-- Reached by other definitions only. -/
  hidden : Bool := false
  /-- Found by its types. -/
  autowired : Bool := false
deriving DecidableEq, Inhabited, Repr

namespace Flags

def set (flags : Flags) (flag : Flag) (enabled : Bool) : Flags :=
  match flag with
  | .factory => { flags with factory := enabled }
  | .lazy => { flags with lazy := enabled }
  | .hidden => { flags with hidden := enabled }
  | .autowired => { flags with autowired := enabled }

def bits (flags : Flags) : Nat :=
  flags.factory.toNat + 2 * flags.lazy.toNat + 4 * flags.hidden.toNat + 8 * flags.autowired.toNat

def toList (flags : Flags) : List Flag :=
  (if flags.factory then [.factory] else []) ++ (if flags.lazy then [.lazy] else []) ++
    (if flags.hidden then [.hidden] else []) ++ (if flags.autowired then [.autowired] else [])

end Flags

inductive Entity where
  | construct (className : String)
  | value (v : Value)
  | invocable (f : CallableRef)
  | statement (s : Statement)
deriving Inhabited

inductive Binding where
  /-- Writes a property or calls a method. -/
  | member (name : String) (value : Argument)
  /-- Calls the value, if it is callable, with the new service. -/
  | extra (code : Argument)
deriving Inhabited

/-- Takes a service and gives the one that stands for it. -/
structure Decorator where
  name : String
  apply : ContainerRef → Value → Behaviour Value
deriving Inhabited

structure Definition where
  id : Option String := none
  entity : Entity
  arguments : Arguments := ∅
  bindings : List Binding := []
  flags : Flags := {}
  types : List String := []
  deprecation : Option Deprecation := none
  decorators : List Decorator := []
deriving Inhabited

/-- Binding under this name adds extra code. -/
def extraName : String := "@code@"

namespace Binding

def isMember (name : String) : Binding → Bool
  | .member other _ => other = name
  | .extra _ => false

/-- A member that is bound already keeps its place. -/
def put (name : String) (value : Argument) : List Binding → List Binding
  | [] => [.member name value]
  | binding :: rest =>
      if binding.isMember name then .member name value :: rest
      else binding :: put name value rest

end Binding

namespace Definition

def ofEntity (entity : Entity) : Definition := { entity }

def ofValue (v : Value) : Definition := .ofEntity (.value v)

/-- Only the first id counts. -/
def attach (definition : Definition) (id : String) : Definition :=
  match definition.id with
  | some _ => definition
  | none =>
      { definition with
        id := some id
        deprecation := definition.deprecation.map (·.named id) }

def replace (definition : Definition) (entity : Entity) (condition : Bool) : Definition :=
  if condition then { definition with entity } else definition

def withArguments (definition : Definition) (arguments : Arguments) : Definition :=
  { definition with arguments }

def arg (definition : Definition) (arg : Argument) : Definition :=
  { definition with arguments := definition.arguments.push arg }

def argAt (definition : Definition) (index : Nat) (arg : Argument) : Definition :=
  { definition with arguments := definition.arguments.set index arg }

def namedArg (definition : Definition) (name : String) (arg : Argument) : Definition :=
  { definition with arguments := definition.arguments.insertNamed name arg }

def extra (definition : Definition) (code : Argument) : Definition :=
  { definition with bindings := definition.bindings ++ [.extra code] }

def bind (definition : Definition) (name : String) (value : Argument) : Definition :=
  if name = extraName then definition.extra value
  else { definition with bindings := Binding.put name value definition.bindings }

def withFlags (definition : Definition) (flags : List Flag) (enabled : Bool) : Definition :=
  { definition with flags := flags.foldl (fun flags flag => flags.set flag enabled) definition.flags }

def typeOf (definition : Definition) (types : List String) : Definition :=
  { definition with types }

def autowire (definition : Definition) (types : List String) : Definition :=
  (definition.withFlags [.autowired] true).typeOf types

/-- Without a text of its own the notice gets the default one, at once if the definition has an id
and else when it is given one. -/
def markDeprecated (definition : Definition) (package version : String) (message : Option String) :
    Definition :=
  let message := message.getD ((definition.id.map Deprecation.defaultMessage).getD "")
  { definition with deprecation := some { package, version, message } }

def decorate (definition : Definition) (decorator : Decorator) : Definition :=
  { definition with decorators := definition.decorators ++ [decorator] }

/-- A service that is the value itself. -/
def isRaw (definition : Definition) : Bool :=
  match definition.entity with
  | .value _ => true
  | _ => false

/-- The types of an entity that names its class or its callable. -/
def entityTypes (catalog : Catalog) : Entity → List String
  | .construct className => catalog.typesOf className
  | .invocable f => f.returns
  | .value (.object o) => catalog.typesOf o.className
  | .value _ => []
  | .statement s =>
      match s.callee with
      | .construct className => catalog.typesOf className
      | .invocable f => f.returns
      | .service _ => []
      | .method .. => []

/-- Stated types go before those of the entity. -/
def declaredTypes (definition : Definition) (catalog : Catalog) : List String :=
  if definition.types.isEmpty then entityTypes catalog definition.entity else definition.types

end Definition
end Wiring
