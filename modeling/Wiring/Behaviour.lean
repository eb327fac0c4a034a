import Wiring.Error
import Wiring.Value

/-!
User code. A behaviour is a tree of requests: it asks for something, goes on with the answer, and
ends with a value or an error. It may keep a state of its own (counters, properties of objects), call
back into a container, force handles, invoke callables, and survive the errors that it gets.
-/

namespace Wiring

structure ContainerRef where
  index : Nat
deriving DecidableEq, Inhabited, Repr

structure ResolveOptions where
  /-- A type with several candidates gives all of them. -/
  ignoreAmbiguity : Bool := false
  /-- The service is made without being cached. -/
  ignoreFreezing : Bool := false
deriving DecidableEq, Inhabited, Repr

/-- What user code leaves in the journal. -/
inductive Note where
  | label (text : String)
  | teardown (label className : String) (name : Json)
deriving Inhabited

inductive Request where
  | note (note : Note)
  | allocate (className : String)
  | properties (o : ObjectRef)
  | setProperty (o : ObjectRef) (name : String) (value : Value)
  | count (key : String)
  | get (c : ContainerRef) (id : String) (options : ResolveOptions)
  | reference (c : ContainerRef) (id : String)
  | has (c : ContainerRef) (id : String)
  | keys (c : ContainerRef)
  | parameter (c : ContainerRef) (name : String)
  | tagged (c : ContainerRef) (tag : String)
  | initialized (c : ContainerRef) (id : String)
  | reset (c : ContainerRef)
  | invoke (c : ContainerRef) (f : CallableRef) (args : CallArgs)
  | force (l : LazyRef)
deriving Inhabited

abbrev Request.Reply : Request → Type
  | .note _ => Unit
  | .allocate _ => ObjectRef
  | .properties _ => Dict Value
  | .setProperty .. => Unit
  | .count _ => Int64
  | .get .. => Except Error Value
  | .reference .. => Except Error Value
  | .has .. => Bool
  | .keys _ => List String
  | .parameter .. => Except Error Value
  | .tagged .. => Except Error (List (Value × Value))
  | .initialized .. => Bool
  | .reset _ => Unit
  | .invoke .. => Except Error Value
  | .force _ => Except Error Value

inductive Behaviour (α : Type) : Type where
  | done (result : Except Error α)
  | ask (request : Request) (next : request.Reply → Behaviour α)

namespace Behaviour

variable {α β : Type}

instance : Inhabited (Behaviour α) := ⟨.done (.error default)⟩

def bind : Behaviour α → (α → Behaviour β) → Behaviour β
  | .done (.ok a), next => next a
  | .done (.error e), _ => .done (.error e)
  | .ask request rest, next => .ask request fun reply => (rest reply).bind next

instance : Monad Behaviour where
  pure a := .done (.ok a)
  bind := bind

def fail (error : Error) : Behaviour α := .done (.error error)

def ofExcept (result : Except Error α) : Behaviour α := .done result

def request (r : Request) : Behaviour r.Reply := .ask r fun reply => .done (.ok reply)

/-- Passes on the error of a request that can fail. -/
def demand (answer : Behaviour (Except Error α)) : Behaviour α := do
  ofExcept (← answer)

/-- Goes on with the error instead of ending in it. -/
def attempt : Behaviour α → Behaviour (Except Error α)
  | .done result => .done (.ok result)
  | .ask request rest => .ask request fun reply => (rest reply).attempt

def setProperties (o : ObjectRef) : List (String × Value) → Behaviour Unit
  | [] => pure ()
  | (name, value) :: rest => do
      request (.setProperty o name value)
      setProperties o rest

def property? (o : ObjectRef) (name : String) : Behaviour (Option Value) := do
  let properties ← request (.properties o)
  return properties.get? name

@[simp]
theorem bind_done_ok (a : α) (next : α → Behaviour β) : (done (.ok a)).bind next = next a := rfl

@[simp]
theorem bind_done_error (e : Error) (next : α → Behaviour β) :
    (done (.error e)).bind next = .done (.error e) := rfl

end Behaviour

/-- The code of a callable: it is given the container that calls it. -/
abbrev Code := ContainerRef → CallArgs → Behaviour Value

end Wiring
