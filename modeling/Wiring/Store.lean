import Wiring.Behaviour
import Wiring.Deprecation

/-!
What references refer to: properties of objects, cells of lazy handles, code of callables. Beside
them stand the counters of user code and the journal of what happened, in order.
-/

namespace Wiring

inductive Event where
  | noted (note : Note)
  | deprecated (id : String) (notice : Deprecation)
  | beforeCompile (provider : String)
deriving Inhabited

/-- A handle holds on to its container's name, not to the container. -/
structure LazyCell where
  home : Option ContainerRef := none
  value : Option Value := none
deriving Inhabited

structure Store where
  objects : Array (Dict Value) := #[]
  cells : Array LazyCell := #[]
  code : Array Code := #[]
  counters : Dict Int64 := ∅
  journal : Array Event := #[]
deriving Inhabited

namespace Store

def record (store : Store) (event : Event) : Store :=
  { store with journal := store.journal.push event }

def allocate (store : Store) (className : String) : ObjectRef × Store :=
  (⟨store.objects.size, className⟩, { store with objects := store.objects.push ∅ })

def properties (store : Store) (o : ObjectRef) : Dict Value :=
  (store.objects[o.address]?).getD ∅

def setProperty (store : Store) (o : ObjectRef) (name : String) (value : Value) : Store :=
  { store with objects := store.objects.modify o.address (·.insert name value) }

/-- Adds one, from zero, and gives the sum; it wraps around at 64 bits. -/
def count (store : Store) (key : String) : Int64 × Store :=
  let next := (store.counters.get? key).getD 0 + 1
  (next, { store with counters := store.counters.insert key next })

def addCode (store : Store) (name : String) (returns : List String) (code : Code) :
    CallableRef × Store :=
  (⟨store.code.size, name, returns⟩, { store with code := store.code.push code })

def codeOf? (store : Store) (f : CallableRef) : Option Code := store.code[f.address]?

def addHandle (store : Store) (target : String) (home : Option ContainerRef) :
    LazyRef × Store :=
  (⟨store.cells.size, target⟩, { store with cells := store.cells.push { home } })

def cell (store : Store) (l : LazyRef) : LazyCell := (store.cells[l.address]?).getD {}

/-- The first value stays. -/
def settle (store : Store) (l : LazyRef) (value : Value) : Value × Store :=
  match (store.cell l).value with
  | some held => (held, store)
  | none =>
      (value, { store with cells := store.cells.modify l.address ({ · with value := some value }) })

/-- Fresh things that registration code may make. -/
inductive Creation where
  | object (className : String) (properties : Dict Value)
  | callable (name : String) (returns : List String) (code : Code)
  | deadHandle (target : String)

def create (store : Store) : Creation → Value × Store
  | .object className properties =>
      (.object ⟨store.objects.size, className⟩,
        { store with objects := store.objects.push properties })
  | .callable name returns code =>
      let (f, store) := store.addCode name returns code
      (.callable f, store)
  | .deadHandle target =>
      let (l, store) := store.addHandle target none
      (.handle l, store)

end Store
end Wiring
