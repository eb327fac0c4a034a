import Wiring.Dict

/-!
Service values. Plain data is compared by content; objects, callables and lazy handles are
references, compared by address. A reference carries what never changes about its referent (an
object's class, a callable's name and declared types, a handle's target); what may change is kept in
the store.
-/

namespace Wiring

structure ObjectRef where
  address : Nat
  className : String
deriving DecidableEq, Inhabited, Repr

structure CallableRef where
  address : Nat
  name : String
  returns : List String
deriving DecidableEq, Inhabited, Repr

structure LazyRef where
  address : Nat
  target : String
deriving DecidableEq, Inhabited, Repr

/-- The entries of a `map` stand in ascending order of their keys. -/
inductive Value where
  | null
  | bool (b : Bool)
  | int (n : Int64)
  | float (x : Float)
  | str (text : String)
  | list (items : List Value)
  | map (entries : List (String × Value))
  | object (o : ObjectRef)
  | callable (f : CallableRef)
  | handle (l : LazyRef)
deriving Inhabited

namespace Value

def ofDict (dict : Dict Value) : Value := .map dict.entries

def strings (items : List String) : Value := .list (items.map .str)

mutual

/-- A floating-point number that is not a number differs from itself. -/
def equal : Value → Value → Bool
  | .null, .null => true
  | .bool a, .bool b => a == b
  | .int a, .int b => a == b
  | .float a, .float b => a == b
  | .str a, .str b => a == b
  | .list a, .list b => equalItems a b
  | .map a, .map b => equalEntries a b
  | .object a, .object b => a.address == b.address
  | .callable a, .callable b => a.address == b.address
  | .handle a, .handle b => a.address == b.address
  | _, _ => false

def equalItems : List Value → List Value → Bool
  | [], [] => true
  | a :: as, b :: bs => equal a b && equalItems as bs
  | _, _ => false

def equalEntries : List (String × Value) → List (String × Value) → Bool
  | [], [] => true
  | (j, a) :: as, (k, b) :: bs => j == k && equal a b && equalEntries as bs
  | _, _ => false

end

instance : BEq Value := ⟨equal⟩

def isNull : Value → Bool
  | .null => true
  | _ => false

def int? : Value → Option Int64
  | .int n => some n
  | _ => none

def str? : Value → Option String
  | .str text => some text
  | _ => none

def list? : Value → Option (List Value)
  | .list items => some items
  | _ => none

def map? : Value → Option (List (String × Value))
  | .map entries => some entries
  | _ => none

def object? : Value → Option ObjectRef
  | .object o => some o
  | _ => none

def callable? : Value → Option CallableRef
  | .callable f => some f
  | _ => none

def handle? : Value → Option LazyRef
  | .handle l => some l
  | _ => none

theorem int?_eq_some {v : Value} {n : Int64} : v.int? = some n ↔ v = .int n := by
  cases v <;> simp [int?]

/-- Values are not compared in general, since floating-point numbers are not. -/
instance (v : Value) (n : Int64) : Decidable (v = .int n) := decidable_of_iff _ int?_eq_some

/-- Nothing, an empty list and an empty map. -/
def isVacant : Value → Bool
  | .null => true
  | .list items => items.isEmpty
  | .map entries => entries.isEmpty
  | _ => false

end Value

structure CallArgs where
  positional : List Value := []
  named : Dict Value := ∅
deriving Inhabited

namespace CallArgs

def ofList (values : List Value) : CallArgs := { positional := values }

def isEmpty (args : CallArgs) : Bool := args.positional.isEmpty && args.named.isEmpty

/-- The first argument by position; nothing where there is none. -/
def first (args : CallArgs) : Value := args.positional.headD .null

def equal (a b : CallArgs) : Bool :=
  Value.equalItems a.positional b.positional && Value.equalEntries a.named.entries b.named.entries

end CallArgs
end Wiring
