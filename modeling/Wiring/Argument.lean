import Wiring.Entries
import Wiring.Value

/-!
Arguments as definitions state them, before any is evaluated: literals, references to services and
parameters, all services of a type, nested statements, and lists of arguments.
-/

namespace Wiring

/-- What a statement calls. -/
inductive Callee where
  | invocable (f : CallableRef)
  | construct (className : String)
  | service (id : String)
  | method (service name : String)
deriving DecidableEq, Inhabited, Repr

mutual

inductive Argument where
  | value (v : Value)
  | reference (target : String)
  | parameter (name : String)
  | collection (typeName : String)
  | statement (s : Statement)
  | list (items : List Argument)

inductive Statement where
  | mk (callee : Callee) (args : Arguments)

/-- By position, and by name in the order in which the names were first given. -/
inductive Arguments where
  | mk (positional : List Argument) (named : List (String × Argument))

end

instance : Inhabited Argument := ⟨.value .null⟩

namespace Arguments

def empty : Arguments := .mk [] []

instance : EmptyCollection Arguments := ⟨empty⟩

instance : Inhabited Arguments := ⟨∅⟩

def positional : Arguments → List Argument
  | .mk positional _ => positional

def named : Arguments → List (String × Argument)
  | .mk _ named => named

def isEmpty (args : Arguments) : Bool := args.positional.isEmpty && args.named.isEmpty

def push (args : Arguments) (arg : Argument) : Arguments :=
  .mk (args.positional ++ [arg]) args.named

/-- Positions in front that nobody has set hold nothing. -/
def set (args : Arguments) (index : Nat) (arg : Argument) : Arguments :=
  let missing := index + 1 - args.positional.length
  let padded := args.positional ++ List.replicate missing (.value .null)
  .mk (padded.set index arg) args.named

def insertNamed (args : Arguments) (name : String) (arg : Argument) : Arguments :=
  .mk args.positional (Entries.put name arg args.named)

/-- The other positions follow, and where both give a name the other's argument counts. -/
def merged (args other : Arguments) : Arguments :=
  .mk (args.positional ++ other.positional)
    (other.named.foldl (fun named entry => Entries.put entry.1 entry.2 named) args.named)

end Arguments

namespace Statement

def callee : Statement → Callee
  | .mk callee _ => callee

def args : Statement → Arguments
  | .mk _ args => args

instance : Inhabited Statement := ⟨.mk default ∅⟩

end Statement

namespace Arguments

variable {m : Type → Type} [Monad m]

def evaluateNamed (eval : Argument → m Value) :
    List (String × Argument) → Dict Value → m (Dict Value)
  | [], values => pure values
  | (name, arg) :: rest, values => do
      let value ← eval arg
      evaluateNamed eval rest (values.insert name value)

/-- Positions first, then names, each in order. -/
def evaluate (args : Arguments) (eval : Argument → m Value) : m CallArgs := do
  let positional ← args.positional.mapM eval
  let named ← evaluateNamed eval args.named ∅
  pure { positional, named }

end Arguments
end Wiring
