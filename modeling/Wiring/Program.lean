import Wiring.Definition

/-!
Compiled programs: one routine for each definition, in ascending order of their ids. A routine
refers to another by its position and names its id beside it.
-/

namespace Wiring

/-- Another routine. -/
structure Link where
  id : String
  position : Nat
deriving DecidableEq, Inhabited, Repr

mutual

/-- What a routine evaluates. The arguments of `callService` and of `callMethod` are handed to another
routine and to nothing else: that is the only callee the compiler ever writes there. So the callee is
kept as the link to it, and every compiled program can be written in this form. -/
inductive Expr where
  | literal (v : Value)
  | construct (className : String) (args : ExprArgs)
  | invoke (f : CallableRef) (args : ExprArgs)
  | callService (service : Link) (args : ExprArgs)
  | callMethod (service : Link) (method : String) (args : ExprArgs)
  | service (link : Link)
  | handle (link : Link)
  | parameter (name : String)
  | list (items : List Expr)

inductive ExprArgs where
  | mk (positional : List Expr) (named : List (String × Expr))

end

instance : Inhabited Expr := ⟨.literal .null⟩

namespace ExprArgs

def positional : ExprArgs → List Expr
  | .mk positional _ => positional

def named : ExprArgs → List (String × Expr)
  | .mk _ named => named

end ExprArgs

inductive BindingOp where
  | member (name : String) (value : Expr)
  | extra (code : Expr)
deriving Inhabited

inductive Visibility where
  | exposed
  | hidden
deriving DecidableEq, Inhabited, Repr

inductive CacheTable where
  | services
  | privates
deriving DecidableEq, Inhabited, Repr

structure Routine where
  id : String
  method : String
  visibility : Visibility
  /-- None for a service that is made anew each time. -/
  cache : Option CacheTable
  lazy : Bool
  returnTypes : List String
  deprecation : Option Deprecation
  body : Expr
  bindings : List BindingOp
  decorators : List Decorator
deriving Inhabited

structure Program where
  containerClass : String
  routines : List Routine
  methods : Dict String
  types : Dict (List String)
  aliases : Dict String
  parameters : Dict Value
  /-- For each tag, the services and their attributes. -/
  tags : Dict (Dict Value)
  privateServices : Nat
deriving Inhabited

namespace Program

/-- Looks in the middle of `size` routines from `low` on, and then in one of the halves. -/
def search (routines : List Routine) (id : String) (low size : Nat) : Option Nat :=
  if size = 0 then none
  else
    let middle := low + size / 2
    match routines[middle]? with
    | none => none
    | some routine =>
        if routine.id = id then some middle
        else if routine.id < id then search routines id (middle + 1) (size - size / 2 - 1)
        else search routines id low (size / 2)
termination_by size

/-- Routines are in ascending order of their ids. -/
def position? (program : Program) (id : String) : Option Nat :=
  search program.routines id 0 program.routines.length

def routine? (program : Program) (id : String) : Option Routine :=
  program.routines.find? (·.id = id)

end Program
end Wiring
