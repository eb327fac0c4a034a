import Wiring.Definition
import Wiring.Value.Encoding

/-!
Scripted user code: a small language for callables, methods, constructors and teardowns, given as
data and turned into behaviours. A script that is run without a container cannot ask for one, and
then leaves its first argument uncalled.
-/

namespace Wiring

mutual

inductive Script where
  | step (label : Option String) (action : Action)
  | held (f : CallableRef)

inductive Action where
  | nothing
  | constant (v : Value)
  | arguments
  | positionals
  | position (index : Nat)
  | named (key : String)
  | create (className : String)
  | get (id : String) (options : ResolveOptions)
  | reference (id : String)
  | has (id : String)
  | keys
  | parameter (name : String)
  | tagged (tag : String)
  | reset
  | fail (error : Error)
  | count (key : String)
  | sum
  | setProperty (name : String) (value : Script)
  | property (name : String)
  | sequence (steps : List Script)
  | attempt (script : Script)
  | force
  | call

end

instance : Inhabited Script := ⟨.step none .nothing⟩

namespace Script

def noLocator : Error := .notFound "no locator"

/-- Asks the container, if there is one. -/
def located {α : Type} (locator : Option ContainerRef) (ask : ContainerRef → Behaviour α) :
    Behaviour α :=
  match locator with
  | some c => ask c
  | none => .fail noLocator

def note (label : Option String) : Behaviour Unit :=
  match label with
  | some text => .request (.note (.label text))
  | none => return ()

def argumentsValue (args : CallArgs) : Value :=
  .ofDict (.ofList [("positional", .list args.positional), ("named", .ofDict args.named)])

/-- Sixty-four bits, wrapping around; only integers count. -/
def sum (values : List Value) : Int64 :=
  values.foldl (fun total value => total + value.int?.getD 0) 0

def newInstance (className : String) (args : CallArgs) : Behaviour Value := do
  let o ← .request (.allocate className)
  if !args.positional.isEmpty then
    .request (.setProperty o "args" (.list args.positional))
  Behaviour.setProperties o args.named.entries
  return .object o

def pairs (services : List (Value × Value)) : Value :=
  .list (services.map fun entry => .list [entry.1, entry.2])

def readProperty (value : Value) (name : String) : Behaviour Value :=
  match value with
  | .object o => return (← Behaviour.property? o name).getD .null
  | _ => return .null

def forced (value : Value) : Behaviour Value :=
  match value with
  | .handle l => .demand (.request (.force l))
  | value => return value

/-- The first argument, called with the others if it is callable. -/
def callFirst (locator : Option ContainerRef) (args : CallArgs) : Behaviour Value :=
  match args.first, locator with
  | .callable f, some c =>
      .demand (.request (.invoke c f { args with positional := args.positional.drop 1 }))
  | first, _ => return first

mutual

def run (locator : Option ContainerRef) : Script → CallArgs → Behaviour Value
  | .step label action, args => do
      note label
      act locator action args
  | .held f, args => located locator fun c => .demand (.request (.invoke c f args))

def act (locator : Option ContainerRef) : Action → CallArgs → Behaviour Value
  | .nothing, _ => return .null
  | .constant v, _ => return v
  | .arguments, args => return argumentsValue args
  | .positionals, args => return .list args.positional
  | .position index, args => return (args.positional[index]?).getD .null
  | .named key, args => return (args.named.get? key).getD .null
  | .create className, args => newInstance className args
  | .get id options, _ => located locator fun c => .demand (.request (.get c id options))
  | .reference id, _ => located locator fun c => .demand (.request (.reference c id))
  | .has id, _ => located locator fun c => do return .bool (← .request (.has c id))
  | .keys, _ => located locator fun c => do return .strings (← .request (.keys c))
  | .parameter name, _ => located locator fun c => .demand (.request (.parameter c name))
  | .tagged tag, _ => located locator fun c => do
      return pairs (← .demand (.request (.tagged c tag)))
  | .reset, _ => located locator fun c => do
      .request (.reset c)
      return .null
  | .fail error, _ => .fail error
  | .count key, _ => do return .int (← .request (.count key))
  | .sum, args => return .int (sum args.positional)
  | .setProperty name value, args =>
      match args.first with
      | .object o => do
          let value ← run locator value args
          .request (.setProperty o name value)
          return .object o
      | first => return first
  | .property name, args => readProperty args.first name
  | .sequence steps, args => runAll locator steps args .null
  | .attempt script, args => do
      match ← (run locator script args).attempt with
      | .ok value => return value
      | .error error => return .ofJson error.report
  | .force, args => forced args.first
  | .call, args => callFirst locator args

def runAll (locator : Option ContainerRef) : List Script → CallArgs → Value → Behaviour Value
  | [], _, last => return last
  | script :: rest, args, _ => do
      let value ← run locator script args
      runAll locator rest args value

end

def code (script : Script) : Code := fun c args => script.run (some c) args

/-- The instance is the first argument, and there is no container. -/
def method (script : Script) : ObjectRef → CallArgs → Behaviour Value := fun o args =>
  script.run none { args with positional := .object o :: args.positional }

def decorator (name : String) (script : Script) : Decorator where
  name := name
  apply c value := script.run (some c) (.ofList [value])

/-- Positional arguments become the properties `arg0`, `arg1` and so on. -/
def constructor (label : Option String) (failure : Option Error) (className : String) :
    CallArgs → Behaviour ObjectRef := fun args => do
  note label
  match failure with
  | some error => .fail error
  | none =>
      let o ← .request (.allocate className)
      let numbered := args.positional.zipIdx.map fun entry => ("arg" ++ toString entry.2, entry.1)
      Behaviour.setProperties o (numbered ++ args.named.entries)
      return o

/-- Leaves a note with the instance's name, and marks the instance as torn down. -/
def teardown (label : String) : ObjectRef → Behaviour Unit := fun o => do
  let name ← Behaviour.property? o "name"
  .request (.note (.teardown label o.className ((name.map Value.toJson).getD .null)))
  .request (.setProperty o "torn" (.bool true))

end Script
end Wiring
