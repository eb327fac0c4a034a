import Wiring.Value
import Wiring.Json.Writer

/-!
Values as JSON, in two encodings. `toJson` never fails: a number that JSON cannot hold becomes null.
`encode?` gives the same tree and refuses such a number instead. `ofJson` reads a tree back.

References are written as an object with one field that names the class, the callable or the target.
-/

namespace Wiring.Value

mutual

def toJson : Value → Json
  | .null => .null
  | .bool b => .bool b
  | .int n => .int n.toInt
  | .float x => if x.isFinite then .float x else .null
  | .str text => .str text
  | .list items => .arr (itemsToJson items)
  | .map entries => .obj (entriesToJson entries)
  | .object o => .obj [("$object", .str o.className)]
  | .callable f => .obj [("$callable", .str f.name)]
  | .handle l => .obj [("$lazy", .str l.target)]

def itemsToJson : List Value → List Json
  | [] => []
  | item :: rest => toJson item :: itemsToJson rest

def entriesToJson : List (String × Value) → List (String × Json)
  | [] => []
  | (key, value) :: rest => (key, toJson value) :: entriesToJson rest

end

/-- A number that JSON has no text for. -/
structure NonFinite where
  number : Float

def NonFinite.message (bad : NonFinite) : String :=
  "浮点数 " ++ Decimal.Layout.plain.text bad.number ++ " 无法表示为 JSON"

mutual

def encode? : Value → Except NonFinite Json
  | .float x => if x.isFinite then .ok (.float x) else .error ⟨x⟩
  | .list items => return .arr (← encodeItems? items)
  | .map entries => return .obj (← encodeEntries? entries)
  | value => .ok value.toJson

def encodeItems? : List Value → Except NonFinite (List Json)
  | [] => .ok []
  | item :: rest => do
      let first ← encode? item
      let others ← encodeItems? rest
      return first :: others

def encodeEntries? : List (String × Value) → Except NonFinite (List (String × Json))
  | [] => .ok []
  | (key, value) :: rest => do
      let first ← encode? value
      let others ← encodeEntries? rest
      return (key, first) :: others

end

def ofInteger (n : Int) : Value :=
  if Int64.minValue.toInt ≤ n ∧ n ≤ Int64.maxValue.toInt then .int (.ofInt n)
  else .float (if n < 0 then -n.natAbs.toUInt64.toFloat else n.toNat.toUInt64.toFloat)

mutual

/-- Of two fields with one name the later one counts. -/
def ofJson : Json → Value
  | .null => .null
  | .bool b => .bool b
  | .int n => ofInteger n
  | .float x => .float x
  | .str text => .str text
  | .arr items => .list (ofItems items)
  | .obj fields => .ofDict (.ofList (ofFields fields))

def ofItems : List Json → List Value
  | [] => []
  | item :: rest => ofJson item :: ofItems rest

def ofFields : List (String × Json) → List (String × Value)
  | [] => []
  | (name, value) :: rest => (name, ofJson value) :: ofFields rest

end

end Wiring.Value
