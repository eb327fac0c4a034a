/-!
JSON trees. Fields keep the order in which they are written; integers and floating-point numbers
are kept apart.
-/

namespace Wiring

inductive Json where
  | null
  | bool (b : Bool)
  | int (n : Int)
  | float (x : Float)
  | str (text : String)
  | arr (items : List Json)
  | obj (fields : List (String × Json))
deriving Inhabited

namespace Json

def ofOption {α : Type} (f : α → Json) : Option α → Json
  | none => .null
  | some a => f a

def strings (items : List String) : Json := .arr (items.map .str)

def field? (name : String) : Json → Option Json
  | .obj fields => fields.lookup name
  | _ => none

end Json
end Wiring
