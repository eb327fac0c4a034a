import Wiring.Json.Document

/-!
JSON documents as records of known fields. A record is written as its fields by name, of which
unknown ones are ignored, or as an array of its fields in order. A known name is given at most once,
and an array has no more items than the record has fields.
-/

namespace Wiring.Json.Document

def byName? (names : List String) (fields : List (Option String × Document)) :
    Option (List (String × Document)) := do
  let named ← fields.mapM fun entry => entry.1.map fun name => (name, entry.2)
  let known := named.filter fun entry => entry.1 ∈ names
  if (known.map Prod.fst).Nodup then some known else none

def byPosition? (names : List String) (items : List Document) :
    Option (List (String × Document)) :=
  if items.length ≤ names.length then some (names.zip items) else none

def record? (names : List String) : Document → Option (List (String × Document))
  | .obj fields => byName? names fields
  | .arr items => byPosition? names items
  | _ => none

def nat? : Document → Option Nat
  | .number (some (.int (.ofNat n))) => some n
  | _ => none

def bool? : Document → Option Bool
  | .bool b => some b
  | _ => none

def text? : Document → Option String
  | .str text => text
  | _ => none

end Wiring.Json.Document
