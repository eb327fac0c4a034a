import Wiring.Entries

/-!
TOML documents as trees, and how lines build them. A table is stated once: a header may complete a
table that earlier headers only implied, and dotted keys may add to the tables that dotted keys made.
-/

namespace Wiring

namespace Toml

/-- How a table came about. -/
inductive Form where
  | stated
  /-- On the way to a table with a longer name. -/
  | implied
  | dotted
  | inline
deriving DecidableEq, Inhabited, Repr

end Toml

inductive Toml where
  | int (n : Int)
  | float
  | bool (b : Bool)
  | str (text : String)
  | date
  | array (items : List Toml)
  | table (form : Toml.Form) (entries : List (String × Toml))
  /-- Tables under one repeated header, the last of them open. -/
  | tables (items : List Toml)
deriving Inhabited

namespace Toml

def emptyTable (form : Form) : Toml := .table form []

/-- The table that a step along a path leads to; `dotted` steps are those of a key. -/
def step? (dotted : Bool) : Option Toml → Option Toml
  | none => some (emptyTable (if dotted then .dotted else .implied))
  | some (.table .inline _) => none
  | some (.table .stated entries) => if dotted then none else some (.table .stated entries)
  | some (.table form entries) => some (.table form entries)
  | some (.tables items) => items.getLast?
  | some _ => none

/-- Puts back a table that was reached by `step?`. -/
def putBack (changed : Toml) : Option Toml → Toml
  | some (.tables items) => .tables (items.dropLast ++ [changed])
  | _ => changed

/-- Changes the table at the end of the path, making those on the way. -/
def alter? (dotted : Bool) (change : Toml → Option Toml) : List String → Toml → Option Toml
  | [], here => change here
  | key :: rest, .table form entries => do
      let held := entries.lookup key
      let inner ← step? dotted held
      let changed ← alter? dotted change rest inner
      some (.table form (Entries.put key (putBack changed held) entries))
  | _ :: _, _ => none

/-- A plain key belongs to a table that no dotted key made, a dotted key's last part to one that a
dotted key made; neither may be there already. -/
def addField? (isPlain : Bool) (key : String) (value : Toml) : Toml → Option Toml
  | .table form entries =>
      if (form == .dotted) == isPlain then none
      else if (entries.lookup key).isSome then none
      else some (.table form (entries ++ [(key, value)]))
  | _ => none

/-- `a.b.c = value`, read in `table`. -/
def addKey? (path : List String) (value : Toml) (table : Toml) : Option Toml := do
  let key ← path.getLast?
  let way := path.dropLast
  alter? true (addField? way.isEmpty key value) way table

def stateTable? (key : String) : Toml → Option Toml
  | .table form entries =>
      match entries.lookup key with
      | none => some (.table form (entries ++ [(key, emptyTable .stated)]))
      | some (.table .implied inner) =>
          some (.table form (Entries.put key (.table .stated inner) entries))
      | some _ => none
  | _ => none

def openTable? (key : String) : Toml → Option Toml
  | .table form entries =>
      match entries.lookup key with
      | none => some (.table form (entries ++ [(key, .tables [emptyTable .stated])]))
      | some (.tables items) =>
          some (.table form (Entries.put key (.tables (items ++ [emptyTable .stated])) entries))
      | some _ => none
  | _ => none

inductive Line where
  | blank
  | entry (path : List String) (value : Toml)
  | header (path : List String)
  | arrayHeader (path : List String)

/-- The document so far and the path of the last header. -/
structure Draft where
  root : Toml := emptyTable .stated
  path : List String := []

def Draft.add? (draft : Draft) : Line → Option Draft
  | .blank => some draft
  | .entry path value => do
      some { draft with root := ← alter? false (addKey? path value) draft.path draft.root }
  | .header path => do
      let key ← path.getLast?
      some { root := ← alter? false (stateTable? key) path.dropLast draft.root, path }
  | .arrayHeader path => do
      let key ← path.getLast?
      some { root := ← alter? false (openTable? key) path.dropLast draft.root, path }

/-- A table in braces, from its entries in order. -/
def inlineTable? (entries : List (List String × Toml)) : Option Toml := do
  let built ← entries.foldlM (fun table entry => addKey? entry.1 entry.2 table) (emptyTable .stated)
  match built with
  | .table _ entries => some (.table .inline entries)
  | other => some other

/-! Trees as records of known fields: by name, or as an array of the fields in order, of which what
is left over is ignored. -/

def record? (names : List String) : Toml → Option (List (String × Toml))
  | .table _ entries => some entries
  | .array items => some (names.zip items)
  | .tables items => some (names.zip items)
  /- A date is a record of its own, with no field of another's names. -/
  | .date => some []
  | _ => none

def nat? : Toml → Option Nat
  | .int (.ofNat n) => some n
  | _ => none

def bool? : Toml → Option Bool
  | .bool b => some b
  | _ => none

def text? : Toml → Option String
  | .str text => some text
  | _ => none

end Toml
end Wiring
