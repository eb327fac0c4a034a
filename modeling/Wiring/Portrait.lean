import Wiring.Definition
import Wiring.Store

/-!
How values and definitions look from outside. References have no text of their own: each gets a
number when it is first drawn, and keeps it in every later portrait. An object is drawn with its
properties once in a portrait, after that by its number alone.
-/

namespace Wiring

inductive Identity where
  | object (address : Nat)
  | callable (address : Nat)
  | handle (address : Nat)
deriving DecidableEq, Repr

/-- Identities in the order of their numbers. -/
structure Numbering where
  known : List Identity := []
deriving Inhabited

def Numbering.number (numbering : Numbering) (identity : Identity) : Nat × Numbering :=
  match numbering.known.idxOf? identity with
  | some n => (n, numbering)
  | none => (numbering.known.length, { known := numbering.known ++ [identity] })

structure Canvas where
  numbering : Numbering
  /-- Addresses of the objects that this portrait has drawn. -/
  drawn : List Nat := []

abbrev Drawing := StateM Canvas

namespace Drawing

def number (identity : Identity) : Drawing Nat := do
  let canvas ← get
  let (n, numbering) := canvas.numbering.number identity
  set { canvas with numbering }
  return n

/-- Sixteen hexadecimal digits of the number's bits. -/
def float (x : Float) : Json :=
  if x.isNaN then .obj [("$float", .str "nan")]
  else
    let digits := Nat.toDigits 16 x.toBits.toNat
    .obj [("$float", .str (String.ofList (List.replicate (16 - digits.length) '0' ++ digits)))]

/-- A map with a key that looks like a mark of this notation is marked itself. -/
def marked (fields : List (String × Json)) : Json :=
  if fields.any fun entry => entry.1.startsWith "$" then .obj [("$map", .obj fields)]
  else .obj fields

variable (store : Store) (object : ObjectRef → Drawing Json)

mutual

def value : Value → Drawing Json
  | .null => return .null
  | .bool b => return .bool b
  | .int n => return .int n.toInt
  | .float x => return float x
  | .str text => return .str text
  | .list items => return .arr (← values items)
  | .map entries => return marked (← fields entries)
  | .object o => object o
  | .callable f => do
      let n ← number (.callable f.address)
      return .obj [("$callable", .str f.name), ("ref", .int n), ("returns", .strings f.returns)]
  | .handle l => do
      let n ← number (.handle l.address)
      return .obj [("$lazy", .str l.target), ("ref", .int n),
        ("init", .bool (store.cell l).value.isSome)]

def values : List Value → Drawing (List Json)
  | [] => return []
  | item :: rest => do
      let first ← value item
      let others ← values rest
      return first :: others

def fields : List (String × Value) → Drawing (List (String × Json))
  | [] => return []
  | (key, item) :: rest => do
      let first ← value item
      let others ← fields rest
      return (key, first) :: others

end

/-- Every further level draws an object that was not drawn before, so that no more levels are needed
than there are objects. -/
def instanceOf (store : Store) : Nat → ObjectRef → Drawing Json
  | levels, o => do
      let n ← number (.object o.address)
      let head := [("$object", Json.str o.className), ("ref", .int n)]
      match levels with
      | 0 => return .obj head
      | levels + 1 =>
          if o.address ∈ (← get).drawn then return .obj head
          modify fun canvas => { canvas with drawn := o.address :: canvas.drawn }
          let properties ← fields store (instanceOf store levels) (store.properties o).entries
          return .obj (head ++ [("props", .obj properties)])

end Drawing

abbrev Portraying := StateM Numbering

def Value.portray (store : Store) (v : Value) : Portraying Json := do
  let numbering ← get
  let levels := store.objects.size + 1
  let (json, canvas) := (Drawing.value store (Drawing.instanceOf store levels) v).run { numbering }
  set canvas.numbering
  return json

namespace Portrait

variable (store : Store)

def callee : Callee → Json
  | .invocable f => .obj [("call", .str f.name)]
  | .construct className => .obj [("type", .str className)]
  | .service id => .obj [("service", .str id)]
  | .method service name => .obj [("method", .strings [service, name])]

mutual

def argument : Argument → Portraying Json
  | .value v => return .obj [("value", ← v.portray store)]
  | .reference target => return .obj [("ref", .str target)]
  | .parameter name => return .obj [("param", .str name)]
  | .collection typeName => return .obj [("all", .str typeName)]
  | .statement s => return .obj [("stmt", ← statement s)]
  | .list items => return .obj [("list", .arr (← positional items))]

def statement : Statement → Portraying Json
  | .mk target (.mk args entries) => do
      let args ← positional args
      let entries ← named entries
      return .obj [("callee", callee target), ("args", .arr args), ("named", .arr entries)]

def positional : List Argument → Portraying (List Json)
  | [] => return []
  | arg :: rest => do
      let first ← argument arg
      let others ← positional rest
      return first :: others

def named : List (String × Argument) → Portraying (List Json)
  | [] => return []
  | (name, arg) :: rest => do
      let first ← argument arg
      let others ← named rest
      return .arr [.str name, first] :: others

end

def arguments (args : Arguments) : Portraying Json := do
  let first ← positional store args.positional
  let others ← named store args.named
  return .obj [("args", .arr first), ("named", .arr others)]

def entity : Entity → Portraying Json
  | .construct className => return .obj [("type", .str className)]
  | .value v => return .obj [("value", ← v.portray store)]
  | .invocable f => return .obj [("call", .str f.name)]
  | .statement s => return .obj [("stmt", ← statement store s)]

def binding : Binding → Portraying Json
  | .member name value => return .arr [.str "bind", .str name, ← argument store value]
  | .extra code => return .arr [.str "extra", ← argument store code]

def flag : Flag → String
  | .factory => "factory"
  | .lazy => "lazy"
  | .hidden => "private"
  | .autowired => "autowired"

end Portrait

/-- The types that it declares are those it has in `catalog`. -/
def Definition.portray (store : Store) (catalog : Catalog) (d : Definition) : Portraying Json := do
  let entity ← Portrait.entity store d.entity
  let bindings ← d.bindings.mapM (Portrait.binding store)
  let arguments ← Portrait.arguments store d.arguments
  return .obj [("id", .ofOption .str d.id), ("entity", entity), ("arguments", arguments),
    ("bindings", .arr bindings), ("flags", .strings (d.flags.toList.map Portrait.flag)),
    ("bits", .int d.flags.bits), ("types", .strings d.types),
    ("declared", .strings (d.declaredTypes catalog)),
    ("deprecation", .ofOption Deprecation.toJson d.deprecation),
    ("decorators", .strings (d.decorators.map Decorator.name)), ("raw", .bool d.isRaw)]

def Event.toJson : Event → Json
  | .noted (.label text) => .str text
  | .noted (.teardown label className name) =>
      .obj [("teardown", .str label), ("class", .str className), ("name", name)]
  | .deprecated id notice => .obj [("deprecated", .str id), ("notice", notice.toJson)]
  | .beforeCompile provider => .obj [("before_compile", .str provider)]

end Wiring
