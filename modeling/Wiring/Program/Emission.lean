import Wiring.Program
import Wiring.Value.Encoding

/-!
Programs as JSON text, for other tools to read. Every value in a program has to have a JSON form;
the first that has none fails the emission.
-/

namespace Wiring

abbrev Encoding := Except Value.NonFinite

namespace Encoding

def dict {α : Type} (encode : α → Encoding Json) (entries : Dict α) : Encoding Json := do
  let fields ← entries.entries.mapM fun entry => return (entry.1, ← encode entry.2)
  return .obj fields

def link (kind : String) (link : Link) : Json :=
  .obj [("kind", .str kind), ("id", .str link.id), ("routine", .int link.position)]

def argFields (positional : List Json) (named : List Json) : List (String × Json) :=
  (if positional.isEmpty then [] else [("positional", .arr positional)]) ++
    (if named.isEmpty then [] else [("named", .arr named)])

mutual

def expr : Expr → Encoding Json
  | .literal v => return .obj [("kind", .str "literal"), ("value", ← v.encode?)]
  | .construct className args =>
      return .obj [("kind", .str "new"), ("class", .str className), ("args", ← exprArgs args)]
  | .invoke f args =>
      return .obj [("kind", .str "invoke"), ("callable", .str f.name), ("args", ← exprArgs args)]
  | .callService service args =>
      return .obj [("kind", .str "call_service"), ("service", link "service" service),
        ("args", ← exprArgs args)]
  | .callMethod service method args =>
      return .obj [("kind", .str "call_method"), ("service", link "service" service),
        ("method", .str method), ("args", ← exprArgs args)]
  | .service target => return link "service" target
  | .handle target => return link "lazy" target
  | .parameter name => return .obj [("kind", .str "parameter"), ("name", .str name)]
  | .list items => return .obj [("kind", .str "list"), ("items", .arr (← exprs items))]

def exprArgs : ExprArgs → Encoding Json
  | .mk positional named => do
      let positional ← exprs positional
      let named ← namedExprs named
      return .obj (argFields positional named)

def exprs : List Expr → Encoding (List Json)
  | [] => return []
  | item :: rest => do
      let first ← expr item
      let others ← exprs rest
      return first :: others

def namedExprs : List (String × Expr) → Encoding (List Json)
  | [] => return []
  | (name, item) :: rest => do
      let first ← expr item
      let others ← namedExprs rest
      return .arr [.str name, first] :: others

end

def bindingOp : BindingOp → Encoding Json
  | .member name value =>
      return .obj [("kind", .str "member"), ("name", .str name), ("value", ← expr value)]
  | .extra code => return .obj [("kind", .str "extra"), ("code", ← expr code)]

def visibility : Visibility → Json
  | .exposed => .str "public"
  | .hidden => .str "private"

def cacheTable : CacheTable → Json
  | .services => .str "services"
  | .privates => .str "privates"

def routine (r : Routine) : Encoding Json := do
  let body ← expr r.body
  let bindings ← r.bindings.mapM bindingOp
  return .obj ([("id", .str r.id), ("method", .str r.method),
      ("visibility", visibility r.visibility), ("cache", .ofOption cacheTable r.cache),
      ("lazy", .bool r.lazy), ("return_types", .strings r.returnTypes)] ++
    (r.deprecation.map fun notice => ("deprecation", notice.toJson)).toList ++
    [("body", body)] ++
    (if bindings.isEmpty then [] else [("bindings", .arr bindings)]) ++
    (if r.decorators.isEmpty then []
      else [("decorators", .strings (r.decorators.map Decorator.name))]))

def program (p : Program) : Encoding Json := do
  let routines ← p.routines.mapM routine
  let parameters ← dict Value.encode? p.parameters
  let tags ← dict (dict Value.encode?) p.tags
  return .obj [("container_class", .str p.containerClass), ("routines", .arr routines),
    ("methods_map", .obj (p.methods.entries.map fun entry => (entry.1, .str entry.2))),
    ("types", .obj (p.types.entries.map fun entry => (entry.1, .strings entry.2))),
    ("aliases", .obj (p.aliases.entries.map fun entry => (entry.1, .str entry.2))),
    ("parameters", parameters), ("tags", tags), ("private_services", .int p.privateServices)]

end Encoding

/-- Emission fails with what its values are refused for. -/
def emitted (encoding : Encoding Json) (text : Json → String) : Except Error String :=
  match encoding with
  | .error bad => .error (.emission bad.message)
  | .ok json => .ok (text json)

def Program.emit (program : Program) (pretty : Bool) : Except Error String :=
  emitted (Encoding.program program) (if pretty then (·.pretty 0) else Json.compact)

/-- One routine on one line. -/
def Routine.text? (routine : Routine) : Except Error String :=
  emitted (Encoding.routine routine) Json.compact

end Wiring
