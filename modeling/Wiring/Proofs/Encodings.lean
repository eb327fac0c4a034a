import Wiring.Program.Emission
import Wiring.Proofs.Tables

/-!
# What JSON can hold

A number that is infinite or no number at all has no JSON text. Of the two encodings of values one
writes null for it and the other refuses it; where there is none they give the same tree. A program is
written by way of the second, and so fails to be emitted where some value in it holds such a number,
however deep. Plain values come back from their trees as they were, and trees from their values.
-/

namespace Wiring

/-! ### Numbers that cannot be written -/

mutual

/-- The floating-point numbers in a value, in the order in which they are written. -/
def Value.floats : Value → List Float
  | .null => []
  | .bool _ => []
  | .int _ => []
  | .float x => [x]
  | .str _ => []
  | .list items => Value.floatsAll items
  | .map entries => Value.floatsNamed entries
  | .object _ => []
  | .callable _ => []
  | .handle _ => []

def Value.floatsAll : List Value → List Float
  | [] => []
  | item :: rest => item.floats ++ Value.floatsAll rest

def Value.floatsNamed : List (String × Value) → List Float
  | [] => []
  | (_, value) :: rest => value.floats ++ Value.floatsNamed rest

end

namespace Encoding

variable {α β : Type}

/-- Gives the result, unless one of the numbers cannot be written; then the first of them fails. -/
def checked (numbers : List Float) (result : α) : Encoding α :=
  match numbers.find? (!·.isFinite) with
  | some x => .error ⟨x⟩
  | none => .ok result

theorem checked_bind {numbers others : List Float} {first : α} {next : α → Encoding β} {result : β}
    (hnext : next first = checked others result) :
    checked numbers first >>= next = checked (numbers ++ others) result := by
  unfold checked at *
  rw [List.find?_append]
  cases numbers.find? (!·.isFinite) with
  | some x => rfl
  | none => exact hnext

theorem checked_map (numbers : List Float) (first : α) (f : α → β) :
    (checked numbers first >>= fun a => pure (f a)) = checked numbers (f first) := by
  have hbind : (checked numbers first >>= fun a => pure (f a)) =
      checked (numbers ++ []) (f first) := checked_bind rfl
  rwa [List.append_nil] at hbind

theorem checked_eq_ok_iff {numbers : List Float} {result given : α} :
    checked numbers result = .ok given ↔ (∀ x ∈ numbers, x.isFinite = true) ∧ given = result := by
  unfold checked
  cases hfind : numbers.find? (!·.isFinite) with
  | some x =>
      have hbad : x.isFinite = false := by simpa using List.find?_some hfind
      refine ⟨fun h => (nomatch h), fun h => ?_⟩
      rw [h.1 x (List.mem_of_find?_eq_some hfind)] at hbad
      cases hbad
  | none =>
      have hfinite : ∀ x ∈ numbers, x.isFinite = true := by
        simpa [List.find?_eq_none] using hfind
      refine ⟨fun h => ⟨hfinite, (Except.ok.inj h).symm⟩, ?_⟩
      rintro ⟨-, rfl⟩
      rfl

theorem checked_eq_error_iff {numbers : List Float} {result : α} {bad : Value.NonFinite} :
    checked numbers result = .error bad ↔ numbers.find? (!·.isFinite) = some bad.number := by
  unfold checked
  cases numbers.find? (!·.isFinite) with
  | some x => exact ⟨fun h => Except.error.inj h ▸ rfl, fun h => Option.some.inj h ▸ rfl⟩
  | none => exact ⟨fun h => (nomatch h), fun h => (nomatch h)⟩

end Encoding

namespace Value

mutual

theorem encode?_eq : ∀ v : Value, v.encode? = Encoding.checked v.floats v.toJson
  | .null => rfl
  | .bool _ => rfl
  | .int _ => rfl
  | .float x => by
      cases hfinite : x.isFinite <;>
        simp [encode?, toJson, floats, Encoding.checked, hfinite]
  | .str _ => rfl
  | .list items => by
      rw [encode?, encodeItems?_eq items]
      exact Encoding.checked_map _ _ Json.arr
  | .map entries => by
      rw [encode?, encodeEntries?_eq entries]
      exact Encoding.checked_map _ _ Json.obj
  | .object _ => rfl
  | .callable _ => rfl
  | .handle _ => rfl

theorem encodeItems?_eq : ∀ items : List Value,
    encodeItems? items = Encoding.checked (floatsAll items) (itemsToJson items)
  | [] => rfl
  | item :: rest => by
      rw [encodeItems?, encode?_eq item, encodeItems?_eq rest]
      exact Encoding.checked_bind (Encoding.checked_map _ _ _)

theorem encodeEntries?_eq : ∀ entries : List (String × Value),
    encodeEntries? entries = Encoding.checked (floatsNamed entries) (entriesToJson entries)
  | [] => rfl
  | (key, value) :: rest => by
      rw [encodeEntries?, encode?_eq value, encodeEntries?_eq rest]
      exact Encoding.checked_bind (Encoding.checked_map _ _ _)

end

end Value

/-! ### There and back -/

/-- What JSON has a form for: data at every depth, numbers that can be written, and the entries of a
map in their order. -/
inductive Value.Plain : Value → Prop
  | null : Plain .null
  | bool (b : Bool) : Plain (.bool b)
  | int (n : Int64) : Plain (.int n)
  | float {x : Float} (hfinite : x.isFinite = true) : Plain (.float x)
  | str (text : String) : Plain (.str text)
  | list {items : List Value} (hitems : ∀ v ∈ items, Plain v) : Plain (.list items)
  | map {entries : List (String × Value)} (ascending : Entries.Ascending entries)
      (hentries : ∀ entry ∈ entries, Plain entry.2) : Plain (.map entries)

/-- What a value can hold: whole numbers of 64 bits, other numbers that can be written, and the fields
of an object once each and in order. -/
inductive Json.Storable : Json → Prop
  | null : Storable .null
  | bool (b : Bool) : Storable (.bool b)
  | int {n : Int} (hlow : Int64.minValue.toInt ≤ n) (hhigh : n ≤ Int64.maxValue.toInt) :
      Storable (.int n)
  | float {x : Float} (hfinite : x.isFinite = true) : Storable (.float x)
  | str (text : String) : Storable (.str text)
  | arr {items : List Json} (hitems : ∀ item ∈ items, Storable item) : Storable (.arr items)
  | obj {fields : List (String × Json)} (ascending : Entries.Ascending fields)
      (hfields : ∀ field ∈ fields, Storable field.2) : Storable (.obj fields)

namespace Value

theorem itemsToJson_eq (items : List Value) : itemsToJson items = items.map toJson := by
  induction items with
  | nil => rfl
  | cons item rest ih => rw [itemsToJson, ih, List.map_cons]

theorem entriesToJson_eq (entries : List (String × Value)) :
    entriesToJson entries = entries.map fun entry => (entry.1, entry.2.toJson) := by
  induction entries with
  | nil => rfl
  | cons entry rest ih => rw [entriesToJson, ih, List.map_cons]

theorem ofItems_eq (items : List Json) : ofItems items = items.map ofJson := by
  induction items with
  | nil => rfl
  | cons item rest ih => rw [ofItems, ih, List.map_cons]

theorem ofFields_eq (fields : List (String × Json)) :
    ofFields fields = fields.map fun field => (field.1, ofJson field.2) := by
  induction fields with
  | nil => rfl
  | cons field rest ih => rw [ofFields, ih, List.map_cons]

theorem map_map_eq_self {α β : Type} {f : α → β} {g : β → α} {items : List α}
    (hback : ∀ a ∈ items, g (f a) = a) : (items.map f).map g = items := by
  rw [List.map_map]
  exact (List.map_congr_left hback).trans (List.map_id' items)

theorem ofInteger_of_le {n : Int} (hlow : Int64.minValue.toInt ≤ n)
    (hhigh : n ≤ Int64.maxValue.toInt) : ofInteger n = .int (.ofInt n) :=
  if_pos ⟨hlow, hhigh⟩

theorem ofJson_toJson {v : Value} (plain : v.Plain) : ofJson v.toJson = v := by
  induction plain with
  | null => rfl
  | bool b => rfl
  | int n =>
      rw [toJson, ofJson, ofInteger_of_le n.minValue_le_toInt n.toInt_le, Int64.ofInt_toInt]
  | float hfinite => rw [toJson, if_pos hfinite, ofJson]
  | str text => rfl
  | @list items hitems ih =>
      rw [toJson, ofJson, itemsToJson_eq, ofItems_eq, map_map_eq_self ih]
  | @map entries ascending hentries ih =>
      have hback : ofFields (entriesToJson entries) = entries := by
        rw [entriesToJson_eq, ofFields_eq]
        exact map_map_eq_self fun entry hentry => congrArg (entry.1, ·) (ih entry hentry)
      rw [toJson, ofJson, hback, ofDict, Dict.entries_ofList ascending]

theorem toJson_ofJson {json : Json} (storable : json.Storable) : (ofJson json).toJson = json := by
  induction storable with
  | null => rfl
  | bool b => rfl
  | @int n hlow hhigh =>
      have hvalue : (Int64.ofInt n).toInt = n := by
        rw [Int64.toInt_minValue] at hlow
        rw [Int64.toInt_maxValue] at hhigh
        exact Int64.toInt_ofInt_of_le hlow (by omega)
      rw [ofJson, ofInteger_of_le hlow hhigh, toJson, hvalue]
  | float hfinite => rw [ofJson, toJson, if_pos hfinite]
  | str text => rfl
  | @arr items hitems ih =>
      rw [ofJson, toJson, ofItems_eq, itemsToJson_eq, map_map_eq_self ih]
  | @obj fields ascending hfields ih =>
      have hascending : Entries.Ascending (ofFields fields) := by
        rwa [ofFields_eq, Entries.Ascending, Entries.keys_map]
      have hback : entriesToJson (ofFields fields) = fields := by
        rw [ofFields_eq, entriesToJson_eq]
        exact map_map_eq_self fun field hfield => congrArg (field.1, ·) (ih field hfield)
      rw [ofJson, ofDict, toJson, Dict.entries_ofList hascending, hback]

end Value

/-! ### Programs -/

mutual

/-- The values that are written out in an expression, in the order in which they are written. -/
def Expr.literals : Expr → List Value
  | .literal v => [v]
  | .construct _ args => args.literals
  | .invoke _ args => args.literals
  | .callService _ args => args.literals
  | .callMethod _ _ args => args.literals
  | .service _ => []
  | .handle _ => []
  | .parameter _ => []
  | .list items => Expr.literalsAll items

def ExprArgs.literals : ExprArgs → List Value
  | .mk positional named => Expr.literalsAll positional ++ Expr.literalsNamed named

def Expr.literalsAll : List Expr → List Value
  | [] => []
  | item :: rest => item.literals ++ Expr.literalsAll rest

def Expr.literalsNamed : List (String × Expr) → List Value
  | [] => []
  | (_, item) :: rest => item.literals ++ Expr.literalsNamed rest

end

def BindingOp.literals : BindingOp → List Value
  | .member _ value => value.literals
  | .extra code => code.literals

def Routine.literals (routine : Routine) : List Value :=
  routine.body.literals ++ routine.bindings.flatMap BindingOp.literals

def Dict.values {α : Type} (dict : Dict α) : List α := dict.entries.map Prod.snd

/-- Literals, parameters and what is attached to tags, in the order in which they are written. -/
def Program.values (program : Program) : List Value :=
  program.routines.flatMap Routine.literals ++ program.parameters.values ++
    program.tags.values.flatMap Dict.values

def numbersIn (values : List Value) : List Float := values.flatMap Value.floats

namespace Encoding

variable {α β : Type}

/-- The encoding fails at the first number among the values that cannot be written, if there is one. -/
def Checks (encoding : Encoding α) (values : List Value) : Prop :=
  ∃ result, encoding = checked (numbersIn values) result

namespace Checks

theorem pure (result : α) : Checks (pure result) [] := ⟨result, rfl⟩

theorem bind {encoding : Encoding α} {next : α → Encoding β} {values others : List Value}
    (hfirst : Checks encoding values) (hnext : ∀ a, Checks (next a) others) :
    Checks (encoding >>= next) (values ++ others) := by
  obtain ⟨first, rfl⟩ := hfirst
  obtain ⟨result, heq⟩ := hnext first
  have hsplit : numbersIn (values ++ others) = numbersIn values ++ numbersIn others :=
    List.flatMap_append
  exact ⟨result, by rw [hsplit, checked_bind heq]⟩

theorem map {encoding : Encoding α} {values : List Value} (hfirst : Checks encoding values)
    (f : α → β) : Checks (encoding >>= fun a => Pure.pure (f a)) values := by
  have hbind := hfirst.bind fun a => pure (f a)
  rwa [List.append_nil] at hbind

theorem mapM {items : List α} {f : α → Encoding β} {values : α → List Value}
    (hitem : ∀ item, Checks (f item) (values item)) :
    Checks (items.mapM f) (items.flatMap values) := by
  induction items with
  | nil => exact pure []
  | cons item rest ih =>
      rw [List.mapM_cons, List.flatMap_cons]
      exact (hitem item).bind fun first => ih.map (first :: ·)

end Checks

theorem checks_value (v : Value) : Checks v.encode? [v] :=
  ⟨v.toJson, by rw [Value.encode?_eq, numbersIn, List.flatMap_singleton]⟩

theorem checks_dict {encode : α → Encoding Json} {values : α → List Value}
    (hitem : ∀ a, Checks (encode a) (values a)) (entries : Dict α) :
    Checks (dict encode entries) (entries.values.flatMap values) := by
  rw [Dict.values, List.flatMap_map]
  exact (Checks.mapM fun (entry : String × α) => (hitem entry.2).map (entry.1, ·)).map Json.obj

mutual

theorem checks_expr : ∀ e : Expr, Checks (expr e) e.literals
  | .literal v => by
      rw [expr]
      exact (checks_value v).map _
  | .construct _ args => by
      rw [expr]
      exact (checks_exprArgs args).map _
  | .invoke _ args => by
      rw [expr]
      exact (checks_exprArgs args).map _
  | .callService _ args => by
      rw [expr]
      exact (checks_exprArgs args).map _
  | .callMethod _ _ args => by
      rw [expr]
      exact (checks_exprArgs args).map _
  | .service _ => .pure _
  | .handle _ => .pure _
  | .parameter _ => .pure _
  | .list items => by
      rw [expr]
      exact (checks_exprs items).map _

theorem checks_exprArgs : ∀ args : ExprArgs, Checks (exprArgs args) args.literals
  | .mk positional named => by
      rw [exprArgs]
      exact (checks_exprs positional).bind fun _ => (checks_namedExprs named).map _

theorem checks_exprs : ∀ items : List Expr, Checks (exprs items) (Expr.literalsAll items)
  | [] => .pure []
  | item :: rest => by
      rw [exprs]
      exact (checks_expr item).bind fun _ => (checks_exprs rest).map _

theorem checks_namedExprs : ∀ items : List (String × Expr),
    Checks (namedExprs items) (Expr.literalsNamed items)
  | [] => .pure []
  | (_, item) :: rest => by
      rw [namedExprs]
      exact (checks_expr item).bind fun _ => (checks_namedExprs rest).map _

end

theorem checks_bindingOp (op : BindingOp) : Checks (bindingOp op) op.literals := by
  cases op with
  | member name value => exact (checks_expr value).map _
  | extra code => exact (checks_expr code).map _

theorem checks_routine (r : Routine) : Checks (routine r) r.literals :=
  (checks_expr r.body).bind fun _ => (Checks.mapM checks_bindingOp).map _

theorem checks_values (entries : Dict Value) : Checks (dict Value.encode? entries) entries.values := by
  have hdict := checks_dict checks_value entries
  rwa [List.flatMap_singleton'] at hdict

theorem checks_program (p : Program) : Checks (program p) p.values := by
  have htags : Checks (dict (dict Value.encode?) p.tags) (p.tags.values.flatMap Dict.values) :=
    checks_dict checks_values p.tags
  rw [Program.values, List.append_assoc]
  exact (Checks.mapM checks_routine).bind fun _ =>
    (checks_values p.parameters).bind fun _ => htags.map _

end Encoding

/-- A value stands in a program: written out in the body or a binding of a routine, as a parameter, or
as what is attached to a tag of a service. -/
def Program.Holds (program : Program) (v : Value) : Prop :=
  (∃ routine ∈ program.routines, v ∈ routine.literals) ∨
    (∃ name, program.parameters.get? name = some v) ∨
      ∃ tag attributes id, program.tags.get? tag = some attributes ∧ attributes.get? id = some v

theorem Dict.mem_values_iff {α : Type} {dict : Dict α} {a : α} :
    a ∈ dict.values ↔ ∃ key, dict.get? key = some a := by
  rw [Dict.values, List.mem_map]
  constructor
  · rintro ⟨⟨key, value⟩, hmem, rfl⟩
    exact ⟨key, Dict.mem_entries_iff.mp hmem⟩
  · rintro ⟨key, hkey⟩
    exact ⟨(key, a), Dict.mem_entries_iff.mpr hkey, rfl⟩

theorem Program.mem_values_iff {program : Program} {v : Value} :
    v ∈ program.values ↔ program.Holds v := by
  rw [Program.values, List.mem_append, List.mem_append, List.mem_flatMap, List.mem_flatMap,
    Dict.mem_values_iff, or_assoc, Holds]
  refine or_congr_right (or_congr_right ?_)
  constructor
  · rintro ⟨attributes, htag, hid⟩
    obtain ⟨tag, htag⟩ := Dict.mem_values_iff.mp htag
    obtain ⟨id, hid⟩ := Dict.mem_values_iff.mp hid
    exact ⟨tag, attributes, id, htag, hid⟩
  · rintro ⟨tag, attributes, id, htag, hid⟩
    exact ⟨attributes, Dict.mem_values_iff.mpr ⟨tag, htag⟩, Dict.mem_values_iff.mpr ⟨id, hid⟩⟩

theorem Program.mem_numbersIn_values {program : Program} {x : Float} :
    x ∈ numbersIn program.values ↔ ∃ v, program.Holds v ∧ x ∈ v.floats := by
  rw [numbersIn, List.mem_flatMap]
  exact exists_congr fun v => and_congr_left' Program.mem_values_iff

theorem emitted_eq_ok_iff {encoding : Encoding Json} {text : Json → String} :
    (∃ given, emitted encoding text = .ok given) ↔ ∃ json, encoding = .ok json := by
  cases encoding with
  | error bad => exact ⟨fun ⟨_, h⟩ => (nomatch h), fun ⟨_, h⟩ => (nomatch h)⟩
  | ok json => exact ⟨fun _ => ⟨json, rfl⟩, fun _ => ⟨text json, rfl⟩⟩

theorem emitted_eq_error_iff {encoding : Encoding Json} {text : Json → String} {error : Error} :
    emitted encoding text = .error error ↔
      ∃ bad, encoding = .error bad ∧ error = .emission bad.message := by
  cases encoding with
  | error bad => simp [emitted, eq_comm]
  | ok json => simp [emitted]

theorem Program.emit_eq_ok_iff {program : Program} {pretty : Bool} :
    (∃ text, program.emit pretty = .ok text) ↔
      ∀ v, program.Holds v → ∀ x ∈ v.floats, x.isFinite = true := by
  obtain ⟨result, hchecked⟩ := Encoding.checks_program program
  have hencoded : (∃ json, Encoding.program program = .ok json) ↔
      ∀ x ∈ numbersIn program.values, x.isFinite = true := by
    rw [hchecked]
    exact ⟨fun ⟨_, h⟩ => (Encoding.checked_eq_ok_iff.mp h).1,
      fun h => ⟨result, Encoding.checked_eq_ok_iff.mpr ⟨h, rfl⟩⟩⟩
  rw [emit, emitted_eq_ok_iff, hencoded]
  constructor
  · exact fun h v hv x hx => h x (mem_numbersIn_values.mpr ⟨v, hv, hx⟩)
  · intro h x hx
    obtain ⟨v, hv, hx⟩ := mem_numbersIn_values.mp hx
    exact h v hv x hx

/-- What fails an emission is the first number in the program that cannot be written. -/
theorem Program.emit_eq_error_iff {program : Program} {pretty : Bool} {error : Error} :
    program.emit pretty = .error error ↔
      ∃ bad : Value.NonFinite, (numbersIn program.values).find? (!·.isFinite) = some bad.number ∧
        error = .emission bad.message := by
  obtain ⟨result, hchecked⟩ := Encoding.checks_program program
  rw [emit, emitted_eq_error_iff, hchecked]
  exact exists_congr fun bad => and_congr_left' Encoding.checked_eq_error_iff

/-- **Encodings lose nothing.** A value can be written exactly when every number in it can, at
whatever depth, and is then written as the tree that `toJson` gives. Plain values come back from
their trees, the sign of a zero and every other bit of a number included, and trees of what a value
can hold from their values. A program is emitted, indented or on one line, exactly when every number
can be written in the values it holds; otherwise its emission fails for a number that it holds and
that cannot. -/
theorem encodings_faithful :
    (∀ (v : Value) (json : Json), v.encode? = .ok json ↔
      (∀ x ∈ v.floats, x.isFinite = true) ∧ json = v.toJson) ∧
    (∀ v : Value, v.Plain → Value.ofJson v.toJson = v) ∧
    (∀ json : Json, json.Storable → (Value.ofJson json).toJson = json) ∧
    (∀ (program : Program) (pretty : Bool), (∃ text, program.emit pretty = .ok text) ↔
      ∀ v, program.Holds v → ∀ x ∈ v.floats, x.isFinite = true) ∧
    (∀ (program : Program) (pretty : Bool) (error : Error), program.emit pretty = .error error →
      ∃ v, program.Holds v ∧ ∃ x ∈ v.floats, x.isFinite = false ∧
        error = .emission (Value.NonFinite.message ⟨x⟩)) := by
  refine ⟨fun v json => ?_, fun _ => Value.ofJson_toJson, fun _ => Value.toJson_ofJson,
    fun _ _ => Program.emit_eq_ok_iff, fun program pretty error herror => ?_⟩
  · rw [Value.encode?_eq, Encoding.checked_eq_ok_iff]
  · obtain ⟨⟨x⟩, hfirst, rfl⟩ := Program.emit_eq_error_iff.mp herror
    obtain ⟨v, hv, hx⟩ := Program.mem_numbersIn_values.mp (List.mem_of_find?_eq_some hfirst)
    exact ⟨v, hv, x, hx, by simpa using List.find?_some hfirst, rfl⟩

/-- A nested value and its tree, each had back from the other, and a number deep in a parameter that
no program can be written with. -/
theorem encodings_faithful_nested :
    Value.ofJson (Value.toJson (.map [("limits", .list [.float 1.5, .int 7]), ("name", .null)])) =
      .map [("limits", .list [.float 1.5, .int 7]), ("name", .null)] ∧
    (Value.ofJson (.obj [("limits", .arr [.float 1.5, .int 7]), ("name", .null)])).toJson =
      .obj [("limits", .arr [.float 1.5, .int 7]), ("name", .null)] ∧
    (∀ json, Value.encode? (.map [("ratio", .list [.int 7, .float (0.0 / 0.0)])]) ≠ .ok json) ∧
    ∀ pretty text, Program.emit { (default : Program) with
      parameters := .ofList [("ratio", .list [.int 7, .float (0.0 / 0.0)])] } pretty ≠ .ok text := by
  have hnames {α : Type} (limits name : α) :
      Entries.Ascending [("limits", limits), ("name", name)] :=
    (by decide : ["limits", "name"].Pairwise (· < ·))
  have hhalves : (1.5 : Float).isFinite = true := by decide
  have hratio : (0.0 / 0.0 : Float).isFinite = false := by decide
  have hplain : Value.Plain (.map [("limits", .list [.float 1.5, .int 7]), ("name", .null)]) := by
    refine .map (hnames _ _) (List.forall_mem_cons.mpr ⟨.list ?_, List.forall_mem_singleton.mpr .null⟩)
    exact List.forall_mem_cons.mpr ⟨.float hhalves, List.forall_mem_singleton.mpr (.int 7)⟩
  have hstorable :
      Json.Storable (.obj [("limits", .arr [.float 1.5, .int 7]), ("name", .null)]) := by
    refine .obj (hnames _ _) (List.forall_mem_cons.mpr ⟨.arr ?_, List.forall_mem_singleton.mpr .null⟩)
    have hseven : Json.Storable (.int 7) := .int (by decide) (by decide)
    exact List.forall_mem_cons.mpr ⟨.float hhalves, List.forall_mem_singleton.mpr hseven⟩
  obtain ⟨hencode, hback, hforth, hemit, -⟩ := encodings_faithful
  refine ⟨hback _ hplain, hforth _ hstorable, fun json hjson => ?_, fun pretty text htext => ?_⟩
  · have hfinite := ((hencode _ json).mp hjson).1 (0.0 / 0.0) (List.mem_singleton_self _)
    rw [hratio] at hfinite
    cases hfinite
  · have hfinite := (hemit _ pretty).mp ⟨text, htext⟩ _ (.inr (.inl ⟨"ratio", rfl⟩)) (0.0 / 0.0)
      (List.mem_singleton_self _)
    rw [hratio] at hfinite
    cases hfinite

end Wiring
