import Wiring.Behaviour

/-!
Classes as their users declare them: what they implement, how they are made, their methods and how
they are torn down. Nothing is found out by inspection. A class that nobody declared can be
constructed without positional arguments.
-/

namespace Wiring

structure ClassSpec where
  name : String
  isAbstract : Bool := false
  implements : List String := []
  params : List String := []
  construct : Option (CallArgs → Behaviour ObjectRef) := none
  methods : Dict (ObjectRef → CallArgs → Behaviour Value) := ∅
  teardown : Option (ObjectRef → Behaviour Unit) := none

structure Catalog where
  classes : Dict ClassSpec := ∅

namespace Catalog

instance : EmptyCollection Catalog := ⟨{ classes := ∅ }⟩

instance : Inhabited Catalog := ⟨∅⟩

def register (catalog : Catalog) (spec : ClassSpec) : Catalog :=
  { classes := catalog.classes.insert spec.name spec }

def class? (catalog : Catalog) (name : String) : Option ClassSpec := catalog.classes.get? name

def implements (catalog : Catalog) (className : String) : List String :=
  ((catalog.class? className).map ClassSpec.implements).getD []

/-- Declared classes that are not among `seen`. -/
def unseen (catalog : Catalog) (seen : List String) : Nat :=
  (catalog.classes.keys.filter (· ∉ seen)).length

theorem implements_eq_nil {catalog : Catalog} {className : String}
    (undeclared : className ∉ catalog.classes.keys) : catalog.implements className = [] := by
  have absent : catalog.class? className = none := by
    unfold class? Dict.get?
    exact List.lookup_eq_none_iff.2 fun entry mem => by
      have : entry.1 ∈ catalog.classes.keys := List.mem_map.2 ⟨entry, mem, rfl⟩
      simp only [ne_eq, bne_iff_ne]
      rintro rfl
      exact undeclared this
  simp [implements, absent]

theorem unseen_append_le (catalog : Catalog) (seen : List String) (className : String) :
    catalog.unseen (seen ++ [className]) ≤ catalog.unseen seen := by
  unfold unseen
  refine (List.Sublist.length_le ?_)
  rw [show (fun name => decide (name ∉ seen ++ [className])) =
      fun name => decide (name ≠ className) && decide (name ∉ seen) from by
    funext name
    simp [not_or, and_comm], ← List.filter_filter]
  exact List.filter_sublist

theorem unseen_append_lt {catalog : Catalog} {seen : List String} {className : String}
    (declared : className ∈ catalog.classes.keys) (fresh : className ∉ seen) :
    catalog.unseen (seen ++ [className]) < catalog.unseen seen := by
  unfold unseen
  rw [show (fun name => decide (name ∉ seen ++ [className])) =
      fun name => decide (name ≠ className) && decide (name ∉ seen) from by
    funext name
    simp [not_or, and_comm], ← List.filter_filter]
  exact List.length_filter_lt_length_iff_exists.2
    ⟨className, List.mem_filter.2 ⟨declared, by simpa using fresh⟩, by simp⟩

/-- Depth first, declared order, no name twice. -/
def visit (catalog : Catalog) (seen : List String) : List String → List String
  | [] => seen
  | className :: pending =>
      if className ∈ seen then catalog.visit seen pending
      else catalog.visit (seen ++ [className]) (catalog.implements className ++ pending)
termination_by pending => (catalog.unseen seen, pending.length)
decreasing_by
  · exact Prod.Lex.right _ (by simp)
  · next fresh =>
      by_cases declared : className ∈ catalog.classes.keys
      · exact Prod.Lex.left _ _ (unseen_append_lt declared fresh)
      · rw [implements_eq_nil declared]
        rcases Nat.lt_or_eq_of_le (catalog.unseen_append_le seen className) with less | same
        · exact Prod.Lex.left _ _ less
        · rw [same]
          exact Prod.Lex.right _ (by simp)

/-- The class and everything it implements, directly or not. -/
def typesOf (catalog : Catalog) (className : String) : List String := catalog.visit [] [className]

def ensureInstantiable (catalog : Catalog) (id className : String) (positional : Nat) :
    Except Error Unit :=
  let fault (reason : Fault) : Except Error Unit := .error (.invalidEntity id reason)
  match catalog.class? className with
  | none => if positional > 0 then fault (.noConstructor className) else .ok ()
  | some spec =>
      if spec.isAbstract then fault (.abstractClass className)
      else if spec.construct.isSome then .ok ()
      else if positional ≤ spec.params.length then .ok ()
      else if spec.params.isEmpty then fault (.noConstructor className)
      else fault (.tooManyArguments className spec.params.length)

/-- Without a constructor, positional arguments become the properties that the parameters name, and
named ones the properties of their names. -/
def instantiate (catalog : Catalog) (id className : String) (args : CallArgs) :
    Behaviour Value := do
  .ofExcept (catalog.ensureInstantiable id className args.positional.length)
  match (catalog.class? className).bind ClassSpec.construct with
  | some construct => return .object (← construct args)
  | none =>
      let params := ((catalog.class? className).map ClassSpec.params).getD []
      let o ← Behaviour.request (.allocate className)
      Behaviour.setProperties o (params.zip args.positional ++ args.named.entries)
      return .object o

def method? (catalog : Catalog) (o : ObjectRef) (name : String) :
    Option (ObjectRef → CallArgs → Behaviour Value) := do
  (← catalog.class? o.className).methods.get? name

/-- A list is spread over the positions, and nothing is no argument. -/
def memberArgs : Value → CallArgs
  | .list items => .ofList items
  | .null => {}
  | value => .ofList [value]

/-- Calls the method of that name if the class has one, else writes the property. -/
def applyMember (catalog : Catalog) (o : ObjectRef) (name : String) (value : Value) :
    Behaviour Unit :=
  match catalog.method? o name with
  | some method => do
      let _ ← method o (memberArgs value)
      return ()
  | none => Behaviour.request (.setProperty o name value)

def callMethod (catalog : Catalog) (id : String) (o : ObjectRef) (name : String)
    (args : CallArgs) : Behaviour Value :=
  match catalog.method? o name with
  | some method => method o args
  | none => .fail (.invalidEntity id (.noMethod o.className name))

def teardown? (catalog : Catalog) (o : ObjectRef) : Option (Behaviour Unit) := do
  let teardown ← (← catalog.class? o.className).teardown
  return teardown o

end Catalog
end Wiring
