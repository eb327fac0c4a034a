import Wiring.Proofs.Runs

/-!
# User code that does not reset

User code may ask a container for anything and still be told apart by the one request that it never
makes: to reset a container from within. What the classes of a catalog do is reset-free if their
constructors, methods and teardowns are.
-/

namespace Wiring

def Request.Resets : Request → Prop
  | .reset _ => True
  | _ => False

theorem Request.Resets.eq_reset {request : Request} (h : request.Resets) :
    ∃ c, request = .reset c := by
  cases request with
  | reset c => exact ⟨c, rfl⟩
  | _ => exact h.elim

namespace Behaviour

variable {α β : Type}

def ResetFree : Behaviour α → Prop
  | .done _ => True
  | .ask request next => ¬ request.Resets ∧ ∀ reply, (next reply).ResetFree

theorem ResetFree.bind {b : Behaviour α} {next : α → Behaviour β} (hb : b.ResetFree)
    (hnext : ∀ a, (next a).ResetFree) : (b.bind next).ResetFree := by
  induction b with
  | done result =>
      cases result with
      | ok a => exact hnext a
      | error error => trivial
  | ask request rest ih => exact ⟨hb.1, fun reply => ih reply (hb.2 reply)⟩

theorem resetFree_request {r : Request} (h : ¬ r.Resets) : (request r).ResetFree :=
  ⟨h, fun _ => trivial⟩

theorem resetFree_setProperties (o : ObjectRef) (properties : List (String × Value)) :
    (setProperties o properties).ResetFree := by
  induction properties with
  | nil => trivial
  | cons property rest ih => exact (resetFree_request id).bind fun _ => ih

end Behaviour

structure Catalog.ResetFree (catalog : Catalog) : Prop where
  construct : ∀ {className : String} {spec : ClassSpec} {construct : CallArgs → Behaviour ObjectRef},
    catalog.class? className = some spec → spec.construct = some construct →
      ∀ args, (construct args).ResetFree
  method : ∀ {o : ObjectRef} {name : String} {method : ObjectRef → CallArgs → Behaviour Value},
    catalog.method? o name = some method → ∀ args, (method o args).ResetFree
  teardown : ∀ {o : ObjectRef} {teardown : Behaviour Unit},
    catalog.teardown? o = some teardown → teardown.ResetFree

/-- All user code that a container of the registry can run. -/
structure Registry.ResetFree (registry : Registry) (code : Array Code) : Prop where
  catalog : registry.catalog.ResetFree
  decorators : ∀ {id : String} {definition : Definition},
    registry.definition? id = some definition →
      ∀ decorator ∈ definition.decorators, ∀ c service, (decorator.apply c service).ResetFree
  code : ∀ body ∈ code, ∀ c args, (body c args).ResetFree

namespace Catalog

variable {catalog : Catalog}

theorem ResetFree.instantiate (h : catalog.ResetFree) (id className : String) (args : CallArgs) :
    (catalog.instantiate id className args).ResetFree := by
  unfold Catalog.instantiate
  cases hcheck : catalog.ensureInstantiable id className args.positional.length with
  | error error => trivial
  | ok checked =>
      cases hconstruct : (catalog.class? className).bind ClassSpec.construct with
      | some construct =>
          obtain ⟨spec, hspec, hmake⟩ := Option.bind_eq_some_iff.mp hconstruct
          exact (h.construct hspec hmake args).bind fun _ => trivial
      | none =>
          apply (Behaviour.resetFree_request (r := .allocate className) fun h => h).bind
          intro o
          exact (Behaviour.resetFree_setProperties o _).bind fun _ => trivial

theorem ResetFree.applyMember (h : catalog.ResetFree) (o : ObjectRef) (name : String)
    (value : Value) : (catalog.applyMember o name value).ResetFree := by
  unfold Catalog.applyMember
  cases hmethod : catalog.method? o name with
  | some method => exact (h.method hmethod _).bind fun _ => trivial
  | none => exact Behaviour.resetFree_request id

theorem ResetFree.callMethod (h : catalog.ResetFree) (id : String) (o : ObjectRef) (name : String)
    (args : CallArgs) : (catalog.callMethod id o name args).ResetFree := by
  unfold Catalog.callMethod
  cases hmethod : catalog.method? o name with
  | some method => exact h.method hmethod args
  | none => trivial

end Catalog
end Wiring
