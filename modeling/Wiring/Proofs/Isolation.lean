import Wiring.Proofs.Runs

/-!
# User code that keeps to itself

Isolated code works on the store and asks no container for anything. Running it leaves every
container as it is, ends whatever the nesting, and fails with its own errors alone.
-/

namespace Wiring

/-- The request touches nothing but the store. To invoke a callable is to hand a container on. -/
def Request.Isolated : Request → Prop
  | .note _ | .allocate _ | .properties _ | .setProperty .. | .count _ => True
  | _ => False

namespace Behaviour

variable {α β : Type} {raises : Error → Prop}

/-- No request goes beyond the store, and what is raised is among `raises`. -/
def Isolated (raises : Error → Prop) : Behaviour α → Prop
  | .done (.ok _) => True
  | .done (.error error) => raises error
  | .ask request next => request.Isolated ∧ ∀ reply, Isolated raises (next reply)

theorem Isolated.bind {b : Behaviour α} {next : α → Behaviour β} (hb : b.Isolated raises)
    (hnext : ∀ a, (next a).Isolated raises) : (b.bind next).Isolated raises := by
  induction b with
  | done result =>
      cases result with
      | ok a => exact hnext a
      | error error => exact hb
  | ask request rest ih => exact ⟨hb.1, fun reply => ih reply (hb.2 reply)⟩

theorem isolated_setProperties (o : ObjectRef) (properties : List (String × Value)) :
    (setProperties o properties).Isolated raises := by
  induction properties with
  | nil => trivial
  | cons property rest ih =>
      have hset : (request (.setProperty o property.1 property.2)).Isolated raises :=
        ⟨trivial, fun _ => trivial⟩
      exact hset.bind fun _ => ih

end Behaviour

/-- Running the request changes nothing but the store, and no code in it. -/
theorem Request.Isolated.perform_eq {request : Request} (h : request.Isolated) (recur : Caller)
    (world : World) :
    ∃ reply store, request.perform recur world = (.ok reply, { world with store }) ∧
      store.code = world.store.code := by
  cases request with
  | note note => exact ⟨(), world.store.record (.noted note), rfl, rfl⟩
  | allocate className => exact ⟨_, (world.store.allocate className).2, rfl, rfl⟩
  | properties o => exact ⟨_, world.store, rfl, rfl⟩
  | setProperty o name value => exact ⟨(), world.store.setProperty o name value, rfl, rfl⟩
  | count key => exact ⟨_, (world.store.count key).2, rfl, rfl⟩
  | _ => exact absurd h id

theorem Behaviour.Isolated.run_eq {α : Type} {raises : Error → Prop} {b : Behaviour α}
    (h : b.Isolated raises) (recur : Caller) (world : World) :
    ∃ result store, b.run recur world = Run.ofExcept result { world with store } ∧
      store.code = world.store.code ∧ ∀ error, result = .error error → raises error := by
  induction b generalizing world with
  | done result =>
      refine ⟨result, world.store, rfl, rfl, ?_⟩
      rintro error rfl
      exact h
  | ask request next ih =>
      obtain ⟨reply, store, hperform, hcode⟩ := h.1.perform_eq recur world
      obtain ⟨result, last, hrun, hlast, hraises⟩ := ih reply (h.2 reply) { world with store }
      refine ⟨result, last, ?_, hlast.trans hcode, hraises⟩
      rw [Behaviour.run, Run.bind_of_ok hperform, hrun]

/-- The classes' constructors and methods are isolated. -/
structure Catalog.Isolated (raises : Error → Prop) (catalog : Catalog) : Prop where
  construct : ∀ {className : String} {spec : ClassSpec} {construct : CallArgs → Behaviour ObjectRef},
    catalog.class? className = some spec → spec.construct = some construct →
      ∀ args, (construct args).Isolated raises
  method : ∀ {o : ObjectRef} {name : String} {method : ObjectRef → CallArgs → Behaviour Value},
    catalog.method? o name = some method → ∀ args, (method o args).Isolated raises

/-- All user code that resolving can run is isolated. -/
structure Registry.Isolated (raises : Error → Prop) (registry : Registry) (code : Array Code) :
    Prop where
  catalog : registry.catalog.Isolated raises
  decorators : ∀ {id : String} {definition : Definition},
    registry.definition? id = some definition →
      ∀ decorator ∈ definition.decorators, ∀ c service, (decorator.apply c service).Isolated raises
  code : ∀ {address : Nat} {body : Code}, code[address]? = some body →
    ∀ c args, (body c args).Isolated raises

namespace Catalog

variable {raises : Error → Prop} {catalog : Catalog}

/-- An instantiable class is instantiated by isolated code. -/
theorem Isolated.instantiate (h : catalog.Isolated raises) {id className : String}
    {args : CallArgs}
    (hcheck : catalog.ensureInstantiable id className args.positional.length = .ok ()) :
    (catalog.instantiate id className args).Isolated raises := by
  unfold Catalog.instantiate
  rw [hcheck]
  cases hconstruct : (catalog.class? className).bind ClassSpec.construct with
  | some construct =>
      obtain ⟨spec, hspec, hmake⟩ := Option.bind_eq_some_iff.mp hconstruct
      exact (h.construct hspec hmake args).bind fun _ => trivial
  | none =>
      have hallocate : (Behaviour.request (.allocate className)).Isolated raises :=
        ⟨trivial, fun _ => trivial⟩
      apply hallocate.bind
      intro o
      exact (Behaviour.isolated_setProperties o _).bind fun _ => trivial

theorem instantiate_of_error {id className : String} {args : CallArgs} {error : Error}
    (hcheck : catalog.ensureInstantiable id className args.positional.length = .error error) :
    catalog.instantiate id className args = .fail error := by
  unfold Catalog.instantiate
  rw [hcheck]
  rfl

theorem Isolated.applyMember (h : catalog.Isolated raises) (o : ObjectRef) (name : String)
    (value : Value) : (catalog.applyMember o name value).Isolated raises := by
  unfold Catalog.applyMember
  cases hmethod : catalog.method? o name with
  | some method => exact (h.method hmethod _).bind fun _ => trivial
  | none => exact ⟨trivial, fun _ => trivial⟩

end Catalog
end Wiring
