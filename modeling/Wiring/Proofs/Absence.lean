import Wiring.Proofs.Accords
import Wiring.Proofs.Isolation

/-!
# What is missing when a service cannot be made

Making a service never finds by itself that something is missing: names are looked up by further
calls, and parameters, classes and values that are not as they should be are reported in other ways.
So where making a service fails because a name leads to nothing, either a call that it made on the way
has failed so, or user code has.
-/

namespace Wiring

/-- If the run fails because something is missing, it is one of `names`. -/
def Run.Lacks {α : Type} (names : String → Prop) (act : Run α) : Prop :=
  ∀ world name later, act world = (.error (.error (.notFound name)), later) → names name

namespace Run.Lacks

variable {α β : Type} {names : String → Prop}

/-- What does not fail. -/
theorem of_ok {act : Run α} (h : ∀ world, ∃ a, (act world).1 = .ok a) : act.Lacks names := by
  intro world name later hact
  obtain ⟨a, ha⟩ := h world
  rw [hact] at ha
  cases ha

theorem pure (a : α) : Lacks names (pure a : Run α) := .of_ok fun _ => ⟨a, rfl⟩

theorem fail {error : Error} (h : ∀ name, error = .notFound name → names name) :
    Lacks names (Run.fail error : Run α) := by
  intro world name later hact
  obtain rfl : error = .notFound name := Halt.error.inj (Except.error.inj (congrArg Prod.fst hact))
  exact h name rfl

theorem ofExcept {result : Except Error α}
    (h : ∀ name, result = .error (.notFound name) → names name) :
    Lacks names (Run.ofExcept result) := by
  cases result with
  | ok a => exact .pure a
  | error error => exact .fail fun name herror => h name (congrArg Except.error herror)

theorem onStore (f : Store → α × Store) : Lacks names (Run.onStore f) := .of_ok fun _ => ⟨_, rfl⟩

/-- What comes next need only be looked at for what the run can give. -/
theorem bind_given {act : Run α} {next : α → Run β} (hact : act.Lacks names)
    (hnext : ∀ a, act.Gives a → (next a).Lacks names) : Lacks names (act >>= next) := by
  intro world name later hrun
  rw [Run.bind_apply] at hrun
  rcases hact' : act world with ⟨_ | a, between⟩
  · rw [hact'] at hrun
    cases hrun
    exact hact world name later hact'
  · rw [hact'] at hrun
    exact hnext a ⟨world, between, hact'⟩ between name later hrun

theorem bind {act : Run α} {next : α → Run β} (hact : act.Lacks names)
    (hnext : ∀ a, (next a).Lacks names) : Lacks names (act >>= next) :=
  hact.bind_given fun a _ => hnext a

theorem foldlM {visit : α → β → Run α} {items : List β}
    (h : ∀ item ∈ items, ∀ a, (visit a item).Lacks names) (a : α) :
    Lacks names (items.foldlM visit a) := by
  induction items generalizing a with
  | nil => exact .pure a
  | cons item rest ih =>
      rw [List.foldlM_cons]
      exact (h item List.mem_cons_self a).bind fun b =>
        ih (fun other hother => h other (List.mem_cons_of_mem _ hother)) b

end Run.Lacks

/-! ### User code -/

namespace Behaviour

variable {α β : Type} {names : String → Prop} {recur : Caller}

theorem run_bind (recur : Caller) (b : Behaviour α) (next : α → Behaviour β) :
    (b.bind next).run recur = (do (next (← b.run recur)).run recur) := by
  induction b with
  | done result => cases result <;> rfl
  | ask request rest ih =>
      change request.perform recur >>= (fun reply => ((rest reply).bind next).run recur) = _
      simp only [ih]
      exact (LawfulMonad.bind_assoc ..).symm

theorem lacks_bind {b : Behaviour α} {next : α → Behaviour β} (hb : Run.Lacks names (b.run recur))
    (hnext : ∀ a, Run.Lacks names ((next a).run recur)) :
    Run.Lacks names ((b.bind next).run recur) := by
  rw [run_bind]
  exact hb.bind hnext

theorem Isolated.lacks {b : Behaviour α} (h : b.Isolated fun _ => False) :
    Run.Lacks names (b.run recur) := by
  intro world name later hrun
  obtain ⟨result, store, hsame, -, hraises⟩ := h.run_eq recur world
  rw [hsame] at hrun
  cases result with
  | ok a => cases hrun
  | error error => exact (hraises error rfl).elim

end Behaviour

/-- What constructors and methods find missing is among `names`. -/
structure Catalog.Lacks (names : String → Prop) (recur : Caller) (catalog : Catalog) : Prop where
  construct : ∀ {className : String} {spec : ClassSpec} {construct : CallArgs → Behaviour ObjectRef},
    catalog.class? className = some spec → spec.construct = some construct →
      ∀ args, Run.Lacks names ((construct args).run recur)
  method : ∀ {o : ObjectRef} {name : String} {method : ObjectRef → CallArgs → Behaviour Value},
    catalog.method? o name = some method → ∀ args, Run.Lacks names ((method o args).run recur)

namespace Catalog

variable {names : String → Prop} {recur : Caller} {catalog : Catalog}

theorem ensureInstantiable_ne (catalog : Catalog) (id className : String) (positional : Nat)
    (name : String) :
    catalog.ensureInstantiable id className positional ≠ .error (.notFound name) := by
  unfold ensureInstantiable
  cases catalog.class? className with
  | none => dsimp only; split <;> simp
  | some spec => dsimp only; split_ifs <;> simp

namespace Lacks

variable (h : catalog.Lacks names recur)

include h

theorem instantiate (id className : String) (args : CallArgs) :
    Run.Lacks names ((catalog.instantiate id className args).run recur) := by
  unfold Catalog.instantiate
  refine Behaviour.lacks_bind (.ofExcept fun name hcheck => ?_) fun _ => ?_
  · exact absurd hcheck (catalog.ensureInstantiable_ne id className _ name)
  · cases hconstruct : (catalog.class? className).bind ClassSpec.construct with
    | some construct =>
        obtain ⟨spec, hspec, hmake⟩ := Option.bind_eq_some_iff.mp hconstruct
        exact Behaviour.lacks_bind (h.construct hspec hmake args) fun _ => .pure _
    | none =>
        refine Behaviour.lacks_bind (.of_ok fun _ => ⟨_, rfl⟩) fun o => ?_
        exact Behaviour.lacks_bind (Behaviour.isolated_setProperties o _).lacks fun _ => .pure _

theorem callMethod (id : String) (o : ObjectRef) (name : String) (args : CallArgs) :
    Run.Lacks names ((catalog.callMethod id o name args).run recur) := by
  unfold Catalog.callMethod
  cases hmethod : catalog.method? o name with
  | some method => exact h.method hmethod args
  | none => exact .fail fun _ herror => by cases herror

theorem applyMember (o : ObjectRef) (name : String) (value : Value) :
    Run.Lacks names ((catalog.applyMember o name value).run recur) := by
  unfold Catalog.applyMember
  cases hmethod : catalog.method? o name with
  | some method => exact Behaviour.lacks_bind (h.method hmethod _) fun _ => .pure _
  | none => exact .of_ok fun _ => ⟨(), rfl⟩

end Lacks

end Catalog

/-! ### Going through a definition -/

namespace Reading

variable {names : String → Prop} {recur : Caller} {reading : Reading}

/-- What calls, parameters and the code of classes find missing is among `names`. -/
structure Lacks (names : String → Prop) (recur : Caller) (reading : Reading) : Prop where
  call : ∀ call, (recur call).Lacks names
  parameter : ∀ name missing, reading.parameter name ≠ .error (.notFound missing)
  catalog : reading.catalog.Lacks names recur

namespace Lacks

variable {id : String}

theorem reference (h : reading.Lacks names recur) (name : String) :
    Run.Lacks names (reading.reference recur name) := by
  unfold Reading.reference
  split
  · exact (Run.Lacks.onStore _).bind fun _ => .pure _
  · exact h.call _

theorem callee (h : reading.Lacks names recur) (target : Callee) (args : CallArgs) :
    Run.Lacks names (reading.callee recur id target args) := by
  cases target with
  | invocable f => exact h.call _
  | construct className => exact h.catalog.instantiate id className args
  | service name =>
      refine (h.call _).bind fun service => ?_
      unfold Run.callService
      split
      · exact h.call _
      · split
        · exact .pure _
        · exact .fail fun _ herror => by cases herror
  | method name method =>
      refine (h.call _).bind fun service => ?_
      unfold Run.callMethod
      split
      · exact h.catalog.callMethod id _ method args
      · exact .fail fun _ herror => by cases herror

theorem bindMember (h : reading.Lacks names recur) (service : Value) (name : String)
    {value : Run Value} (hvalue : value.Lacks names) :
    Run.Lacks names (Run.bindMember recur reading.catalog id service name value) := by
  unfold Run.bindMember
  split
  · exact hvalue.bind fun _ => h.catalog.applyMember _ name _
  · exact .fail fun _ herror => by cases herror

theorem runExtra (h : reading.Lacks names recur) (service code : Value) :
    Run.Lacks names (Run.runExtra recur reading.home service code) := by
  unfold Run.runExtra
  split
  · exact (h.call _).bind fun _ => .pure ()
  · exact .pure ()

end Lacks

/-- Only the run itself is looked at, whatever its demands. -/
def Lacks.concord (names : String → Prop) : Concord where
  Known _ := True
  Holds _ _ run := run.Lacks names
  pure := .pure
  bind h hnext := h.bind_given hnext

theorem Lacks.create (h : reading.Lacks names recur) {id : String} {definition : Definition}
    (hdecorators : ∀ decorator ∈ definition.decorators, ∀ service,
      Run.Lacks names ((decorator.apply reading.home service).run recur)) :
    Run.Lacks names (reading.create recur id definition) := by
  have hpieces : (Lacks.concord names).Pieces recur recur reading reading id definition := {
    candidates := rfl
    reference := fun name _ => h.reference name
    parameter := fun name _ => .ofExcept fun missing hfound =>
      absurd hfound (h.parameter name missing)
    callee := fun target args _ => h.callee target args
    member := fun service name _ _ _ hvalue => h.bindMember service name hvalue
    extra := h.runExtra
    decorate := .foldlM hdecorators }
  exact Concord.create_holds hpieces fun _ _ => trivial

end Reading

end Wiring
