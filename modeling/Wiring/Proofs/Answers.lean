import Wiring.Proofs.Accords
import Wiring.Proofs.Tracking

/-!
# Answers to demands

Where the compiler meets a demand the interpreter answers it. Evaluating the arguments of a
definition, calling what they are handed to and binding the rest tracks the demands that compiling
the definition meets, as soon as each single answer does.
-/

namespace Wiring

open Compiling

namespace Interpreter

open Run

variable {exempt raises : Error → Prop} {G : Dict Routine → World → Prop} {scope : Scope}
  {recur : Caller} {c : ContainerRef} {registry : Registry} {id : String}

/-- What the compiler knows of the registry is what the interpreter reads in its own. -/
structure Mirrors (exempt raises : Error → Prop) (G : Dict Routine → World → Prop)
    (scope : Scope) (recur : Caller) (c : ContainerRef) (registry : Registry) : Prop where
  storeless : Storeless G
  raised : ∀ error, raises error → exempt error
  faulty : ∀ id fault, Fault.AtRunTime fault → exempt (.invalidEntity id fault)
  isolated : registry.catalog.Isolated raises
  catalog : registry.catalog = scope.plan.registry.catalog
  parameters : registry.parameters = scope.plan.registry.parameters
  candidates : ∀ typeName, registry.candidates typeName = scope.plan.candidates typeName
  invoke : ∀ f args, Follows exempt G (pure ()) (recur (.invoke c f args))

/-- The demand is answered as it is met. -/
def Answers (exempt : Error → Prop) (G : Dict Routine → World → Prop) (scope : Scope)
    (recur : Caller) (c : ContainerRef) (registry : Registry) (id : String) : Demand → Prop
  | .reference name =>
      Follows exempt G (meet scope id (.reference name)) (reference recur c registry name)
  | .callee name => Follows exempt G (meet scope id (.callee name)) (recur (.resolve c name {}))
  | _ => True

section Mirrors

variable (mirrors : Mirrors exempt raises G scope recur c registry)

include mirrors

theorem instantiate_follows (className : String) (args : CallArgs) :
    Follows exempt G (meet scope id (.construct className args.positional.length))
      ((registry.catalog.instantiate id className args).run recur) := by
  rw [meet, Plan.settle, ← mirrors.catalog]
  cases hcheck : registry.catalog.ensureInstantiable id className args.positional.length with
  | error error =>
      obtain ⟨fault, rfl⟩ := Catalog.ensureInstantiable_error hcheck
      rw [Catalog.instantiate_of_error hcheck]
      change Follows exempt G (lift (.error (.invalidEntity id fault)))
        (Run.fail (.invalidEntity id fault))
      exact Follows.fail rfl
  | ok checked =>
      change Follows exempt G (pure ()) _
      exact Follows.isolated mirrors.raised mirrors.storeless recur
        (mirrors.isolated.instantiate hcheck)

theorem parameter_follows (name : String) :
    Follows exempt G (meet scope id (.parameter name)) (Run.ofExcept (registry.parameter name)) := by
  rw [meet, Plan.settle, Registry.parameter, Registry.parameter, ← mirrors.parameters]
  cases registry.parameters.get? name with
  | none =>
      change Follows exempt G (lift (.error (.parameterNotFound name)))
        (Run.fail (.parameterNotFound name))
      exact Follows.fail rfl
  | some value =>
      change Follows exempt G (pure ()) (pure value)
      exact Follows.pure value

theorem callee_follows (target : Callee) (args : CallArgs)
    (hanswers : ∀ demand ∈ target.demands args.positional.length,
      Answers exempt G scope recur c registry id demand) :
    Follows exempt G (meetAll scope id (target.demands args.positional.length))
      (Reading.callee recur (reading c registry) id target args) := by
  cases target with
  | invocable f => exact mirrors.invoke f args
  | construct className =>
      rw [Callee.demands, meetAll_singleton]
      exact instantiate_follows mirrors className args
  | service name =>
      have hname : Answers exempt G scope recur c registry id (.callee name) :=
        hanswers _ List.mem_cons_self
      rw [Callee.demands, meetAll_singleton]
      exact Follows.and_then hname fun service => Follows.callService recur
        mirrors.faulty mirrors.invoke id name service args
  | method name method =>
      have hname : Answers exempt G scope recur c registry id (.callee name) :=
        hanswers _ List.mem_cons_self
      rw [Callee.demands, meetAll_singleton]
      exact Follows.and_then hname fun service => Follows.callMethod mirrors.raised
        mirrors.storeless recur mirrors.isolated mirrors.faulty id name method service args

/-- Answering demands as they are met goes on from one to the next. -/
def Answers.concord (exempt : Error → Prop) (G : Dict Routine → World → Prop) (scope : Scope)
    (recur : Caller) (c : ContainerRef) (registry : Registry) (id : String) : Concord where
  Known := Answers exempt G scope recur c registry id
  Holds demands _ run := Follows exempt G (meetAll scope id demands) run
  pure a := .pure a
  bind := by
    intro α β demands others run other next next' h hnext
    rw [meetAll_append]
    exact h.bind hnext

/-- **Definitions.** Making a service answers what compiling its definition demands. -/
theorem create_follows (definition : Definition)
    (hdecorators : ∀ decorator ∈ definition.decorators, ∀ c service,
      (decorator.apply c service).Isolated raises)
    (hanswers : ∀ demand ∈ definition.demands scope.plan.candidates,
      Answers exempt G scope recur c registry id demand) :
    Follows exempt G (meetAll scope id (definition.demands scope.plan.candidates))
      (create recur c registry id definition) := by
  have hpieces : (Answers.concord exempt G scope recur c registry id).Pieces recur recur
      (reading c registry) (reading c registry) id definition := {
    candidates := rfl
    reference := fun name hanswer => by
      change Follows exempt G (meetAll scope id [.reference name]) _
      rw [meetAll_singleton]
      exact hanswer
    parameter := fun name _ => by
      change Follows exempt G (meetAll scope id [.parameter name]) _
      rw [meetAll_singleton]
      exact parameter_follows mirrors name
    callee := callee_follows mirrors
    member := fun service name _ _ _ hvalue =>
      .bindMember mirrors.raised mirrors.storeless recur mirrors.isolated mirrors.faulty id name
        service hvalue
    extra := Follows.runExtra recur mirrors.invoke
    decorate := Follows.decorate mirrors.raised mirrors.storeless recur hdecorators }
  rw [← funext mirrors.candidates] at hanswers ⊢
  rw [create_reading]
  exact Concord.create_holds hpieces hanswers

end Mirrors

end Interpreter
end Wiring
