import Wiring.Proofs.Frozen

/-!
# What failed registrations leave behind

A single registration looks before it writes: where it fails, the registry is what it was. A provider
performs many of them, and nothing is taken back when it fails. What it leaves is then what its
successful steps make of the registry by themselves, as if none of the others had been tried.
-/

namespace Wiring

/-- What takes effect in a registry at once. -/
inductive Deed where
  | single (op : Registration)
  | added (provider : Provider)

/-- The deed succeeds, with nothing done to the store, and that leaves `later`. -/
def Deed.Does (registry later : Registry) : Deed → Prop
  | .single op => op.Single ∧ ∀ store, op.run.run ⟨registry, store⟩ = (.ok (), ⟨later, store⟩)
  | .added provider => later = registry.addProvider provider

/-- The deeds succeed one after the other. -/
inductive Registry.Replays : Registry → List Deed → Registry → Prop
  | nil (registry : Registry) : Replays registry [] registry
  | cons {registry later last : Registry} {deed : Deed} {deeds : List Deed}
      (hdoes : deed.Does registry later) (hrest : Replays later deeds last) :
      Replays registry (deed :: deeds) last

theorem Registry.Replays.append {registry later last : Registry} {deeds others : List Deed}
    (h : registry.Replays deeds later) (h' : later.Replays others last) :
    registry.Replays (deeds ++ others) last := by
  induction h with
  | nil => exact h'
  | cons hdoes _ ih => exact .cons hdoes (ih h')

theorem Registry.Replays.one {registry later : Registry} {deed : Deed}
    (hdoes : deed.Does registry later) : registry.Replays [deed] later :=
  .cons hdoes (.nil later)

/-- A provider's configuration is a service and a parameter. -/
def Provider.keeping (name : String) (config : Value) : List Deed :=
  if config.isVacant then []
  else [.single (.set (name ++ ".config") (.ofValue config)), .single (.parameter name config)]

mutual

/-- What takes effect where the registration is run, in order. -/
def Registration.deeds : Registration → Setup → List Deed
  | .provider provider config, setup => provider.deeds config setup
  | op, setup =>
      match (op.run.run setup).1 with
      | .ok () => [.single op]
      | .error _ => []

def Provider.deeds : Provider → Value → Setup → List Deed
  | .mk name register beforeCompile, config, setup =>
      match (Registering.change (·.keepConfig name config)).run setup with
      | (.error _, _) => []
      | (.ok (), kept) =>
          Provider.keeping name config ++ ((register config).deeds kept ++
            match ((register config).run.run kept).1 with
            | .ok () => [.added (.mk name register beforeCompile)]
            | .error _ => [])

def Hook.deeds : Hook → Setup → List Deed
  | .done, _ => []
  | .fail _, _ => []
  | .record event next, setup => next.deeds ((Registering.record event).run setup).2
  | .create what next, setup =>
      (next (setup.store.create what).1).deeds ((Registering.create what).run setup).2
  | .perform step next, setup =>
      step.deeds setup ++ (next (step.run.run setup).1).deeds (step.run.run setup).2

end

namespace Registration

open Registering

variable {op : Registration}

/-- A single registration changes the registry as a whole or not at all. -/
theorem run_eq_change (hsingle : op.Single) : ∃ f, op.run = change f := by
  cases op with
  | provider provider config => exact hsingle.elim
  | _ =>
      rw [Registration.run]
      exact ⟨_, rfl⟩

theorem does_of_run {f : Registry → Except Error Registry} (hsingle : op.Single)
    (hrun : op.run = change f) {registry later : Registry} (h : f registry = .ok later) :
    (Deed.single op).Does registry later :=
  ⟨hsingle, fun store => by rw [hrun, run_change, h]⟩

/-- What fails leaves everything as it was; what succeeds is a deed. -/
theorem run_single (hsingle : op.Single) (setup : Setup) :
    (∃ error, op.run.run setup = (.error error, setup)) ∨
      ∃ later, op.run.run setup = (.ok (), { setup with registry := later }) ∧
        (Deed.single op).Does setup.registry later := by
  obtain ⟨f, hf⟩ := run_eq_change hsingle
  cases hresult : f setup.registry with
  | error error => exact .inl ⟨error, by rw [hf, run_change, hresult]⟩
  | ok later => exact .inr ⟨later, by rw [hf, run_change, hresult], does_of_run hsingle hf hresult⟩

theorem deeds_single (hsingle : op.Single) (setup : Setup) :
    op.deeds setup = match (op.run.run setup).1 with
      | .ok () => [.single op]
      | .error _ => [] := by
  cases op with
  | provider provider config => exact hsingle.elim
  | _ => rfl

theorem mem_deeds (hsingle : op.Single) {setup later : Setup}
    (hrun : op.run.run setup = (.ok (), later)) : .single op ∈ op.deeds setup := by
  rw [deeds_single hsingle, hrun]
  exact List.mem_singleton_self _

end Registration

namespace Registry

open Registering

variable {registry : Registry}

theorem replays_keepConfig {name : String} {config : Value} {kept : Registry}
    (h : registry.keepConfig name config = .ok kept) :
    registry.Replays (Provider.keeping name config) kept := by
  unfold Provider.keeping
  rcases keepConfig_eq_ok h with ⟨hvacant, rfl⟩ | ⟨hkept, registered, hset, rfl⟩
  · rw [if_pos hvacant]
    exact .nil _
  · have hparameter : (Deed.single (.parameter name config)).Does registered
        (registered.setParameter name config) := ⟨trivial, fun _ => rfl⟩
    have hsingle : (Registration.set (name ++ ".config") (.ofValue config)).Single := trivial
    have hdefinition : (Deed.single (.set (name ++ ".config") (.ofValue config))).Does registry
        registered := Registration.does_of_run (f := (·.set _ _)) hsingle rfl hset
    rw [if_neg (Bool.eq_false_iff.mp hkept)]
    exact .cons hdefinition (.one hparameter)

theorem replays_single {op : Registration} (hsingle : op.Single) (setup : Setup) :
    setup.registry.Replays (op.deeds setup) (op.run.run setup).2.registry := by
  rw [Registration.deeds_single hsingle]
  rcases Registration.run_single hsingle setup with ⟨error, hrun⟩ | ⟨later, hrun, hdoes⟩
  · rw [hrun]
    exact .nil _
  · rw [hrun]
    exact .one hdoes

theorem replays_inductive : Registration.Inductive
    (fun op => ∀ setup : Setup,
      setup.registry.Replays (op.deeds setup) (op.run.run setup).2.registry)
    (fun hook => ∀ setup : Setup,
      setup.registry.Replays (hook.deeds setup) (hook.run.run setup).2.registry) where
  single op hsingle setup := replays_single hsingle setup
  provider name register beforeCompile config ih setup := by
    change setup.registry.Replays (Provider.deeds (.mk name register beforeCompile) config setup)
      ((Provider.install (.mk name register beforeCompile) config).run setup).2.registry
    rw [Provider.install, run_bind, Provider.deeds, run_change]
    cases hkept : setup.registry.keepConfig name config with
    | error error => exact .nil _
    | ok kept =>
        refine (replays_keepConfig hkept).append ?_
        have hhook := ih ⟨kept, setup.store⟩
        dsimp only
        rw [run_bind]
        generalize (register config).run.run ⟨kept, setup.store⟩ = ran at hhook ⊢
        obtain ⟨result, later⟩ := ran
        cases result with
        | error error =>
            rw [List.append_nil]
            exact hhook
        | ok => exact hhook.append (.one rfl)
  done _ := .nil _
  fail _ _ := .nil _
  record event next ih setup := ih ((Registering.record event).run setup).2
  create what next ih setup :=
    ih (setup.store.create what).1 ((Registering.create what).run setup).2
  perform step next ih ih' setup := (ih setup).append (ih' (step.run.run setup).1 _)

/-- **What registrations do** is done by the single ones that succeed. -/
theorem replays (op : Registration) (setup : Setup) :
    setup.registry.Replays (op.deeds setup) (op.run.run setup).2.registry :=
  replays_inductive.registration op setup

theorem replays_hook (hook : Hook) (setup : Setup) :
    setup.registry.Replays (hook.deeds setup) (hook.run.run setup).2.registry :=
  replays_inductive.hook hook setup

/-- **Failures.** A single registration that fails leaves the registry as it was. So does a provider
whose configuration is refused. Any other provider that fails leaves its configuration, and what its
successful steps make of that: no step that failed leaves a trace, and the provider is not added. -/
theorem failures_traceless {store : Store} {op : Registration} {error : Error}
    (hfail : (op.run.run ⟨registry, store⟩).1 = .error error) :
    (op.Single → op.after registry store = registry) ∧
    ∀ name register beforeCompile config, op = .provider (.mk name register beforeCompile) config →
      (∀ refusal, registry.keepConfig name config = .error refusal →
        op.after registry store = registry) ∧
      ∀ kept, registry.keepConfig name config = .ok kept →
        registry.Replays (Provider.keeping name config) kept ∧
          kept.Replays ((register config).deeds ⟨kept, store⟩) (op.after registry store) := by
  constructor
  · intro hsingle
    rcases Registration.run_single hsingle ⟨registry, store⟩ with ⟨_, hrun⟩ | ⟨later, hrun, -⟩
    · rw [Registration.after, hrun]
    · rw [hrun] at hfail
      cases hfail
  · rintro name register beforeCompile config rfl
    have hinstall : (Registration.provider (.mk name register beforeCompile) config).run =
        (.mk name register beforeCompile : Provider).install config := rfl
    rw [hinstall, Provider.install, run_bind, run_change] at hfail
    refine ⟨fun refusal hrefused => ?_, fun kept hkept => ⟨replays_keepConfig hkept, ?_⟩⟩
    · rw [Registration.after, hinstall, Provider.install, run_bind, run_change, hrefused]
    · rw [hkept] at hfail
      dsimp only at hfail
      rw [Registration.after, hinstall, Provider.install, run_bind, run_change, hkept]
      dsimp only
      have hhook := replays_hook (register config) ⟨kept, store⟩
      rw [run_bind] at hfail ⊢
      generalize (register config).run.run ⟨kept, store⟩ = ran at hfail hhook ⊢
      obtain ⟨result, later⟩ := ran
      cases result with
      | error error => exact hhook
      | ok => cases hfail

/-- A provider that sets `a` and then fails, since an alias of it has no target. -/
def halfway : Registration :=
  .provider (.mk "p" (fun _ =>
    .perform (.set "a" (.ofValue (.int 1))) fun _ =>
      .perform (.addAlias "b" "missing") fun
        | .ok () => .done
        | .error error => .fail error) .done) .null

/-- The definition of `a` is all that is left. -/
theorem failures_traceless_halfway :
    (∅ : Registry).Replays [.single (.set "a" (.ofValue (.int 1)))] (halfway.after ∅ {}) := by
  have hfail : (halfway.run.run ⟨∅, {}⟩).1 = .error (.notFound "missing") := rfl
  exact ((failures_traceless hfail).2 _ _ _ _ rfl).2 ∅ rfl |>.2

/-- **What a provider has done stays done** when it fails. -/
theorem provider_leaves_traces :
    (∅ : Registry).Reachable ∧ (halfway.run.run ⟨∅, {}⟩).1 = .error (.notFound "missing") ∧
      halfway.after ∅ {} ≠ ∅ := by
  refine ⟨.empty, rfl, fun hsame => ?_⟩
  have hdefined : ((halfway.after ∅ {}).definition? "a").isSome = true := rfl
  rw [hsame] at hdefined
  cases hdefined

end Registry
end Wiring
