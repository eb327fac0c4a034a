import Mathlib.Tactic.Common
import Wiring.Registry

/-!
# Reachable registries

A registry is reachable if it comes from the empty one by registrations, whatever they are and
however they end. A property that the single changes keep is kept by every registration, by every
provider and by every hook, also where they fail half way.
-/

namespace Wiring

/-- The registry that a registration leaves behind. -/
def Registration.after (op : Registration) (registry : Registry) (store : Store) : Registry :=
  (op.run.run ⟨registry, store⟩).2.registry

inductive Registry.Reachable : Registry → Prop
  | empty : Reachable ∅
  | step {registry : Registry} (op : Registration) (store : Store) :
      Reachable registry → Reachable (op.after registry store)

namespace Registering

variable {α β : Type} (P : Registry → Prop)

/-- Whatever the end of `act`, it leaves a registry with `P` if it found one. -/
def Keeps (act : Registering α) : Prop :=
  ∀ setup : Setup, P setup.registry → P (act.run setup).2.registry

variable {P}

theorem Keeps.pure (a : α) : Keeps P (Pure.pure a : Registering α) := fun _ h => h

theorem Keeps.throw (error : Error) : Keeps P (MonadExcept.throw error : Registering α) :=
  fun _ h => h

theorem run_bind (act : Registering α) (next : α → Registering β) (setup : Setup) :
    (act >>= next).run setup = match act.run setup with
      | (.ok a, later) => (next a).run later
      | (.error error, later) => (.error error, later) := by
  rw [ExceptT.run_bind]
  change ExceptT.bindCont next (act.run setup).1 (act.run setup).2 = _
  obtain ⟨result, later⟩ := act.run setup
  cases result <;> rfl

theorem bind_eq_ok {act : Registering α} {next : α → Registering β} {setup last : Setup} {b : β}
    (h : (act >>= next).run setup = (.ok b, last)) :
    ∃ a later, act.run setup = (.ok a, later) ∧ (next a).run later = (.ok b, last) := by
  rw [run_bind] at h
  generalize act.run setup = ran at h
  obtain ⟨result, later⟩ := ran
  cases result with
  | ok a => exact ⟨a, later, rfl, h⟩
  | error error => cases congrArg Prod.fst h

theorem Keeps.bind {act : Registering α} {next : α → Registering β} (hact : Keeps P act)
    (hnext : ∀ a, Keeps P (next a)) : Keeps P (act >>= next) := by
  intro setup h
  have hfirst := hact setup h
  rw [run_bind]
  generalize act.run setup = ran at hfirst ⊢
  obtain ⟨result, later⟩ := ran
  cases result with
  | ok a => exact hnext a later hfirst
  | error error => exact hfirst

theorem run_change (f : Registry → Except Error Registry) (setup : Setup) :
    (change f).run setup = match f setup.registry with
      | .ok registry => (.ok (), { setup with registry })
      | .error error => (.error error, setup) := by
  change (match f setup.registry with
    | .ok registry => (set { setup with registry } : Registering Unit)
    | .error error => MonadExcept.throw error) setup = _
  cases f setup.registry <;> rfl

theorem change_eq_ok {f : Registry → Except Error Registry} {setup later : Setup}
    (h : (change f).run setup = (.ok (), later)) : f setup.registry = .ok later.registry := by
  rw [run_change] at h
  cases hresult : f setup.registry with
  | ok changed =>
      rw [hresult] at h
      exact congrArg (fun ran => Except.ok ran.2.registry) h
  | error error =>
      rw [hresult] at h
      cases congrArg Prod.fst h

theorem change_error_iff (f : Registry → Except Error Registry) (setup : Setup) {error : Error} :
    ((change f).run setup).1 = .error error ↔ f setup.registry = .error error := by
  rw [run_change]
  cases f setup.registry with
  | ok registry => exact iff_of_false (fun h => by cases h) fun h => by cases h
  | error failed => rw [Except.error.injEq, Except.error.injEq]

theorem Keeps.change {f : Registry → Except Error Registry}
    (hf : ∀ registry changed, P registry → f registry = .ok changed → P changed) :
    Keeps P (change f) := by
  intro setup h
  rw [run_change]
  cases hresult : f setup.registry with
  | ok changed => exact hf _ _ h hresult
  | error error => exact h

theorem Keeps.change_total {f : Registry → Registry}
    (hf : ∀ registry, P registry → P (f registry)) :
    Keeps P (Registering.change fun registry => .ok (f registry)) :=
  .change fun registry changed h hok => by
    obtain rfl : f registry = changed := by simpa using hok
    exact hf registry h

theorem Keeps.record (event : Event) : Keeps P (record event) := fun _ h => h

theorem Keeps.create (what : Store.Creation) : Keeps P (create what) := fun _ h => h

theorem outcome_eq_ok {act : Registering Unit} {setup later : Setup} {result : Except Error Unit}
    (h : (outcome act).run setup = (.ok result, later)) : act.run setup = (result, later) := by
  change (match act.run setup with
    | (ended, left) => ((.ok ended, left) : Except Error (Except Error Unit) × Setup)) = _ at h
  generalize act.run setup = ran at h ⊢
  obtain ⟨ended, left⟩ := ran
  cases h
  rfl

theorem Keeps.outcome {act : Registering Unit} (hact : Keeps P act) : Keeps P (outcome act) :=
  fun setup h => hact setup h

end Registering

namespace Registry

/-! ### What the single changes come to where they succeed -/

variable {registry changed : Registry} {id : String}

theorem bind_ensureNotFrozen {next : Except Error Registry}
    (h : (do registry.ensureNotFrozen id; next) = .ok changed) :
    registry.isFrozen id = false ∧ next = .ok changed := by
  unfold ensureNotFrozen at h
  split at h
  · cases h
  · next hfree => exact ⟨Bool.eq_false_iff.mpr hfree, h⟩

theorem set_eq_ok {definition : Definition} (h : registry.set id definition = .ok changed) :
    registry.isFrozen id = false ∧
      changed = place { registry with aliases := registry.aliases.erase id } id
        (definition.attach id) := by
  obtain ⟨hfree, hplaced⟩ := bind_ensureNotFrozen h
  exact ⟨hfree, (Except.ok.inj hplaced).symm⟩

theorem update_eq_ok {change : Definition → Definition}
    (h : registry.update id change = .ok changed) :
    ∃ definition, registry.isFrozen id = false ∧ registry.definition? id = some definition ∧
      changed = registry.place id ((change definition).attach id) := by
  obtain ⟨hfree, hplaced⟩ := bind_ensureNotFrozen h
  split at hplaced
  · cases hplaced
  · next definition hfound => exact ⟨definition, hfree, hfound, (Except.ok.inj hplaced).symm⟩

theorem decorate_eq_ok {decorator : Decorator} (h : registry.decorate id decorator = .ok changed) :
    ∃ definition, registry.isFrozen id = false ∧ registry.definition? id = some definition ∧
      changed = { registry with
        definitions := registry.definitions.insert id (definition.decorate decorator) } := by
  obtain ⟨hfree, hplaced⟩ := bind_ensureNotFrozen h
  split at hplaced
  · cases hplaced
  · next definition hfound => exact ⟨definition, hfree, hfound, (Except.ok.inj hplaced).symm⟩

theorem addAlias_eq_ok {name target : String} (h : registry.addAlias name target = .ok changed) :
    ∃ aliases, registry.aliases.insert name target = .ok aliases ∧
      changed = { registry with aliases } := by
  unfold addAlias at h
  split at h
  · cases h
  · dsimp only at h
    split at h
    · cases hinsert : registry.aliases.insert name target with
      | error error => simp [hinsert, bind, Except.bind] at h
      | ok aliases =>
          refine ⟨aliases, rfl, ?_⟩
          simpa [hinsert, bind, Except.bind, pure, Except.pure] using h.symm
    · cases h

/-- Configuration that says something is kept as a service and as a parameter. -/
theorem keepConfig_eq_ok {name : String} {config : Value}
    (h : registry.keepConfig name config = .ok changed) :
    (config.isVacant = true ∧ changed = registry) ∨ (config.isVacant = false ∧ ∃ registered,
      registry.set (name ++ ".config") (.ofValue config) = .ok registered ∧
        changed = registered.setParameter name config) := by
  unfold keepConfig at h
  split at h
  · next hvacant => exact .inl ⟨hvacant, (Except.ok.inj h).symm⟩
  · next hkept =>
      cases hset : registry.set (name ++ ".config") (.ofValue config) with
      | error error => simp [hset, bind, Except.bind] at h
      | ok registered =>
          refine .inr ⟨Bool.eq_false_iff.mpr hkept, registered, rfl, ?_⟩
          simpa [hset, bind, Except.bind, pure, Except.pure] using h.symm

end Registry

/-- The single changes that registrations are made of keep `P`. -/
structure Registry.Closed (P : Registry → Prop) : Prop where
  set : ∀ {registry changed : Registry} (id : String) (definition : Definition),
    P registry → registry.set id definition = .ok changed → P changed
  update : ∀ {registry changed : Registry} (id : String) (change : Definition → Definition),
    P registry → registry.update id change = .ok changed → P changed
  decorate : ∀ {registry changed : Registry} (id : String) (decorator : Decorator),
    P registry → registry.decorate id decorator = .ok changed → P changed
  remove : ∀ {registry : Registry} (id : String), P registry → P (registry.remove id)
  addAlias : ∀ {registry changed : Registry} (name target : String),
    P registry → registry.addAlias name target = .ok changed → P changed
  tag : ∀ {registry : Registry} (id tag : String) (attributes : Value),
    P registry → P (registry.tag id tag attributes)
  setParameter : ∀ {registry : Registry} (name : String) (value : Value),
    P registry → P (registry.setParameter name value)
  registerClass : ∀ {registry : Registry} (spec : ClassSpec),
    P registry → P (registry.registerClass spec)
  exclude : ∀ {registry : Registry} (typeName : String), P registry → P (registry.exclude typeName)
  freeze : ∀ {registry : Registry} (id : String), P registry → P (registry.freeze id)
  resetRuntimeState : ∀ {registry : Registry}, P registry → P registry.resetRuntimeState
  reindex : ∀ {registry : Registry}, P registry → P registry.reindex
  addProvider : ∀ {registry : Registry} (provider : Provider),
    P registry → P (registry.addProvider provider)

namespace Registry.Closed

open Registering

variable {P : Registry → Prop}

theorem keepConfig (closed : Registry.Closed P) {registry changed : Registry} (name : String)
    (config : Value) (h : P registry) (hchanged : registry.keepConfig name config = .ok changed) :
    P changed := by
  rcases keepConfig_eq_ok hchanged with ⟨-, rfl⟩ | ⟨-, registered, hset, rfl⟩
  · exact h
  · exact closed.setParameter name config (closed.set _ _ h hset)

mutual

theorem keeps_registration (closed : Registry.Closed P) : ∀ op : Registration, Keeps P op.run
  | .set id definition => .change fun _ _ h => closed.set id definition h
  | .autowire id definition types => .change fun _ _ h => closed.set id (definition.autowire types) h
  | .update id f => .change fun _ _ h => closed.update id f h
  | .decorate id decorator => .change fun _ _ h => closed.decorate id decorator h
  | .remove id => Keeps.change_total fun _ h => closed.remove id h
  | .addAlias name target => .change fun _ _ h => closed.addAlias name target h
  | .tag id tag attributes => Keeps.change_total fun _ h => closed.tag id tag attributes h
  | .parameter name value => Keeps.change_total fun _ h => closed.setParameter name value h
  | .registerClass spec => Keeps.change_total fun _ h => closed.registerClass spec h
  | .exclude typeName => Keeps.change_total fun _ h => closed.exclude typeName h
  | .freeze id => Keeps.change_total fun _ h => closed.freeze id h
  | .resetRuntimeState => Keeps.change_total fun _ h => closed.resetRuntimeState h
  | .reindex => Keeps.change_total fun _ h => closed.reindex h
  | .provider provider config => closed.keeps_install provider config

theorem keeps_install (closed : Registry.Closed P) :
    ∀ (provider : Provider) (config : Value), Keeps P (provider.install config)
  | .mk name register beforeCompile, config => by
      unfold Provider.install
      refine .bind (.change fun _ _ h => closed.keepConfig name config h) fun _ => ?_
      refine .bind (closed.keeps_hook (register config)) fun _ => ?_
      exact Keeps.change_total fun _ h => closed.addProvider _ h

theorem keeps_hook (closed : Registry.Closed P) : ∀ hook : Hook, Keeps P hook.run
  | .done => .pure ()
  | .fail error => .throw error
  | .record event next => .bind (.record event) fun _ => closed.keeps_hook next
  | .create what next => .bind (.create what) fun value => closed.keeps_hook (next value)
  | .perform step next => .bind (.outcome (closed.keeps_registration step)) fun result =>
      closed.keeps_hook (next result)

end

end Registry.Closed

/-- What the empty registry has and the single changes keep, every reachable registry has. -/
theorem Registry.Reachable.induct {P : Registry → Prop} (closed : Registry.Closed P)
    (empty : P ∅) {registry : Registry} (reachable : registry.Reachable) : P registry := by
  induction reachable with
  | empty => exact empty
  | step op store _ ih => exact closed.keeps_registration op ⟨_, store⟩ ih

end Wiring
