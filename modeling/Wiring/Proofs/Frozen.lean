import Wiring.Builder
import Wiring.Proofs.Matching
import Wiring.Proofs.Reachability
import Wiring.Proofs.Tables

/-!
# Frozen definitions

A frozen definition stays as it is. Whatever is registered, by providers too, refuses to change it,
unless the id is removed or everything is unfrozen; and aliases come to an id only by name. What a
registration does is told by the single registrations that it may come to.
-/

namespace Wiring

mutual

/-- Every single registration that may come of this one, on any path through its providers, is
allowed. -/
def Registration.Only (allowed : Registration → Prop) : Registration → Prop
  | .provider provider config => provider.Only allowed config
  | op => allowed op

def Provider.Only (allowed : Registration → Prop) : Provider → Value → Prop
  | .mk _ register _, config => (register config).Only allowed

def Hook.Only (allowed : Registration → Prop) : Hook → Prop
  | .done => True
  | .fail _ => True
  | .record _ next => next.Only allowed
  | .create _ next => ∀ value, (next value).Only allowed
  | .perform step next => step.Only allowed ∧ ∀ result, (next result).Only allowed

end

/-- One that no provider makes. -/
def Registration.Single : Registration → Prop
  | .provider _ _ => False
  | _ => True

/-- What holds of single registrations, and is passed on by what providers are made of. -/
structure Registration.Inductive (P : Registration → Prop) (Q : Hook → Prop) : Prop where
  single : ∀ op : Registration, op.Single → P op
  provider : ∀ name register beforeCompile config, Q (register config) →
    P (.provider (.mk name register beforeCompile) config)
  done : Q .done
  fail : ∀ error, Q (.fail error)
  record : ∀ event next, Q next → Q (.record event next)
  create : ∀ what next, (∀ value, Q (next value)) → Q (.create what next)
  perform : ∀ step next, P step → (∀ result, Q (next result)) → Q (.perform step next)

namespace Registration.Inductive

variable {P : Registration → Prop} {Q : Hook → Prop}

mutual

theorem registration (h : Inductive P Q) : ∀ op : Registration, P op
  | .set .. => h.single _ trivial
  | .autowire .. => h.single _ trivial
  | .update .. => h.single _ trivial
  | .decorate .. => h.single _ trivial
  | .remove .. => h.single _ trivial
  | .addAlias .. => h.single _ trivial
  | .tag .. => h.single _ trivial
  | .parameter .. => h.single _ trivial
  | .registerClass .. => h.single _ trivial
  | .exclude .. => h.single _ trivial
  | .freeze .. => h.single _ trivial
  | .resetRuntimeState => h.single _ trivial
  | .reindex => h.single _ trivial
  | .provider provider config => h.registration_of_provider provider config

theorem registration_of_provider (h : Inductive P Q) :
    ∀ (provider : Provider) (config : Value), P (.provider provider config)
  | .mk name register beforeCompile, config =>
      h.provider name register beforeCompile config (h.hook (register config))

theorem hook (h : Inductive P Q) : ∀ hook : Hook, Q hook
  | .done => h.done
  | .fail error => h.fail error
  | .record event next => h.record event next (h.hook next)
  | .create what next => h.create what next fun value => h.hook (next value)
  | .perform step next => h.perform step next (h.registration step) fun result =>
      h.hook (next result)

end

end Registration.Inductive

theorem Registration.only_of_single {op : Registration} (hsingle : op.Single)
    {allowed : Registration → Prop} (h : op.Only allowed) : allowed op := by
  cases op with
  | provider provider config => exact hsingle.elim
  | _ => exact h

/-- The id is neither removed nor unfrozen. -/
def Registration.Leaves (id : String) (op : Registration) : Prop :=
  op.Only fun single => single ≠ .remove id ∧ single ≠ .resetRuntimeState

/-- The id does not become an alias. -/
def Registration.Names (id : String) (op : Registration) : Prop :=
  op.Only fun single => ∀ target, single ≠ .addAlias id target

namespace Registry

open Registering

/-- What keeps `P` under the allowed single registrations, and where a provider keeps its
configuration and is added. -/
structure ClosedUnder (allowed : Registration → Prop) (P : Registry → Prop) : Prop where
  single : ∀ op : Registration, op.Single → allowed op → Keeps P op.run
  set : ∀ {registry changed : Registry} (id : String) (definition : Definition),
    P registry → registry.set id definition = .ok changed → P changed
  setParameter : ∀ {registry : Registry} (name : String) (value : Value),
    P registry → P (registry.setParameter name value)
  addProvider : ∀ {registry : Registry} (provider : Provider),
    P registry → P (registry.addProvider provider)

namespace ClosedUnder

variable {allowed : Registration → Prop} {P : Registry → Prop}

theorem keeps_inductive (closed : ClosedUnder allowed P) :
    Registration.Inductive (fun op => op.Only allowed → Keeps P op.run)
      (fun hook => hook.Only allowed → Keeps P hook.run) where
  single op hsingle h := closed.single op hsingle (Registration.only_of_single hsingle h)
  provider name register beforeCompile config ih h := by
    refine .bind (.change fun registry changed hkept hchanged => ?_) fun _ => ?_
    · rcases keepConfig_eq_ok hchanged with ⟨-, rfl⟩ | ⟨-, registered, hset, rfl⟩
      · exact hkept
      · exact closed.setParameter name config (closed.set _ _ hkept hset)
    · exact .bind (ih h) fun _ => Keeps.change_total fun _ hkept => closed.addProvider _ hkept
  done _ := .pure ()
  fail error _ := .throw error
  record event next ih h := .bind (.record event) fun _ => ih h
  create what next ih h := .bind (.create what) fun value => ih value (h value)
  perform step next ih ih' h := .bind (.outcome (ih h.1)) fun result => ih' result (h.2 result)

theorem keeps (closed : ClosedUnder allowed P) (op : Registration) (h : op.Only allowed) :
    Keeps P op.run :=
  closed.keeps_inductive.registration op h

end ClosedUnder

/-! ### What keeps a definition and a name -/

variable {registry changed : Registry} {id : String} {definition : Definition}

theorem isFrozen_remove (registry : Registry) (other id : String) :
    (registry.remove other).isFrozen id = if id = other then false else registry.isFrozen id := by
  have hkept : (registry.remove other).frozen.get? id =
      if id = other then none else registry.frozen.get? id := Dict.get?_erase _ _ _
  rw [isFrozen, Dict.contains, hkept]
  split <;> rfl

theorem isFrozen_freeze_of_ne (registry : Registry) {other id : String} (hne : id ≠ other) :
    (registry.freeze other).isFrozen id = registry.isFrozen id := by
  have hkept : (registry.freeze other).frozen.get? id = registry.frozen.get? id :=
    Dict.get?_insert_of_ne _ hne _
  rw [isFrozen, Dict.contains, hkept, isFrozen, Dict.contains]

/-- Under the id the registry has the definition, and it is frozen. -/
structure Holds (id : String) (definition : Definition) (registry : Registry) : Prop where
  found : registry.definition? id = some definition
  frozen : registry.isFrozen id = true

namespace Holds

theorem ne_of_free {other : String} (h : registry.Holds id definition)
    (hfree : registry.isFrozen other = false) : id ≠ other := by
  rintro rfl
  rw [h.frozen] at hfree
  cases hfree

theorem place {other : String} (h : registry.Holds id definition) (hne : id ≠ other)
    (placed : Definition) : (registry.place other placed).Holds id definition where
  found := by
    have hkept : (registry.place other placed).definition? id =
        if id = other then some placed else registry.definition? id := Table.get?_insert _ _ _ _
    rw [hkept, if_neg hne, h.found]
  frozen := h.frozen

theorem set {other : String} {new : Definition} (h : registry.Holds id definition)
    (hset : registry.set other new = .ok changed) : changed.Holds id definition := by
  obtain ⟨hfree, rfl⟩ := set_eq_ok hset
  have hdropped : ({ registry with aliases := registry.aliases.erase other } : Registry).Holds id
      definition := ⟨h.found, h.frozen⟩
  exact hdropped.place (h.ne_of_free hfree) _

theorem update {other : String} {change : Definition → Definition}
    (h : registry.Holds id definition) (hupdate : registry.update other change = .ok changed) :
    changed.Holds id definition := by
  obtain ⟨old, hfree, -, rfl⟩ := update_eq_ok hupdate
  exact h.place (h.ne_of_free hfree) _

theorem decorate {other : String} {decorator : Decorator} (h : registry.Holds id definition)
    (hdecorate : registry.decorate other decorator = .ok changed) :
    changed.Holds id definition := by
  obtain ⟨old, hfree, -, rfl⟩ := decorate_eq_ok hdecorate
  refine ⟨?_, h.frozen⟩
  have hkept : ({ registry with
      definitions := registry.definitions.insert other (old.decorate decorator) } :
        Registry).definition? id =
      if id = other then some (old.decorate decorator) else registry.definition? id :=
    Table.get?_insert _ _ _ _
  rw [hkept, if_neg (h.ne_of_free hfree), h.found]

theorem remove {other : String} (h : registry.Holds id definition) (hne : id ≠ other) :
    (registry.remove other).Holds id definition where
  found := by
    have hkept : (registry.remove other).definition? id =
        if id = other then none else registry.definition? id := Table.get?_erase _ _ _
    rw [hkept, if_neg hne, h.found]
  frozen := by rw [isFrozen_remove, if_neg hne, h.frozen]

theorem freeze (h : registry.Holds id definition) (other : String) :
    (registry.freeze other).Holds id definition where
  found := h.found
  frozen := (Dict.contains_insert _ _ _ _).mpr (.inr h.frozen)

theorem addAlias {name target : String} (h : registry.Holds id definition)
    (halias : registry.addAlias name target = .ok changed) : changed.Holds id definition := by
  obtain ⟨aliases, -, rfl⟩ := addAlias_eq_ok halias
  exact ⟨h.found, h.frozen⟩

end Holds

/-- **Frozen definitions stay** where they are neither removed nor unfrozen. -/
theorem closed_holds (id : String) (definition : Definition) :
    ClosedUnder (fun single => single ≠ .remove id ∧ single ≠ .resetRuntimeState)
      (Holds id definition) where
  single op hsingle hop := by
    cases op with
    | set other new => exact .change fun _ _ h hset => h.set hset
    | autowire other new types => exact .change fun _ _ h hset => h.set hset
    | update other change => exact .change fun _ _ h hupdate => h.update hupdate
    | decorate other decorator => exact .change fun _ _ h hdecorate => h.decorate hdecorate
    | remove other =>
        refine Keeps.change_total fun _ h => h.remove ?_
        rintro rfl
        exact hop.1 rfl
    | addAlias name target => exact .change fun _ _ h halias => h.addAlias halias
    | freeze other => exact Keeps.change_total fun _ h => h.freeze other
    | resetRuntimeState => exact absurd rfl hop.2
    | provider provider config => exact hsingle.elim
    | _ => exact Keeps.change_total fun _ h => ⟨h.found, h.frozen⟩
  set _ _ h hset := h.set hset
  setParameter _ _ h := ⟨h.found, h.frozen⟩
  addProvider _ h := ⟨h.found, h.frozen⟩

/-- The id is no alias. -/
def Unaliased (id : String) (registry : Registry) : Prop := registry.aliases.target? id = none

namespace Unaliased

theorem set {other : String} {new : Definition} (h : registry.Unaliased id)
    (hset : registry.set other new = .ok changed) : changed.Unaliased id := by
  obtain ⟨-, rfl⟩ := set_eq_ok hset
  change (registry.aliases.erase other).target? id = none
  rw [AliasTable.target?_erase, h, ite_self]

theorem update {other : String} {change : Definition → Definition} (h : registry.Unaliased id)
    (hupdate : registry.update other change = .ok changed) : changed.Unaliased id := by
  obtain ⟨old, -, -, rfl⟩ := update_eq_ok hupdate
  exact h

theorem decorate {other : String} {decorator : Decorator} (h : registry.Unaliased id)
    (hdecorate : registry.decorate other decorator = .ok changed) : changed.Unaliased id := by
  obtain ⟨old, -, -, rfl⟩ := decorate_eq_ok hdecorate
  exact h

theorem remove (h : registry.Unaliased id) (other : String) :
    (registry.remove other).Unaliased id := by
  change ((registry.aliases.erase other).eraseTargeting other).target? id = none
  rw [AliasTable.target?_eraseTargeting, AliasTable.target?_erase, h, ite_self, ite_self]

theorem addAlias {name target : String} (h : registry.Unaliased id) (hne : id ≠ name)
    (halias : registry.addAlias name target = .ok changed) : changed.Unaliased id := by
  obtain ⟨aliases, hinsert, rfl⟩ := addAlias_eq_ok halias
  obtain ⟨-, -, rfl⟩ := AliasTable.insert_eq_ok_iff.mp hinsert
  have hkept : AliasTable.target? { targets := registry.aliases.targets.insert name target } id =
      if id = name then some target else registry.aliases.target? id := Table.get?_insert _ _ _ _
  exact hkept.trans ((if_neg hne).trans h)

end Unaliased

/-- **Names become aliases** by registrations that say so. -/
theorem closed_unaliased (id : String) :
    ClosedUnder (fun single => ∀ target, single ≠ .addAlias id target) (Unaliased id) where
  single op hsingle hop := by
    cases op with
    | set other new => exact .change fun _ _ h hset => h.set hset
    | autowire other new types => exact .change fun _ _ h hset => h.set hset
    | update other change => exact .change fun _ _ h hupdate => h.update hupdate
    | decorate other decorator => exact .change fun _ _ h hdecorate => h.decorate hdecorate
    | remove other => exact Keeps.change_total fun _ h => h.remove other
    | addAlias name target =>
        refine .change fun _ _ h halias => h.addAlias ?_ halias
        rintro rfl
        exact hop target rfl
    | provider provider config => exact hsingle.elim
    | _ => exact Keeps.change_total fun _ h => h
  set _ _ h hset := h.set hset
  setParameter _ _ h := h
  addProvider _ h := h

end Registry

/-! ### Registrations at a container -/

namespace Interpreter

variable (container : Interpreter) (store : Store) (op : Registration)

theorem get?_cache (id : String) (service : Value) (other : String) :
    (container.cache id service).services.get? other =
      if other = id then some service else container.services.get? other :=
  Table.get?_insert _ _ _ _

theorem isFrozen_cache (id : String) (service : Value) {other : String} :
    (container.cache id service).registry.isFrozen other ↔
      other = id ∨ container.registry.isFrozen other :=
  Dict.contains_insert _ _ _ _

/-- The interpreter after a registration, whether that succeeds or fails. -/
def after : Interpreter := (container.register store op).2.1

variable {container}

theorem extend_eq_ok {extended : Interpreter} {id : String} {decorator : Decorator}
    (h : container.extend id decorator = .ok extended) :
    ∃ registry, container.registry.decorate (container.registry.resolveAlias id) decorator =
      .ok registry ∧ extended = { container with registry } := by
  unfold extend at h
  dsimp only at h
  split at h
  · cases h
  · cases hchanged : container.registry.decorate (container.registry.resolveAlias id) decorator with
    | error error =>
        rw [hchanged] at h
        cases h
    | ok registry =>
        rw [hchanged] at h
        exact ⟨registry, rfl, (Except.ok.inj h).symm⟩

/-- A registration changes the registry as it does anywhere; decoration goes through aliases. -/
theorem registry_after {P : Registry → Prop} (hrun : Registering.Keeps P op.run)
    (hdecorate : ∀ {registry changed : Registry} (id : String) (decorator : Decorator),
      P registry → registry.decorate id decorator = .ok changed → P changed)
    (h : P container.registry) : P (container.after store op).registry := by
  unfold after
  cases op with
  | decorate id decorator =>
      rw [register]
      cases hextend : container.extend id decorator with
      | error error => exact h
      | ok extended =>
          obtain ⟨registry, hchanged, rfl⟩ := extend_eq_ok hextend
          exact hdecorate _ _ h hchanged
  | _ => exact hrun ⟨container.registry, store⟩ h

/-- No registration but its removal touches what is cached under an id. -/
theorem services_after {id : String} (hop : op ≠ .remove id) :
    (container.after store op).services.get? id = container.services.get? id := by
  unfold after
  cases op with
  | remove other =>
      have hkept : (container.register store (.remove other)).2.1.services.get? id =
          if id = other then none else container.services.get? id := Table.get?_erase _ _ _
      rw [hkept, if_neg]
      rintro rfl
      exact hop rfl
  | decorate other decorator =>
      rw [register]
      cases hextend : container.extend other decorator with
      | error error => rfl
      | ok extended =>
          obtain ⟨registry, -, rfl⟩ := extend_eq_ok hextend
          rfl
  | _ => rfl

theorem services_after_remove (id : String) :
    (container.after store (.remove id)).services.get? id = none := by
  have hkept : (container.after store (.remove id)).services.get? id =
      if id = id then none else container.services.get? id := Table.get?_erase _ _ _
  rw [hkept, if_pos rfl]

end Interpreter

/-- A registration arrives at the container alone. -/
theorem World.container?_register {world : World} {c : ContainerRef} {container : Interpreter}
    (hat : world.container? c = some (.interpreting container)) (op : Registration) :
    (world.register c op).2.container? c =
      some (.interpreting (container.after world.store op)) := by
  rw [register, hat]
  exact container?_put_self { world with store := (container.register world.store op).2.2 } c _ _
    hat

end Wiring
