import Mathlib.Logic.Relation
import Wiring.Proofs.Frozen
import Wiring.Proofs.TracedCalls

/-!
# A service that was given is given again

Once an interpreter has given a service that is shared, the service is cached and its definition is
frozen. Registrations then refuse to change the definition, and calls cache only what was not cached
yet, so that the same service is given until the id is removed or the container is reset.

They do not refuse to make the id an alias of another one. That is the one way in which something
else is given for it.
-/

namespace Wiring

open Run

namespace Interpreter

/-- The id is that of a definition whose services are public and shared, and it is no alias. -/
structure Offers (id : String) (definition : Definition) (container : Interpreter) : Prop where
  found : container.registry.definition? id = some definition
  shown : definition.flags.hidden = false
  shared : definition.flags.factory = false
  unaliased : container.registry.Unaliased id

/-- The service is cached, and the definition frozen. -/
structure Protects (id : String) (definition : Definition) (service : Value)
    (container : Interpreter) : Prop extends container.Offers id definition where
  frozen : container.registry.isFrozen id = true
  cached : container.services.get? id = some service

variable {container now : Interpreter} {id : String} {definition : Definition} {service : Value}

namespace Offers

theorem of_same (h : container.Offers id definition)
    (hdefinitions : now.registry.definitions = container.registry.definitions)
    (haliases : now.registry.aliases = container.registry.aliases) : now.Offers id definition where
  found := by rw [Registry.definition?, hdefinitions, ← Registry.definition?, h.found]
  shown := h.shown
  shared := h.shared
  unaliased := by rw [Registry.Unaliased, haliases, h.unaliased]

/-- Who asks for the id gets the service of its definition. -/
theorem run_get (h : container.Offers id definition) {world : World} {c : ContainerRef}
    (hat : world.container? c = some (.interpreting container)) (options : ResolveOptions)
    (depth : Nat) :
    Call.run (depth + 1) (.get c id options) world =
      resolveDefinition (Call.run depth) c container.registry (container.services.get? id) id
        definition options world := by
  have hend : container.registry.resolveAlias id = id := AliasTable.resolve_of_free h.unaliased
  have hfound : container.registry.definition? (container.registry.resolveAlias id) =
      some definition := hend.symm ▸ h.found
  have hlookup : container.registry.lookup true id = .definition id := by
    rw [Registry.lookup_of_definition hfound, h.shown, hend]
    rfl
  change Call.step (Call.run depth) (Call.locate true c id options) world = _
  rw [Call.step_locate hat, Container.lookup, hlookup, Lookup.run, Container.obtain, h.found]

end Offers

namespace Protects

/-- A new service is protected from when it is cached. -/
theorem of_cache (h : container.Offers id definition) (service : Value) :
    (container.cache id service).Protects id definition service where
  toOffers := h.of_same rfl rfl
  frozen := (isFrozen_cache container id service).mpr (.inl rfl)
  cached := by rw [get?_cache, if_pos rfl]

theorem cache {other : String} (h : container.Protects id definition service) (hne : id ≠ other)
    (made : Value) : (container.cache other made).Protects id definition service where
  toOffers := h.toOffers.of_same rfl rfl
  frozen := (isFrozen_cache container other made).mpr (.inr h.frozen)
  cached := by rw [get?_cache, if_neg hne, h.cached]

theorem setLoading (h : container.Protects id definition service) (chain : List String) :
    ({ container with loading := chain } : Interpreter).Protects id definition service where
  toOffers := h.toOffers.of_same rfl rfl
  frozen := h.frozen
  cached := h.cached

/-- Registrations let a protected service be, if they leave the id what it is. -/
theorem after (h : container.Protects id definition service) (store : Store) {op : Registration}
    (hleaves : op.Leaves id) (hname : (container.after store op).registry.Unaliased id) :
    (container.after store op).Protects id definition service := by
  have hholds : (container.after store op).registry.Holds id definition :=
    registry_after store op ((Registry.closed_holds id definition).keeps op hleaves)
      (fun _ _ h => h.decorate) ⟨h.found, h.frozen⟩
  have hne : op ≠ .remove id := by
    rintro rfl
    exact hleaves.1 rfl
  exact ⟨⟨hholds.found, h.shown, h.shared, hname⟩, hholds.frozen,
    (services_after store op hne).trans h.cached⟩

end Protects

/-- An alias that is refused changes nothing. -/
theorem registry_after_refused {store : Store} {name target : String} {error : Error}
    (h : (container.register store (.addAlias name target)).1 = .error error) :
    (container.after store (.addAlias name target)).registry = container.registry := by
  have hresult : (container.register store (.addAlias name target)).1 =
      ((Registering.change (·.addAlias name target)).run ⟨container.registry, store⟩).1 := rfl
  have hregistry : (container.after store (.addAlias name target)).registry =
      ((Registering.change (·.addAlias name target)).run ⟨container.registry, store⟩).2.registry :=
    rfl
  rw [hresult, Registering.run_change] at h
  rw [hregistry, Registering.run_change]
  cases halias : container.registry.addAlias name target with
  | error refusal => rfl
  | ok changed =>
      rw [halias] at h
      cases h

end Interpreter

namespace World

variable {c : ContainerRef} {id : String} {definition : Definition} {service : Value}
  {world later : World} {container : Interpreter}

/-- The interpreter at `c` protects the service. -/
def Protects (c : ContainerRef) (id : String) (definition : Definition) (service : Value)
    (world : World) : Prop :=
  ∃ container : Interpreter, world.container? c = some (.interpreting container) ∧
    container.Protects id definition service

/-- What is made was not cached, and the protected service was. -/
theorem withstands_protects (c : ContainerRef) (id : String) (definition : Definition)
    (service : Value) :
    Withstands (fun d _ => d ≠ c) c (Interpreter.Protects id definition service) where
  chain chain h := h.setLoading chain
  cache {before now other made} service _ hnew hbefore hnow := by
    refine hnow.cache ?_ service
    rintro rfl
    rw [hbefore.cached] at hnew
    cases hnew
  clearCache hother := absurd rfl hother
  clearRuntimeState hother := absurd rfl hother

/-- **Calls let a protected service be** where they do not reset its container. -/
theorem Trace.protects {makings : List Making} (h : Trace (fun d _ => d ≠ c) world makings later)
    (hprotects : world.Protects c id definition service) :
    later.Protects c id definition service :=
  h.hosts (withstands_protects c id definition service) hprotects

/-- What is made for an id that is asked for is protected from then on. -/
theorem protects_of_made (hat : world.container? c = some (.interpreting container))
    (hoffers : container.Offers id definition) {depth : Nat}
    (h : entering c id (do
        let made ← Interpreter.create (Call.run depth) c container.registry id definition
        announce c id definition.deprecation
        Interpreter.keep c id definition.flags {} made) world = (.ok service, later)) :
    later.Protects c id definition service := by
  obtain ⟨longer, inner, hbody, rfl⟩ := entering_eq_ok hat h
  obtain ⟨made, ended, hcreate, hrest⟩ := bind_eq_ok hbody
  have hinner := container?_put_self world c
    ((Container.interpreting container).setLoading longer) _ hat
  -- Whatever is run to make the service may reset the container: it is cached after that.
  have hended := (Interpreter.create_vouches (Call.run_traced depth) id definition _).leads hcreate
  obtain ⟨now, hnow, hdefinitions, haliases⟩ := hended.interpreter hinner
  obtain ⟨announced, hannounce, -, hnow⟩ :=
    announce_leads (.tracing fun _ _ => True) hnow id definition.deprecation
  have hkeeps : (!definition.flags.factory && !({} : ResolveOptions).ignoreFreezing) = true := by
    rw [hoffers.shared]
    rfl
  rw [bind_of_ok hannounce, Interpreter.keep_apply hnow, if_pos hkeeps] at hrest
  obtain ⟨hservice, rfl⟩ := Prod.mk.inj hrest
  obtain rfl := Except.ok.inj hservice
  have hkept := container?_put_self announced c (.interpreting (now.cache id made)) _ hnow
  have hprotects := Interpreter.Protects.of_cache (hoffers.of_same hdefinitions haliases) made
  rw [cut_apply hkept]
  exact ⟨_, container?_put_self _ c _ _ hkept, hprotects.setLoading _⟩

/-- **A service that is given is protected.** -/
theorem protects_of_given (hat : world.container? c = some (.interpreting container))
    (hoffers : container.Offers id definition)
    (hstep : container.services.contains id → container.registry.isFrozen id) {depth : Nat}
    (hget : Call.run depth (.get c id {}) world = (.ok service, later)) :
    later.Protects c id definition service := by
  cases depth with
  | zero => cases hget
  | succ depth =>
      rw [hoffers.run_get hat] at hget
      cases hcached : container.services.get? id with
      | some kept =>
          rw [hcached, Interpreter.resolveDefinition_cached hoffers.shared] at hget
          obtain ⟨hkept, rfl⟩ := Prod.mk.inj hget
          obtain rfl := Except.ok.inj hkept
          exact ⟨container, hat, hoffers, hstep (Option.isSome_of_eq_some hcached), hcached⟩
      | none =>
          rw [Interpreter.resolveDefinition_made (.inr hcached)] at hget
          exact protects_of_made hat hoffers hget

/-- A protected service is given. -/
theorem Protects.given (h : world.Protects c id definition service) (options : ResolveOptions)
    (depth : Nat) : Call.run (depth + 1) (.get c id options) world = (.ok service, world) := by
  obtain ⟨container, hat, hprotects⟩ := h
  rw [hprotects.run_get hat, hprotects.cached,
    Interpreter.resolveDefinition_cached hprotects.shared]
  rfl

/-- One thing that happens where the id is left what it is: it is not removed or reset, nor does it
become an alias. -/
inductive Spares (c : ContainerRef) (id : String) : World → World → Prop
  /-- Whatever leaves the container alone. -/
  | elsewhere {world later : World} (h : later.container? c = world.container? c) :
      Spares c id world later
  | register {world : World} {op : Registration} (hleaves : op.Leaves id)
      (hnames : op.Names id ∨ ∃ target error, op = .addAlias id target ∧
        (world.register c op).1 = .error error) :
      Spares c id world (world.register c op).2
  | answer {world later : World} {request : Request} {reply : request.Reply} {depth : Nat}
      (hanswer : request.perform (Call.sparing c depth) world = (.ok reply, later)) :
      Spares c id world later

theorem Spares.protects (h : Spares c id world later)
    (hprotects : world.Protects c id definition service) :
    later.Protects c id definition service := by
  cases h with
  | elsewhere hsame => exact Hosts.of_eq hprotects hsame
  | register hleaves hnames =>
      obtain ⟨container, hat, hcontainer⟩ := hprotects
      refine ⟨_, container?_register hat _, hcontainer.after world.store hleaves ?_⟩
      rcases hnames with hnames | ⟨target, error, rfl, herror⟩
      · exact Interpreter.registry_after world.store _
          ((Registry.closed_unaliased id).keeps _ hnames) (fun _ _ h => h.decorate)
          hcontainer.unaliased
      · rw [World.register, hat] at herror
        rw [Interpreter.registry_after_refused herror]
        exact hcontainer.unaliased
  | answer hanswer =>
      obtain ⟨-, makings, htrace⟩ :=
        Request.perform_of_vouches (Call.sparing_vouches c _) hanswer
      exact htrace.protects hprotects

/-- **A resolved service is protected from registration.** The public is given the service of an id,
which is no alias. As long as the id is neither removed nor reset nor becomes an alias, whatever
else is registered and asked for, and whether that succeeds or fails, the public is given that same
service for the id. -/
theorem given_again (hat : world.container? c = some (.interpreting container))
    (hoffers : container.Offers id definition)
    (hstep : container.services.contains id → container.registry.isFrozen id) {depth : Nat}
    (hget : Call.run depth (.get c id {}) world = (.ok service, later)) {last : World}
    (course : Relation.ReflTransGen (Spares c id) later last) (options : ResolveOptions)
    (further : Nat) :
    Call.run (further + 1) (.get c id options) last = (.ok service, last) := by
  have hprotects : last.Protects c id definition service := by
    induction course with
    | refl => exact protects_of_given hat hoffers hstep hget
    | tail _ hspares ih => exact hspares.protects ih
  exact hprotects.given options further

/-- One interpreter, with the services `a` and `b`. -/
def paired : World :=
  let empty : World := { containers := #[some (.interpreting {})] }
  ((empty.register ⟨0⟩ (.set "a" (.ofValue (.int 1)))).2.register ⟨0⟩
    (.set "b" (.ofValue (.int 2)))).2

/-- The service `a` was asked for. -/
def taken : World := (Call.run 2 (.get ⟨0⟩ "a" {}) paired).2

/-- To set a service again is refused, and does not matter. -/
theorem given_again_taken :
    (taken.register ⟨0⟩ (.set "a" (.ofValue (.int 2)))).1 = .error (.frozenConflict "a") ∧
      ∀ further, (Call.run (further + 1) (.get ⟨0⟩ "a" {})
        (taken.register ⟨0⟩ (.set "a" (.ofValue (.int 2)))).2).1 = .ok (.int 1) := by
  refine ⟨rfl, fun further => ?_⟩
  have hpaired : ∃ (container : Interpreter) (definition : Definition),
      paired.container? ⟨0⟩ = some (.interpreting container) ∧
        container.Offers "a" definition ∧ container.services.contains "a" = false :=
    ⟨_, _, rfl, ⟨rfl, rfl, rfl, rfl⟩, rfl⟩
  obtain ⟨container, definition, hat, hoffers, hnew⟩ := hpaired
  have hstep : container.services.contains "a" → container.registry.isFrozen "a" := by
    rw [hnew]
    intro habsurd
    cases habsurd
  have hget : Call.run 2 (.get ⟨0⟩ "a" {}) paired = (.ok (.int 1), taken) := rfl
  have hset : Spares ⟨0⟩ "a" taken (taken.register ⟨0⟩ (.set "a" (.ofValue (.int 2)))).2 :=
    .register ⟨nofun, nofun⟩ (.inl nofun)
  rw [given_again hat hoffers hstep hget (.single hset) {} further]

/-- The public is given 1 for `a`, then `op` is registered, and then the public gets the reply. -/
def Supplants (op : Registration) (reply : Except Halt Value) (world : World) : Prop :=
  let before := Call.run 2 (.get ⟨0⟩ "a" {}) world
  let registered := before.2.register ⟨0⟩ op
  before.1 = .ok (.int 1) ∧ registered.1 = .ok () ∧
    (Call.run 2 (.get ⟨0⟩ "a" {}) registered.2).1 = reply

/-- A provider has removed `a`, which stays cached, and it was set once more. -/
def estranged : World :=
  ((taken.register ⟨0⟩ (.provider (.mk "p" (fun _ => .perform (.remove "a") fun _ => .done) .done)
    .null)).2.register ⟨0⟩ (.set "a" (.ofValue (.int 3)))).2

/-- **Resolved services may be supplanted**: by an alias, which is not refused where a definition
would be, and by a definition where the service is cached but not frozen. -/
theorem services_supplanted :
    (∃ (container : Interpreter) (definition : Definition),
      paired.container? ⟨0⟩ = some (.interpreting container) ∧
        container.Offers "a" definition ∧ container.services.contains "a" = false) ∧
      paired.Supplants (.addAlias "a" "b") (.ok (.int 2)) ∧
        estranged.Supplants
          (.set "a" { Definition.ofValue (.int 2) with flags := { hidden := true } })
          (.error (.error (.notFound "a"))) := by
  refine ⟨⟨_, _, rfl, ⟨rfl, rfl, rfl, rfl⟩, rfl⟩, ?_, ?_⟩
  · refine ⟨?_, ?_, ?_⟩ <;> decide +kernel
  · refine ⟨?_, ?_, ?_⟩ <;> decide +kernel

end World
end Wiring
