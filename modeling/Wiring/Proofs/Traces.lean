import Wiring.Proofs.Congruences
import Wiring.Proofs.Growth

/-!
# What calls do to the world

Whatever a call runs into, it changes the world in a few ways only: something happens to the store,
a chain grows or is cut, a service that was made is cached, and resets, which user code may ask for
too, empty a container. `World.Trace` puts these changes one after the other, so that what holds after a
call is shown by going through them once.

One run vouches for another if it is given up, or else does the same and changes the world in such
ways. What has to be known of the ways to follow a call is little (`World.Ways`), so that one may look
at a call's trace, or only at what is left of an interpreter at its end.
-/

namespace Wiring

namespace Container

/-- The container without what calls and resets change. -/
def base : Container → Container
  | .interpreting c =>
      .interpreting { c with
        registry := { c.registry with frozen := ∅, tags := ∅ }
        services := ∅
        loading := [] }
  | .running c => .running { c with services := ∅, privates := ∅, tags := ∅, loading := [] }

@[simp]
theorem base_setLoading (container : Container) (chain : List String) :
    (container.setLoading chain).base = container.base := by
  cases container <;> rfl

@[simp]
theorem base_clearCache (container : Container) : container.clearCache.base = container.base := by
  cases container <;> rfl

@[simp]
theorem base_clearRuntimeState (container : Container) :
    container.clearRuntimeState.base = container.base := by
  cases container <;> rfl

theorem base_cache (machine : Machine) (table : CacheTable) (id : String) (service : Value) :
    (Container.running (machine.cache table id service)).base = (running machine).base := by
  cases table <;> rfl

/-- What has the base of an interpreter is one with the same definitions and aliases. -/
theorem interpreting_of_base {interpreter : Interpreter} {b : Container}
    (h : b.base = (interpreting interpreter).base) : ∃ now : Interpreter,
      b = .interpreting now ∧
        now.registry.definitions = interpreter.registry.definitions ∧
          now.registry.aliases = interpreter.registry.aliases := by
  cases b with
  | running machine => cases h
  | interpreting now =>
      have hregistry := congrArg Interpreter.registry (Container.interpreting.inj h)
      have hdefinitions := congrArg Registry.definitions hregistry
      have haliases := congrArg Registry.aliases hregistry
      exact ⟨now, rfl, hdefinitions, haliases⟩

theorem running_of_base {machine : Machine} {b : Container} (h : b.base = (running machine).base) :
    ∃ now : Machine, b = .running now := by
  cases b with
  | interpreting interpreter => cases h
  | running now => exact ⟨now, rfl⟩

end Container

namespace World

/-- A service that an interpreter made of a definition and cached. -/
structure Making where
  place : ContainerRef
  id : String
  definition : Definition
  service : Value

/-- In `world` a service of the definition is made, and that leaves `ended`. -/
structure Makes (c : ContainerRef) (container : Interpreter) (id : String)
    (definition : Definition) (service : Value) (world ended : World) : Prop where
  hosted : world.container? c = some (.interpreting container)
  found : container.registry.definition? id = some definition
  created : ∃ depth, Interpreter.create (Call.run depth) c container.registry id definition world =
    (.ok service, ended)

/-- One change after the other, with the services that are made on the way. A part of a reset leaves
a container only as `lets` has it. -/
inductive Trace (lets : ContainerRef → Container → Prop) : World → List Making → World → Prop
  | refl (world : World) : Trace lets world [] world
  | trans {world later last : World} {makings others : List Making}
      (h : Trace lets world makings later) (h' : Trace lets later others last) :
      Trace lets world (makings ++ others) last
  | store {world : World} {store : Store} (h : world.store.Changes store) :
      Trace lets world [] { world with store }
  | chain {world : World} {c : ContainerRef} {container : Container}
      (hat : world.container? c = some container) (chain : List String) :
      Trace lets world [] (world.put c (container.setLoading chain))
  /-- A service that was not cached is made, and then it is cached. -/
  | made {world ended later : World} {makings others : List Making} {c : ContainerRef}
      {container now : Interpreter} {id : String} {definition : Definition} {service : Value}
      (hmakes : Makes c container id definition service world ended)
      (hshared : definition.flags.factory = false) (hnew : container.services.get? id = none)
      (hended : Trace lets world makings ended) (hlater : Trace lets ended others later)
      (hnow : later.container? c = some (.interpreting now)) :
      Trace lets world (makings ++ others ++ [⟨c, id, definition, service⟩])
        (later.put c (.interpreting (now.cache id service)))
  | cached {world : World} {c : ContainerRef} {machine : Machine}
      (hat : world.container? c = some (.running machine)) (table : CacheTable) (id : String)
      (service : Value) :
      Trace lets world [] (world.put c (.running (machine.cache table id service)))
  | clearCache {world : World} {c : ContainerRef} {container : Container}
      (hat : world.container? c = some container) (h : lets c container.clearCache) :
      Trace lets world [] (world.put c container.clearCache)
  | clearRuntimeState {world : World} {c : ContainerRef} {container : Container}
      (hat : world.container? c = some container) (h : lets c container.clearRuntimeState) :
      Trace lets world [] (world.put c container.clearRuntimeState)

/-- The one world becomes the other by what calls do. -/
def Leads (lets : ContainerRef → Container → Prop) (world later : World) : Prop :=
  ∃ makings, Trace lets world makings later

variable {lets : ContainerRef → Container → Prop} {world later last : World} {c : ContainerRef}

theorem map_base_put {container other : Container} (hat : world.container? c = some container)
    (h : other.base = container.base) (d : ContainerRef) :
    ((world.put c other).container? d).map Container.base =
      (world.container? d).map Container.base := by
  rw [container?_put hat]
  split
  · next hsame => rw [hsame, hat, Option.map_some, Option.map_some, h]
  · rfl

/-- **Calls leave containers what they are** at the base. -/
theorem Trace.base_eq {makings : List Making} (h : Trace lets world makings later)
    (d : ContainerRef) :
    (later.container? d).map Container.base = (world.container? d).map Container.base := by
  induction h with
  | refl world => rfl
  | trans _ _ ih ih' => exact ih'.trans ih
  | store _ => rfl
  | chain hat chain => exact map_base_put hat (Container.base_setLoading _ chain) d
  | @made _ _ _ _ _ _ _ now id _ service _ _ _ _ _ hnow ih ih' =>
      have hsame : (Container.interpreting (now.cache id service)).base =
          (Container.interpreting now).base := rfl
      exact (map_base_put hnow hsame d).trans (ih'.trans ih)
  | cached hat table id service => exact map_base_put hat (Container.base_cache ..) d
  | clearCache hat _ => exact map_base_put hat (Container.base_clearCache _) d
  | clearRuntimeState hat _ => exact map_base_put hat (Container.base_clearRuntimeState _) d

/-! ### What holds of an interpreter throughout -/

/-- At `c` there is an interpreter of this kind. -/
def Hosts (P : Interpreter → Prop) (c : ContainerRef) (world : World) : Prop :=
  ∃ container : Interpreter, world.container? c = some (.interpreting container) ∧ P container

variable {P : Interpreter → Prop}

theorem Hosts.of_eq (h : Hosts P c world) (hsame : later.container? c = world.container? c) :
    Hosts P c later := by
  obtain ⟨container, hat, hkind⟩ := h
  exact ⟨container, hsame.trans hat, hkind⟩

theorem Hosts.at {container : Interpreter} (h : Hosts P c world)
    (hat : world.container? c = some (.interpreting container)) : P container := by
  obtain ⟨found, hfound, hkind⟩ := h
  rwa [Container.interpreting.inj (Option.some.inj (hat.symm.trans hfound))]

/-- What is put elsewhere does not matter. -/
theorem Hosts.put (h : Hosts P c world) {d : ContainerRef} {found other : Container}
    (hfound : world.container? d = some found)
    (hother : ∀ container : Interpreter, d = c → found = .interpreting container → P container →
      ∃ now : Interpreter, other = .interpreting now ∧ P now) : Hosts P c (world.put d other) := by
  by_cases hsame : d = c
  · subst hsame
    obtain ⟨container, hat, hkind⟩ := h
    obtain rfl := Option.some.inj (hfound.symm.trans hat)
    obtain ⟨now, rfl, hnow⟩ := hother container rfl rfl hkind
    exact ⟨now, container?_put_self world d _ _ hat, hnow⟩
  · refine h.of_eq ?_
    rw [container?_put hfound, if_neg (Ne.symm hsame)]

/-- An interpreter at `c` stays of the kind whatever calls do to it. -/
structure Withstands (lets : ContainerRef → Container → Prop) (c : ContainerRef)
    (P : Interpreter → Prop) : Prop where
  chain : ∀ {container : Interpreter} (chain : List String), P container →
    P { container with loading := chain }
  /-- What is cached now was not cached before it was made. -/
  cache : ∀ {before now : Interpreter} {id : String} {definition : Definition} (service : Value),
    before.registry.definition? id = some definition → before.services.get? id = none →
      P before → P now → P (now.cache id service)
  clearCache : ∀ {container : Interpreter},
    lets c (.interpreting { container with services := ∅ }) → P container →
      P { container with services := ∅ }
  clearRuntimeState : ∀ {container : Interpreter},
    lets c (.interpreting { container with registry := container.registry.resetRuntimeState }) →
      P container → P { container with registry := container.registry.resetRuntimeState }

theorem Withstands.made (withstands : Withstands lets c P) {ended : World} {d : ContainerRef}
    {container now : Interpreter} {id : String} {definition : Definition} {service : Value}
    (hmakes : Makes d container id definition service world ended)
    (hnew : container.services.get? id = none) (hhosts : Hosts P c world) (hlater : Hosts P c later)
    (hnow : later.container? d = some (.interpreting now)) :
    Hosts P c (later.put d (.interpreting (now.cache id service))) := by
  refine hlater.put hnow fun container hsame hfound hkind => ?_
  obtain rfl := Container.interpreting.inj hfound
  subst hsame
  exact ⟨_, rfl, withstands.cache _ hmakes.found hnew (hhosts.at hmakes.hosted) hkind⟩

/-- **Interpreters stay what they are** where that withstands what calls do. -/
theorem Trace.hosts {makings : List Making} (h : Trace lets world makings later)
    (withstands : Withstands lets c P) (hhosts : Hosts P c world) : Hosts P c later := by
  induction h with
  | refl world => exact hhosts
  | trans _ _ ih ih' => exact ih' (ih hhosts)
  | store _ => exact hhosts
  | chain hat chain =>
      refine hhosts.put hat fun container _ hfound hkind => ?_
      subst hfound
      exact ⟨_, rfl, withstands.chain chain hkind⟩
  | made hmakes _ hnew _ _ hnow ih ih' =>
      exact withstands.made hmakes hnew hhosts (ih' (ih hhosts)) hnow
  | cached hat table id service =>
      refine hhosts.put hat fun container _ hfound _ => ?_
      cases hfound
  | clearCache hat hlets =>
      refine hhosts.put hat fun container hsame hfound hkind => ?_
      subst hfound hsame
      exact ⟨_, rfl, withstands.clearCache hlets hkind⟩
  | clearRuntimeState hat hlets =>
      refine hhosts.put hat fun container hsame hfound hkind => ?_
      subst hfound hsame
      exact ⟨_, rfl, withstands.clearRuntimeState hlets hkind⟩

namespace Leads

theorem refl (world : World) : Leads lets world world := ⟨[], .refl world⟩

theorem trans (h : Leads lets world later) (h' : Leads lets later last) :
    Leads lets world last := by
  obtain ⟨makings, h⟩ := h
  obtain ⟨others, h'⟩ := h'
  exact ⟨makings ++ others, h.trans h'⟩

theorem of_trace {makings : List Making} (h : Trace lets world makings later) :
    Leads lets world later := ⟨makings, h⟩

theorem made {ended : World} {container now : Interpreter} {id : String} {definition : Definition}
    {service : Value} (hmakes : Makes c container id definition service world ended)
    (hshared : definition.flags.factory = false) (hnew : container.services.get? id = none)
    (hended : Leads lets world ended) (hlater : Leads lets ended later)
    (hnow : later.container? c = some (.interpreting now)) :
    Leads lets world (later.put c (.interpreting (now.cache id service))) := by
  obtain ⟨makings, hended⟩ := hended
  obtain ⟨others, hlater⟩ := hlater
  exact ⟨_, .made hmakes hshared hnew hended hlater hnow⟩

end Leads

/-! ### Ways of changing a world -/

/-- Ways in which calls, their resets apart, may change a world, one after the other. -/
structure Ways where
  Way : World → World → Prop
  refl : ∀ world, Way world world
  trans : ∀ {world later last : World}, Way world later → Way later last → Way world last
  store : ∀ {world : World} {store : Store}, world.store.Changes store →
    Way world { world with store }
  chain : ∀ {world : World} {c : ContainerRef} {container : Container},
    world.container? c = some container → ∀ chain : List String,
      Way world (world.put c (container.setLoading chain))
  made : ∀ {world ended later : World} {c : ContainerRef} {container now : Interpreter} {id : String}
    {definition : Definition} {service : Value},
      Makes c container id definition service world ended → definition.flags.factory = false →
        container.services.get? id = none → Way world ended → Way ended later →
          later.container? c = some (.interpreting now) →
            Way world (later.put c (.interpreting (now.cache id service)))
  cached : ∀ {world : World} {c : ContainerRef} {machine : Machine},
    world.container? c = some (.running machine) → ∀ (table : CacheTable) (id : String)
      (service : Value), Way world (world.put c (.running (machine.cache table id service)))
  /-- Containers stay what they are at the base. -/
  base : ∀ {world later : World}, Way world later → ∀ c,
    (later.container? c).map Container.base = (world.container? c).map Container.base

/-- All that is told by traces. -/
def Ways.tracing (lets : ContainerRef → Container → Prop) : Ways where
  Way := Leads lets
  refl := .refl
  trans := .trans
  store h := .of_trace (.store h)
  chain hat chain := .of_trace (.chain hat chain)
  made := .made
  cached hat table id service := .of_trace (.cached hat table id service)
  base h := by
    obtain ⟨makings, h⟩ := h
    exact h.base_eq

/-- An interpreter at `c` stays of its kind; what its own resets go through is not looked at. -/
def Ways.keeping (withstands : Withstands (fun d _ => d ≠ c) c P) : Ways where
  Way world later := Leads (fun _ _ => True) world later ∧ (Hosts P c world → Hosts P c later)
  refl world := ⟨.refl world, fun hhosts => hhosts⟩
  trans h h' := ⟨h.1.trans h'.1, fun hhosts => h'.2 (h.2 hhosts)⟩
  store h := ⟨.of_trace (.store h), fun hhosts => hhosts⟩
  chain hat chain := ⟨.of_trace (.chain hat chain), (Trace.chain hat chain).hosts withstands⟩
  made hmakes hshared hnew hended hlater hnow :=
    ⟨.made hmakes hshared hnew hended.1 hlater.1 hnow, fun hhosts =>
      withstands.made hmakes hnew hhosts (hlater.2 (hended.2 hhosts)) hnow⟩
  cached hat table id service :=
    ⟨.of_trace (.cached hat table id service),
      (Trace.cached hat table id service).hosts withstands⟩
  base h := (tracing _).base h.1

namespace Ways.Way

variable {W : Ways}

theorem refl (world : World) : W.Way world world := W.refl world

theorem trans (h : W.Way world later) (h' : W.Way later last) : W.Way world last := W.trans h h'

theorem container (h : W.Way world later) {container : Container}
    (hat : world.container? c = some container) :
    ∃ now, later.container? c = some now ∧ now.base = container.base := by
  have hbase := W.base h c
  rw [hat] at hbase
  exact Option.map_eq_some_iff.mp hbase

theorem interpreter (h : W.Way world later) {container : Interpreter}
    (hat : world.container? c = some (.interpreting container)) :
    ∃ now : Interpreter, later.container? c = some (.interpreting now) ∧
      now.registry.definitions = container.registry.definitions ∧
        now.registry.aliases = container.registry.aliases := by
  obtain ⟨found, hfound, hbase⟩ := h.container hat
  obtain ⟨now, rfl, hsame⟩ := Container.interpreting_of_base hbase
  exact ⟨now, hfound, hsame⟩

theorem cut (h : W.Way world later) (c : ContainerRef) (depth : Nat) :
    W.Way world (Run.cut c depth later) := by
  cases hat : later.container? c with
  | none =>
      have hsame : Run.cut c depth later = later := by rw [Run.cut, hat]
      rw [hsame]
      exact h
  | some container =>
      rw [Run.cut_apply hat]
      exact h.trans (W.chain hat _)

end Ways.Way

/-- Both parts of a reset of `c` are among the ways. -/
structure Ways.Resets (W : Ways) (c : ContainerRef) : Prop where
  clearCache : ∀ {world : World} {container : Container}, world.container? c = some container →
    W.Way world (world.put c container.clearCache)
  clearRuntimeState : ∀ {world : World} {container : Container},
    world.container? c = some container → W.Way world (world.put c container.clearRuntimeState)

theorem Ways.tracing_resets (hlets : ∀ container, lets c container) : (tracing lets).Resets c where
  clearCache hat := .of_trace (.clearCache hat (hlets _))
  clearRuntimeState hat := .of_trace (.clearRuntimeState hat (hlets _))

theorem Ways.keeping_resets (withstands : Withstands (fun d _ => d ≠ c) c P) {d : ContainerRef}
    (hne : d ≠ c) : (keeping withstands).Resets d where
  clearCache hat :=
    ⟨.of_trace (.clearCache hat trivial), (Trace.clearCache hat hne).hosts withstands⟩
  clearRuntimeState hat :=
    ⟨.of_trace (.clearRuntimeState hat trivial), (Trace.clearRuntimeState hat hne).hosts withstands⟩

end World

/-! ### Runs that end well -/

namespace Run

variable {α β : Type} {world later : World}

/-- What ends well did so in both its parts. -/
theorem bind_eq_ok {act : Run α} {next : α → Run β} {b : β}
    (h : (act >>= next) world = (.ok b, later)) :
    ∃ a mid, act world = (.ok a, mid) ∧ next a mid = (.ok b, later) := by
  rcases hact : act world with ⟨_ | a, mid⟩
  · rw [bind_of_error hact] at h
    cases h
  · rw [bind_of_ok hact] at h
    exact ⟨a, mid, rfl, h⟩

theorem entering_eq_ok {c : ContainerRef} {container : Container} {id : String} {act : Run α}
    {a : α} (hat : world.container? c = some container)
    (h : entering c id act world = (.ok a, later)) :
    ∃ longer inner, act (world.put c (container.setLoading longer)) = (.ok a, inner) ∧
      later = cut c container.loading.length inner := by
  cases henter : Chain.enter container.maxDepth container.loading id with
  | error error =>
      rw [entering_refused hat henter] at h
      cases h
  | ok longer =>
      rw [entering_apply hat henter] at h
      obtain ⟨hresult, hlater⟩ := Prod.mk.inj h
      exact ⟨longer, _, Prod.ext hresult rfl, hlater.symm⟩

end Run

/-! ### Runs that vouch for others -/

namespace Run

variable {α β : Type} {W : World.Ways} {world : World}

/-- From `world`, `act` is given up or does the same as `other`, and then changes the world in the
ways in which calls do. -/
def VouchesAt (W : World.Ways) (world : World) (act other : Run α) : Prop :=
  (act world).1 = .error .unfinished ∨
    act world = other world ∧ W.Way world (act world).2

def Vouches (W : World.Ways) (act other : Run α) : Prop :=
  ∀ world, VouchesAt W world act other

theorem VouchesAt.leads {act other : Run α} {later : World} {a : α}
    (h : VouchesAt W world act other) (hact : act world = (.ok a, later)) :
    W.Way world later := by
  rcases h with hgiven | ⟨-, hleads⟩
  · rw [hact] at hgiven
    cases hgiven
  · rwa [hact] at hleads

/-- What leaves the world alone. -/
theorem Vouches.still {act : Run α} (h : ∀ world, (act world).2 = world) :
    Vouches W act act := by
  intro world
  refine .inr ⟨rfl, ?_⟩
  rw [h]
  exact .refl world

theorem Vouches.pure (a : α) : Vouches W (pure a : Run α) (pure a) := .still fun _ => rfl

theorem Vouches.fail (error : Error) : Vouches W (fail error : Run α) (fail error) :=
  .still fun _ => rfl

theorem Vouches.unfinished (other : Run α) : Vouches W (throw .unfinished : Run α) other :=
  fun _ => .inl rfl

/-- What comes next is taken together with what came before. -/
theorem VouchesAt.bind {act other : Run α} {next next' : α → Run β}
    (hact : VouchesAt W world act other)
    (hnext : ∀ a later, other world = (.ok a, later) → W.Way world later →
      (next a later).1 = .error .unfinished ∨
        next a later = next' a later ∧ W.Way world (next a later).2) :
    VouchesAt W world (act >>= next) (other >>= next') := by
  unfold VouchesAt at hact ⊢
  cases hrun : act world with
  | mk result later =>
      rw [hrun] at hact
      cases result with
      | error halt =>
          rw [bind_of_error hrun]
          rcases hact with hgiven | ⟨hsame, hleads⟩
          · obtain rfl : halt = .unfinished := Except.error.inj hgiven
            exact .inl rfl
          · rw [bind_of_error hsame.symm]
            exact .inr ⟨rfl, hleads⟩
      | ok a =>
          rcases hact with hgiven | ⟨hsame, hleads⟩
          · cases hgiven
          · rw [bind_of_ok hrun, bind_of_ok hsame.symm]
            exact hnext a later hsame.symm hleads

/-- What comes next goes on from where it is. -/
theorem VouchesAt.next {act other : Run α} {next next' : α → Run β}
    (hact : VouchesAt W world act other)
    (hnext : ∀ a later, other world = (.ok a, later) → VouchesAt W later (next a) (next' a)) :
    VouchesAt W world (act >>= next) (other >>= next') :=
  hact.bind fun a later hsame hleads => (hnext a later hsame).imp_right fun h =>
    ⟨h.1, hleads.trans h.2⟩

theorem Vouches.bind {act other : Run α} {next next' : α → Run β} (hact : Vouches W act other)
    (hnext : ∀ a, Vouches W (next a) (next' a)) :
    Vouches W (act >>= next) (other >>= next') :=
  fun world => (hact world).next fun a later _ => hnext a later

theorem VouchesAt.outcome {act other : Run α} (hact : VouchesAt W world act other) :
    VouchesAt W world (outcome act) (outcome other) := by
  unfold VouchesAt at hact ⊢
  rcases hrun : act world with ⟨_ | a, later⟩
  · next halt =>
      rw [hrun] at hact
      cases halt with
      | unfinished => exact .inl (congrArg Prod.fst (outcome_of_unfinished hrun))
      | error error =>
          rcases hact with hgiven | ⟨hsame, hleads⟩
          · cases hgiven
          · rw [outcome_of_error hrun, outcome_of_error hsame.symm]
            exact .inr ⟨rfl, hleads⟩
  · rw [hrun] at hact
    rcases hact with hgiven | ⟨hsame, hleads⟩
    · cases hgiven
    · rw [outcome_of_ok hrun, outcome_of_ok hsame.symm]
      exact .inr ⟨rfl, hleads⟩

theorem Vouches.onStore (f : Store → α × Store) (h : ∀ store : Store, store.Changes (f store).2) :
    Vouches W (onStore f) (onStore f) :=
  fun world => .inr ⟨rfl, W.store (h world.store)⟩

/-- What is done may rely on the container that is there. -/
theorem VouchesAt.container {next next' : Container → Run β} {c : ContainerRef}
    (h : ∀ container, world.container? c = some container →
      VouchesAt W world (next container) (next' container)) :
    VouchesAt W world (Run.container c >>= next) (Run.container c >>= next') := by
  unfold VouchesAt
  cases hat : world.container? c with
  | none =>
      rw [bind_of_error (container_absent hat), bind_of_error (container_absent hat)]
      exact .inr ⟨rfl, .refl world⟩
  | some container =>
      rw [bind_of_ok (container_apply hat), bind_of_ok (container_apply hat)]
      exact h container hat

/-- What is done while an id is under construction may rely on that. -/
theorem VouchesAt.entering {act other : Run α} {c : ContainerRef} {container : Container}
    {id : String} (hat : world.container? c = some container)
    (hact : ∀ longer, VouchesAt W (world.put c (container.setLoading longer)) act other) :
    VouchesAt W world (entering c id act) (entering c id other) := by
  unfold VouchesAt
  cases henter : Chain.enter container.maxDepth container.loading id with
  | error error =>
      rw [entering_refused hat henter, entering_refused hat henter]
      exact .inr ⟨rfl, .refl world⟩
  | ok longer =>
      rw [entering_apply hat henter, entering_apply hat henter]
      rcases hact longer with hgiven | ⟨hsame, hleads⟩
      · exact .inl hgiven
      · rw [← hsame]
        exact .inr ⟨rfl, ((W.chain hat longer : W.Way _ _).trans hleads).cut c _⟩

end Run

/-! ### What is run while services are made -/

def Caller.Vouches (W : World.Ways) (recur recur' : Caller) : Prop :=
  ∀ call, Run.Vouches W (recur call) (recur' call)

theorem Caller.Vouches.mono {W W' : World.Ways} {recur recur' : Caller}
    (h : Caller.Vouches W recur recur')
    (hways : ∀ world later, W.Way world later → W'.Way world later) :
    Caller.Vouches W' recur recur' :=
  fun call world => (h call world).imp_right fun hsame => ⟨hsame.1, hways _ _ hsame.2⟩

/-- Vouching is kept by whatever is put together. -/
def Run.vouching (W : World.Ways) : Run.Congruence where
  view world := world
  handler := Container.handler
  HoldsAt := VouchesAt W
  redirects := World.redirects_self
  congr hact hother h := by
    unfold VouchesAt at h ⊢
    rw [hact, hother]
    exact h
  still result hact hother := by
    unfold VouchesAt
    rw [hact, hother]
    exact .inr ⟨rfl, .refl _⟩
  changes h world := Vouches.onStore _ h world
  next := VouchesAt.next
  answers := VouchesAt.outcome

section Making

open Run

variable {W : World.Ways} {recur recur' : Caller} {c : ContainerRef}

theorem Request.perform_vouches (h : Caller.Vouches W recur recur') (request : Request) :
    Vouches W (request.perform recur) (request.perform recur') :=
  request.perform_holds (C := vouching W) h

theorem Run.Vouches.resolveType (h : Caller.Vouches W recur recur') (typeName : String)
    (candidates : List String) (options : ResolveOptions) :
    Vouches W (resolveType recur c typeName candidates options)
      (resolveType recur' c typeName candidates options) :=
  Run.resolveType_holds (C := vouching W) h typeName candidates options

theorem Interpreter.create_vouches (h : Caller.Vouches W recur recur') {registry : Registry}
    (id : String) (definition : Definition) :
    Vouches W (create recur c registry id definition)
      (create recur' c registry id definition) :=
  Interpreter.create_holds (C := vouching W) h id definition

theorem Machine.create_vouches (h : Caller.Vouches W recur recur') {machine : Machine}
    (routine : Routine) :
    Vouches W (create recur c machine routine) (create recur' c machine routine) :=
  Machine.create_holds (C := vouching W) h routine

end Making

end Wiring
