import Mathlib.Logic.Relation
import Wiring.Proofs.Frozen
import Wiring.Proofs.TracedCalls

/-!
# The cache follows the definitions

An interpreter keeps two records of a service that it has made: the service in its cache, and the id
among the frozen ones of its registry. While the two agree, no definition changes under a cached
service, so that what is cached was made of the definition that is registered.

They can be parted in two ways. A provider may remove an id from the registry alone. And a teardown
may ask for a service while a reset is under way: it is cached then when the reset unfreezes all
ids. Where neither happens, the records agree throughout.
-/

namespace Wiring

open Run

/-! ### Resets -/

namespace Call

/-- No part of a reset of the container leaves a service cached. -/
def Sweeps (c d : ContainerRef) (other : Container) : Prop := d = c → other.cached = []

/-- Ids are unfrozen where nothing is cached; anything else is given up. -/
def unfreezeSwept (c : ContainerRef) : Run Unit := do
  if (← Run.container c).cached.isEmpty then Run.changeContainer c Container.clearRuntimeState
  else throw .unfinished

/-- The call, given up where a reset of the container unfreezes a service that is cached. -/
def sweeping (c : ContainerRef) : Nat → Call → Run Value :=
  runWith fun recur d =>
    if d = c then resetThen recur d (unfreezeSwept d) else resetContainer recur d

theorem unfreezeSwept_vouches {c : ContainerRef} {world : World} {container : Container}
    (hat : world.container? c = some container) :
    VouchesAt (.tracing (Sweeps c)) world (unfreezeSwept c)
      (Run.changeContainer c Container.clearRuntimeState) := by
  unfold VouchesAt unfreezeSwept
  rw [bind_of_ok (container_apply hat)]
  split
  · next hempty =>
      refine .inr ⟨rfl, ?_⟩
      rw [changeContainer_apply hat]
      refine .of_trace (.clearRuntimeState hat fun _ => ?_)
      have hkept : container.clearRuntimeState.cached = container.cached := by
        cases container <;> rfl
      rw [hkept, List.isEmpty_iff.mp hempty]
  · exact .inl rfl

/-- **A swept run that ends is the run itself**, and no reset on its way leaves a service cached. -/
theorem sweeping_vouches (c : ContainerRef) (depth : Nat) :
    Caller.Vouches (.tracing (Sweeps c)) (sweeping c depth) (run depth) := by
  refine runWith_vouches (fun ih d => ?_) depth
  split
  · next hsame =>
      subst hsame
      intro world
      refine resetThen_vouches ih (fun container hat => ?_) fun _ _ => unfreezeSwept_vouches
      refine .of_trace (.clearCache hat fun _ => ?_)
      cases container <;> rfl
  · next hne =>
      exact fun _ => resetContainer_vouches ih
        (World.Ways.tracing_resets fun _ hsame => absurd hsame hne)

end Call

/-! ### What a trace leaves of an interpreter -/

namespace Interpreter

/-- What is cached is frozen. -/
def Guarded (container : Interpreter) : Prop :=
  ∀ id, container.services.contains id → container.registry.isFrozen id

/-- The interpreter `now` comes of `container`, and services were made at `c` in between. -/
structure Since (c : ContainerRef) (container : Interpreter) (makings : List World.Making)
    (now : Interpreter) : Prop where
  definitions : now.registry.definitions = container.registry.definitions
  guarded : container.Guarded → now.Guarded
  origin : ∀ id service, now.services.get? id = some service →
    container.services.get? id = some service ∨
      ∃ definition, container.registry.definition? id = some definition ∧
        definition.flags.factory = false ∧ ⟨c, id, definition, service⟩ ∈ makings

namespace Since

variable {c : ContainerRef} {a b d : Interpreter} {makings others : List World.Making}

theorem definition?_eq (h : Since c a makings b) (id : String) :
    b.registry.definition? id = a.registry.definition? id := by
  rw [Registry.definition?, h.definitions, Registry.definition?]

theorem refl (c : ContainerRef) (a : Interpreter) : Since c a [] a :=
  ⟨rfl, fun h => h, fun _ _ h => .inl h⟩

theorem mono (h : Since c a makings b) (hsubset : makings ⊆ others) : Since c a others b where
  definitions := h.definitions
  guarded := h.guarded
  origin id service hcached := (h.origin id service hcached).imp_right fun hmade => by
    obtain ⟨definition, hfound, hshared, hmaking⟩ := hmade
    exact ⟨definition, hfound, hshared, hsubset hmaking⟩

theorem trans (h : Since c a makings b) (h' : Since c b others d) :
    Since c a (makings ++ others) d where
  definitions := h'.definitions.trans h.definitions
  guarded hguarded := h'.guarded (h.guarded hguarded)
  origin id service hcached := by
    rcases h'.origin id service hcached with hkept | ⟨definition, hfound, hshared, hmaking⟩
    · exact (h.mono (List.subset_append_left makings others)).origin id service hkept
    · rw [h.definition?_eq] at hfound
      exact .inr ⟨definition, hfound, hshared, List.mem_append_right _ hmaking⟩

theorem cache {id : String} {definition : Definition}
    (hfound : a.registry.definition? id = some definition)
    (hshared : definition.flags.factory = false) (service : Value) :
    Since c a [⟨c, id, definition, service⟩] (a.cache id service) where
  definitions := rfl
  guarded hguarded other hcached := by
    rw [Table.contains, get?_cache] at hcached
    refine (isFrozen_cache a id service).mpr ?_
    by_cases hsame : other = id
    · exact .inl hsame
    · rw [if_neg hsame] at hcached
      exact .inr (hguarded other hcached)
  origin other held hcached := by
    rw [get?_cache] at hcached
    split at hcached
    · next hsame =>
        obtain rfl := Option.some.inj hcached
        rw [hsame]
        exact .inr ⟨definition, hfound, hshared, List.mem_singleton_self _⟩
    · exact .inl hcached

theorem clearCache (c : ContainerRef) (a : Interpreter) :
    Since c a [] { a with services := ∅ } where
  definitions := rfl
  guarded _ id hcached := by cases hcached
  origin id service hcached := by cases hcached

theorem clearRuntimeState (hempty : a.services.entries = []) :
    Since c a [] { a with registry := a.registry.resetRuntimeState } where
  definitions := rfl
  guarded _ id hcached := by
    have habsent : a.services.get? id = none := by rw [Table.get?, hempty]; rfl
    rw [Table.contains, habsent] at hcached
    cases hcached
  origin _ _ hcached := .inl hcached

end Since

end Interpreter

namespace World

variable {c : ContainerRef} {start world later : World}

/-- A container that another one takes the place of is seen to, and all others are left alone. -/
theorem since_put {d : ContainerRef} {found next : Container} {container : Interpreter}
    (hfound : world.container? d = some found)
    (hat : world.container? c = some (.interpreting container))
    (hnext : d = c → found = .interpreting container →
      ∃ now, next = .interpreting now ∧ container.Since c [] now) :
    ∃ now, (world.put d next).container? c = some (.interpreting now) ∧
      container.Since c [] now := by
  rw [container?_put hfound]
  split
  · next hsame =>
      subst hsame
      obtain ⟨now, rfl, hsince⟩ := hnext rfl (Option.some.inj (hfound.symm.trans hat))
      exact ⟨now, rfl, hsince⟩
  · exact ⟨container, hat, .refl c container⟩

theorem Trace.since {makings : List Making} (h : Trace (Call.Sweeps c) world makings later)
    {container : Interpreter} (hat : world.container? c = some (.interpreting container)) :
    ∃ now, later.container? c = some (.interpreting now) ∧ container.Since c makings now := by
  induction h generalizing container with
  | refl world => exact ⟨container, hat, .refl c container⟩
  | trans _ _ ih ih' =>
      obtain ⟨mid, hmid, hsince⟩ := ih hat
      obtain ⟨now, hnow, hsince'⟩ := ih' hmid
      exact ⟨now, hnow, hsince.trans hsince'⟩
  | store _ => exact ⟨container, hat, .refl c container⟩
  | @chain world d found hfound chain =>
      refine since_put hfound hat fun _ hself => ?_
      subst hself
      exact ⟨{ container with loading := chain }, rfl, rfl, fun h => h, fun _ _ => .inl⟩
  | @made world ended later makings others d found now id definition service hmakes hshared _ _ _
      hnow ih ih' =>
      obtain ⟨one, hone, hsince⟩ := ih hat
      obtain ⟨other, hother, hsince'⟩ := ih' hone
      rw [container?_put hnow]
      split
      · next hsame =>
          subst hsame
          obtain rfl := Container.interpreting.inj (Option.some.inj (hnow.symm.trans hother))
          obtain rfl := Container.interpreting.inj
            (Option.some.inj (hmakes.hosted.symm.trans hat))
          have hfound := hmakes.found
          rw [← hsince.definition?_eq, ← hsince'.definition?_eq] at hfound
          exact ⟨_, rfl, (hsince.trans hsince').trans (.cache hfound hshared service)⟩
      · exact ⟨other, hother, (hsince.trans hsince').mono (List.subset_append_left _ _)⟩
  | cached hmachine => exact since_put hmachine hat fun _ hself => nomatch hself
  | @clearCache world d found hfound _ =>
      refine since_put hfound hat fun _ hself => ?_
      subst hself
      exact ⟨_, rfl, .clearCache c container⟩
  | @clearRuntimeState world d found hfound hswept =>
      refine since_put hfound hat fun hsame hself => ?_
      subst hself hsame
      exact ⟨_, rfl, .clearRuntimeState (List.map_eq_nil_iff.mp (hswept rfl))⟩

/-! ### The use of a container -/

/-- One thing that happens while the interpreter at `c` is used. -/
inductive Uses (c : ContainerRef) : World → World → Prop
  /-- Whatever leaves the container alone. -/
  | elsewhere {world later : World} (h : later.container? c = world.container? c) :
      Uses c world later
  /-- A cached id is removed by the container itself, if it is removed. -/
  | register {world : World} {container : Interpreter}
      (hat : world.container? c = some (.interpreting container)) (op : Registration)
      (hop : ∀ id, container.services.contains id → op = .remove id ∨ op.Leaves id) :
      Uses c world (world.register c op).2
  /-- A reset leaves nothing cached, if there is one. -/
  | answer {world later : World} {request : Request} {reply : request.Reply} {depth : Nat}
      (hanswer : request.perform (Call.sweeping c depth) world = (.ok reply, later)) :
      Uses c world later

abbrev Course (c : ContainerRef) : World → World → Prop := Relation.ReflTransGen (Uses c)

/-- The definition is registered, and the service cached. -/
def Gives (c : ContainerRef) (id : String) (definition : Definition) (service : Value)
    (world : World) : Prop :=
  ∃ container : Interpreter, world.container? c = some (.interpreting container) ∧
    container.registry.definition? id = some definition ∧
      container.services.get? id = some service

/-- The service was made of the definition while something was asked for, and ever since that the
definition has been registered and the service cached. -/
def Stems (c : ContainerRef) (id : String) (definition : Definition) (service : Value)
    (start world : World) : Prop :=
  ∃ before after makings, Course c start before ∧
    (∃ (request : Request) (reply : request.Reply) (depth : Nat),
      request.perform (Call.run depth) before = (.ok reply, after)) ∧
    Trace (Call.Sweeps c) before makings after ∧ ⟨c, id, definition, service⟩ ∈ makings ∧
    Relation.ReflTransGen (fun one other => one.Gives c id definition service ∧ Uses c one other ∧
      other.Gives c id definition service) after world

/-- What has stemmed so far stems on. -/
theorem Stems.next {id : String} {definition : Definition} {service : Value}
    (h : Stems c id definition service start world) (hworld : world.Gives c id definition service)
    (huses : Uses c world later) (hlater : later.Gives c id definition service) :
    Stems c id definition service start later := by
  obtain ⟨before, after, makings, hcourse, hanswer, htrace, hmaking, hkept⟩ := h
  exact ⟨before, after, makings, hcourse, hanswer, htrace, hmaking,
    hkept.tail ⟨hworld, huses, hlater⟩⟩

/-- What is cached is frozen, and stems from the definition that is registered. -/
def Fresh (c : ContainerRef) (start world : World) : Prop :=
  ∃ container : Interpreter, world.container? c = some (.interpreting container) ∧
    container.Guarded ∧ ∀ id service, container.services.get? id = some service →
      ∃ definition, container.registry.definition? id = some definition ∧
        definition.flags.factory = false ∧ Stems c id definition service start world

theorem Fresh.register (h : Fresh c start world) {container : Interpreter}
    (hat : world.container? c = some (.interpreting container)) (op : Registration)
    (hop : ∀ id, container.services.contains id → op = .remove id ∨ op.Leaves id) :
    Fresh c start (world.register c op).2 := by
  obtain ⟨found, hfound, hguarded, hstems⟩ := h
  obtain rfl := Container.interpreting.inj (Option.some.inj (hfound.symm.trans hat))
  have hlater := container?_register hat op
  have hkept : ∀ id service, (found.after world.store op).services.get? id = some service →
      found.services.get? id = some service ∧ ∀ definition,
        found.registry.definition? id = some definition →
          (found.after world.store op).registry.Holds id definition := by
    intro id service hcached
    have hne : op ≠ .remove id := by
      rintro rfl
      rw [Interpreter.services_after_remove] at hcached
      cases hcached
    rw [Interpreter.services_after _ _ hne] at hcached
    have hcontains : found.services.contains id := Option.isSome_of_eq_some hcached
    have hleaves := (hop id hcontains).resolve_left hne
    refine ⟨hcached, fun definition hdefinition => ?_⟩
    exact Interpreter.registry_after _ _
      ((Registry.closed_holds id definition).keeps op hleaves) (fun _ _ h => h.decorate)
      ⟨hdefinition, hguarded id hcontains⟩
  refine ⟨_, hlater, fun id hcontains => ?_, fun id service hcached => ?_⟩
  · obtain ⟨service, hcached⟩ := Option.isSome_iff_exists.mp hcontains
    obtain ⟨hbefore, hholds⟩ := hkept id service hcached
    obtain ⟨definition, hdefinition, -⟩ := hstems id service hbefore
    exact (hholds definition hdefinition).frozen
  · obtain ⟨hbefore, hholds⟩ := hkept id service hcached
    obtain ⟨definition, hdefinition, hshared, hstem⟩ := hstems id service hbefore
    have hholds := hholds definition hdefinition
    exact ⟨definition, hholds.found, hshared, hstem.next ⟨found, hat, hdefinition, hbefore⟩
      (.register hat op hop) ⟨_, hlater, hholds.found, hcached⟩⟩

theorem Fresh.answer (h : Fresh c start world) (course : Course c start world) {request : Request}
    {reply : request.Reply} {depth : Nat}
    (hanswer : request.perform (Call.sweeping c depth) world = (.ok reply, later)) :
    Fresh c start later := by
  obtain ⟨found, hfound, hguarded, hstems⟩ := h
  obtain ⟨hrun, makings, htrace⟩ :=
    Request.perform_of_vouches (Call.sweeping_vouches c depth) hanswer
  obtain ⟨now, hnow, hsince⟩ := htrace.since hfound
  refine ⟨now, hnow, hsince.guarded hguarded, fun id service hcached => ?_⟩
  rcases hsince.origin id service hcached with hbefore | ⟨definition, hdefinition, hshared, hmaking⟩
  · obtain ⟨definition, hdefinition, hshared, hstem⟩ := hstems id service hbefore
    have hdefinition' := (hsince.definition?_eq id).trans hdefinition
    exact ⟨definition, hdefinition', hshared, hstem.next ⟨found, hfound, hdefinition, hbefore⟩
      (.answer hanswer) ⟨now, hnow, hdefinition', hcached⟩⟩
  · exact ⟨definition, (hsince.definition?_eq id).trans hdefinition, hshared, world, later, makings,
      course, ⟨request, reply, depth, hrun⟩, htrace, hmaking, .refl⟩

theorem Course.fresh {first : Interpreter}
    (hstart : start.container? c = some (.interpreting first)) (hempty : first.services = ∅)
    (course : Course c start world) : Fresh c start world := by
  induction course with
  | refl =>
      refine ⟨first, hstart, fun id hcached => ?_, fun id service hcached => ?_⟩
      · rw [hempty] at hcached
        cases hcached
      · rw [hempty] at hcached
        cases hcached
  | tail course huses ih =>
      cases huses with
      | elsewhere hsame =>
          obtain ⟨found, hfound, hguarded, hstems⟩ := ih
          have hlater := hsame.trans hfound
          refine ⟨found, hlater, hguarded, fun id service hcached => ?_⟩
          obtain ⟨definition, hdefinition, hshared, hstem⟩ := hstems id service hcached
          exact ⟨definition, hdefinition, hshared, hstem.next ⟨found, hfound, hdefinition, hcached⟩
            (.elsewhere hsame) ⟨found, hlater, hdefinition, hcached⟩⟩
      | register hat op hop => exact ih.register hat op hop
      | answer hanswer => exact ih.answer course hanswer

/-- **No service is stale.** An interpreter starts with an empty cache and is used in any way. Under
each cached id a definition is registered whose services are shared, the id is frozen, and the
service was made of that definition, which has been registered ever since. Whatever name selects the
id is given that service. -/
theorem cache_fresh {first : Interpreter} (hstart : start.container? c = some (.interpreting first))
    (hempty : first.services = ∅) (course : Course c start world) :
    ∃ container : Interpreter, world.container? c = some (.interpreting container) ∧
      ∀ id service, container.services.get? id = some service →
        (∃ definition, container.registry.definition? id = some definition ∧
          definition.flags.factory = false ∧ container.registry.isFrozen id = true ∧
            Stems c id definition service start world) ∧
        ∀ (isPublic : Bool) (name : String) (options : ResolveOptions) (depth : Nat),
          container.registry.lookup isPublic name = .definition id →
            Call.run (depth + 1) (.locate isPublic c name options) world =
              (.ok service, world) := by
  obtain ⟨container, hat, hguarded, hstems⟩ := course.fresh hstart hempty
  refine ⟨container, hat, fun id service hcached => ?_⟩
  obtain ⟨definition, hdefinition, hshared, hstem⟩ := hstems id service hcached
  have hfrozen := hguarded id (Option.isSome_of_eq_some hcached)
  refine ⟨⟨definition, hdefinition, hshared, hfrozen, hstem⟩, ?_⟩
  intro isPublic name options depth hlookup
  have hgiven : (Container.interpreting container).cached? id = some service := by
    rw [Container.cached?, hdefinition, Option.bind_some, hshared]
    exact hcached
  rw [Call.run, Call.step_locate hat, Container.lookup, hlookup, Lookup.run,
    Container.obtain_cached hgiven]
  rfl

/-- One interpreter, with nothing in it. -/
def blank : World := { containers := #[some (.interpreting {})] }

/-- Its service `a` is set to 1 and asked for. -/
def gotten : World :=
  ((Request.get ⟨0⟩ "a" {}).perform (Call.run 2)
    (blank.register ⟨0⟩ (.set "a" (.ofValue (.int 1)))).2).2

/-- What was asked for once is given again. -/
theorem cache_fresh_gotten :
    ∃ definition, Stems ⟨0⟩ "a" definition (.int 1) blank gotten ∧
      Call.run 1 (.get ⟨0⟩ "a" {}) gotten = (.ok (.int 1), gotten) := by
  have hset : Uses ⟨0⟩ blank (blank.register ⟨0⟩ (.set "a" (.ofValue (.int 1)))).2 :=
    .register rfl _ fun _ hcached => by cases hcached
  have hget : Uses ⟨0⟩ (blank.register ⟨0⟩ (.set "a" (.ofValue (.int 1)))).2 gotten := by
    have hanswer : (Request.get ⟨0⟩ "a" {}).perform (Call.sweeping ⟨0⟩ 2)
        (blank.register ⟨0⟩ (.set "a" (.ofValue (.int 1)))).2 = (.ok (.ok (.int 1)), gotten) := rfl
    exact .answer hanswer
  have hblank : blank.container? ⟨0⟩ = some (.interpreting {}) := rfl
  obtain ⟨container, hat, hcached⟩ := cache_fresh hblank rfl (.tail (.single hset) hget)
  have hheld : ∃ found : Interpreter, gotten.container? ⟨0⟩ = some (.interpreting found) ∧
      found.services.get? "a" = some (.int 1) ∧ found.registry.lookup true "a" = .definition "a" :=
    ⟨_, rfl, rfl, rfl⟩
  obtain ⟨found, hfound, hservice, hlookup⟩ := hheld
  obtain rfl := Container.interpreting.inj (Option.some.inj (hat.symm.trans hfound))
  obtain ⟨⟨definition, -, -, -, hstem⟩, hgiven⟩ := hcached "a" (.int 1) hservice
  exact ⟨definition, hstem, hgiven true "a" {} 0 hlookup⟩

/-- The service that is given for the id is 1, although the definition that was just registered
under it is that of 2. -/
def Stale (id : String) (world : World) : Prop :=
  let replaced := world.register ⟨0⟩ (.set id (.ofValue (.int 2)))
  replaced.1 = .ok () ∧ (Call.run 1 (.get ⟨0⟩ id {}) replaced.2).1 = .ok (.int 1)

/-- A provider removes `a`. -/
def dismissed : World :=
  (gotten.register ⟨0⟩ (.provider (.mk "p" (fun _ => .perform (.remove "a") fun _ => .done) .done)
    .null)).2

/-- An object of the class is a service. When it is torn down it asks for `a`. -/
def disturbed : World :=
  let spec : ClassSpec := {
    name := "C"
    teardown := some fun _ => (Behaviour.request (.get ⟨0⟩ "a" {})).bind fun _ => pure () }
  let registered := (blank.register ⟨0⟩ (.registerClass spec)).2
  let set := (registered.register ⟨0⟩ (.set "a" (.ofValue (.int 1)))).2
  let ready := (set.register ⟨0⟩ (.set "c" (.ofEntity (.construct "C")))).2
  let used := ((Request.get ⟨0⟩ "c" {}).perform (Call.run 3) ready).2
  ((Request.reset ⟨0⟩).perform (Call.run 3) used).2

/-- **Services may be stranded** in the cache, where the registry neither has their definition nor
keeps their id frozen: by a provider that removes the id, and by a teardown that asks for a service
before a reset has unfrozen all ids. -/
theorem services_stranded : dismissed.Stale "a" ∧ disturbed.Stale "a" :=
  ⟨⟨rfl, rfl⟩, by decide +kernel, by decide +kernel⟩

end World
end Wiring
