import Wiring.Proofs.Sharing
import Wiring.Proofs.Traces

/-!
# What one call does

A call asks for the service of one definition at once, or it passes on to further calls. In the first
case it either does nothing to the world, or it constructs the service while the id stands at the end
of the chain; what the world is after that is told in terms of what it was when the service was made.

Nothing is assumed of user code, and resets may happen on the way. What remains then is the base of
each container, and machines need to run programs that were compiled.
-/

namespace Wiring

open Run

/-! ### What stays whatever is run -/

namespace Container

variable {a b : Container}

theorem eq_of_base {α : Type} {read : Container → α}
    (hread : ∀ container : Container, read container.base = read container)
    (h : b.base = a.base) : read b = read a := by
  rw [← hread b, h, hread a]

theorem defines_of_base (h : b.base = a.base) (id : String) : b.defines id = a.defines id :=
  eq_of_base (fun container => by cases container <;> rfl) h

theorem isFactory_of_base (h : b.base = a.base) (id : String) : b.isFactory id = a.isFactory id :=
  eq_of_base (fun container => by cases container <;> rfl) h

theorem notice?_of_base (h : b.base = a.base) (id : String) : b.notice? id = a.notice? id :=
  eq_of_base (fun container => by cases container <;> rfl) h

theorem storing_of_base (h : b.base = a.base) (id : String) (service : Value) :
    b.storing id service = a.storing id service :=
  eq_of_base (fun container => by cases container <;> rfl) h

theorem maxDepth_of_base (h : b.base = a.base) : b.maxDepth = a.maxDepth :=
  eq_of_base (fun container => by cases container <;> rfl) h

theorem handler_of_base (h : b.base = a.base) : b.handler = a.handler :=
  eq_of_base (fun container => by cases container <;> rfl) h

theorem base_of_bare (h : b.bare = a.bare) : b.base = a.base :=
  eq_of_bare (fun container => by cases container <;> rfl) h

@[simp]
theorem base_kept (container : Container) (id : String) (options : ResolveOptions)
    (service : Value) : (container.kept id options service).base = container.base := by
  unfold kept
  split
  · exact base_of_bare (bare_storing container id service)
  · rfl

end Container

theorem Store.Changes.code_eq {store later : Store} (h : store.Changes later) :
    later.code = store.code := by
  cases h with
  | settle l value =>
      unfold Store.settle
      split <;> rfl
  | _ => rfl

namespace World

/-- Containers keep their base, and callables their code. -/
structure Stays (world later : World) : Prop where
  base : ∀ c, (later.container? c).map Container.base = (world.container? c).map Container.base
  code : later.store.code = world.store.code

/-- Every machine runs a program that was compiled from a registry. -/
def Compiled (world : World) : Prop :=
  ∀ {c : ContainerRef} {machine : Machine}, world.container? c = some (.running machine) →
    ∃ (registry : Registry) (config : Config), registry.compile config = .ok machine.program

variable {world now last : World} {c : ContainerRef} {a b : Container}

namespace Stays

theorem refl (world : World) : world.Stays world := ⟨fun _ => rfl, rfl⟩

theorem trans (h : world.Stays now) (h' : now.Stays last) : world.Stays last :=
  ⟨fun c => (h'.base c).trans (h.base c), h'.code.trans h.code⟩

theorem of_store {store : Store} (h : store.code = world.store.code) :
    world.Stays { world with store } := ⟨fun _ => rfl, h⟩

theorem of_put (hat : world.container? c = some a) (h : b.base = a.base) :
    world.Stays (world.put c b) := ⟨map_base_put hat h, rfl⟩

theorem container (h : world.Stays now) (hat : world.container? c = some a) :
    ∃ b, now.container? c = some b ∧ b.base = a.base := by
  have hbase := h.base c
  rw [hat] at hbase
  exact Option.map_eq_some_iff.mp hbase

theorem container_before (h : world.Stays now) (hat : now.container? c = some b) :
    ∃ a, world.container? c = some a ∧ b.base = a.base := by
  have hbase := h.base c
  rw [hat] at hbase
  obtain ⟨container, hcontainer, hsame⟩ := Option.map_eq_some_iff.mp hbase.symm
  exact ⟨container, hcontainer, hsame.symm⟩

end Stays

theorem Compiled.later (compiled : world.Compiled) (h : world.Stays now) : now.Compiled := by
  intro c machine hat
  obtain ⟨container, hcontainer, hbase⟩ := h.container_before hat
  cases container with
  | interpreting interpreter => cases hbase
  | running before =>
      have hsame := Container.running.inj hbase
      have hprogram := congrArg Machine.program hsame
      dsimp only at hprogram
      rw [hprogram]
      exact compiled hcontainer

theorem compiled_alone {registry : Registry} {config : Config}
    (hstart : registry.Starts config a) (store : Store) :
    (World.alone store a).Compiled := by
  intro c machine hat
  rw [← container?_alone hat] at hstart
  cases hstart with
  | running hcompile handler => exact ⟨registry, config, hcompile⟩

end World

/-! ### Where a call leads at once -/

/-- A routine is run with the usual options. -/
def Call.options : Call → ResolveOptions
  | .get _ _ options => options
  | .resolve _ _ options => options
  | _ => {}

/-- The definition that a name leads to at once. -/
def Lookup.definition? : Lookup → Option String
  | .definition id => some id
  | _ => none

theorem Lookup.definition?_eq_some {lookup : Lookup} {id : String} :
    lookup.definition? = some id ↔ lookup = .definition id := by
  cases lookup <;> simp [definition?]

namespace Container

/-- The definition whose service a call to the container asks for at once. -/
def wants (container : Container) : Call → Option String
  | .get _ name _ => (container.lookup true name).definition?
  | .resolve _ name _ => (container.lookup false name).definition?
  | .routine _ position => container.routineId? position
  | _ => none

theorem wants_locate (container : Container) (isPublic : Bool) (c : ContainerRef) (name : String)
    (options : ResolveOptions) :
    container.wants (.locate isPublic c name options) =
      (container.lookup isPublic name).definition? := by
  cases isPublic <;> rfl

theorem wants_withHandler (container : Container) (handler : NoticeHandler) (call : Call) :
    (container.withHandler handler).wants call = container.wants call := by
  cases container <;> rfl

end Container

/-- The container that a call is to. -/
def Call.home? : Call → Option ContainerRef
  | .get c _ _ => some c
  | .resolve c _ _ => some c
  | .routine c _ => some c
  | _ => none

namespace World

/-- The definition whose service a call asks for at once, and where. -/
def wants (world : World) (call : Call) : Option (ContainerRef × String) := do
  let c ← call.home?
  let container ← world.container? c
  return (c, ← container.wants call)

/-- The construction that a call begins: nothing else is done for a service that is not cached. -/
def opens (world : World) (call : Call) : Option (ContainerRef × String) :=
  (world.wants call).filter fun entry => (world.cached? entry.1 entry.2).isNone

variable {world : World} {c : ContainerRef} {container : Container} {call : Call} {id : String}

theorem wants_eq_some : world.wants call = some (c, id) ↔
    call.home? = some c ∧ ∃ container, world.container? c = some container ∧
      container.wants call = some id := by
  unfold wants
  simp only [Option.bind_eq_bind, Option.bind_eq_some_iff, Option.pure_def, Option.some.injEq,
    Prod.mk.injEq]
  constructor
  · rintro ⟨_, hhome, found, hat, _, hwants, rfl, rfl⟩
    exact ⟨hhome, found, hat, hwants⟩
  · rintro ⟨hhome, found, hat, hwants⟩
    exact ⟨c, hhome, found, hat, id, hwants, rfl, rfl⟩

theorem wants_of_passing (hwants : world.wants call = none) (hhome : call.home? = some c)
    (hat : world.container? c = some container) : container.wants call = none := by
  rw [Option.eq_none_iff_forall_not_mem]
  intro id hid
  rw [wants_eq_some.mpr ⟨hhome, container, hat, hid⟩] at hwants
  cases hwants

theorem cached?_eq (hat : world.container? c = some container) (id : String) :
    world.cached? c id = container.cached? id := by
  rw [cached?, hat, Option.bind_some]

theorem opens_eq_some : world.opens call = some (c, id) ↔
    world.wants call = some (c, id) ∧ world.cached? c id = none := by
  unfold opens
  rw [Option.filter_eq_some_iff, Option.isNone_iff_eq_none]

theorem opens_of_cached {service : Value} (hwants : world.wants call = some (c, id))
    (hcached : world.cached? c id = some service) : world.opens call = none := by
  unfold opens
  rw [hwants, Option.filter_some, hcached]
  rfl

theorem opens_of_passing (hwants : world.wants call = none) : world.opens call = none := by
  rw [opens, hwants, Option.filter_none]

/-- A call passes on, or asks for what is cached, or begins a construction. -/
theorem asks_cases (world : World) (call : Call) :
    world.wants call = none ∨
      (∃ c id service, world.wants call = some (c, id) ∧ world.cached? c id = some service) ∨
      ∃ c id, world.opens call = some (c, id) := by
  cases hwants : world.wants call with
  | none => exact .inl rfl
  | some entry =>
      obtain ⟨c, id⟩ := entry
      cases hcached : world.cached? c id with
      | none => exact .inr (.inr ⟨c, id, opens_eq_some.mpr ⟨hwants, hcached⟩⟩)
      | some service => exact .inr (.inl ⟨c, id, service, rfl, hcached⟩)

end World

namespace Call

variable {world : World} {c : ContainerRef} {call : Call} {id : String}

/-- **A call that asks for a service** obtains it, and that is all. -/
theorem step_wanting (compiled : world.Compiled) (hwants : world.wants call = some (c, id)) :
    ∃ container, world.container? c = some container ∧ container.defines id ∧
      ∀ recur : Caller, step recur call world =
        container.obtain recur c id call.options world := by
  obtain ⟨hhome, container, hat, hwants⟩ := World.wants_eq_some.mp hwants
  have hlocate : ∀ (isPublic : Bool) (name : String) (options : ResolveOptions),
      call = .locate isPublic c name options → call.options = options →
        container.defines id ∧ ∀ recur : Caller, step recur call world =
          container.obtain recur c id call.options world := by
    intro isPublic name options hcall hoptions
    rw [hcall, Container.wants_locate, Lookup.definition?_eq_some] at hwants
    refine ⟨Container.defines_of_lookup hwants, fun recur => ?_⟩
    rw [hoptions, hcall, step_locate hat, hwants, Lookup.run]
  cases call with
  | get d name options =>
      obtain rfl : d = c := Option.some.inj hhome
      exact ⟨container, hat, hlocate true name options rfl rfl⟩
  | resolve d name options =>
      obtain rfl : d = c := Option.some.inj hhome
      exact ⟨container, hat, hlocate false name options rfl rfl⟩
  | routine d position =>
      obtain rfl : d = c := Option.some.inj hhome
      cases container with
      | interpreting interpreter => cases hwants
      | running machine =>
          obtain ⟨registry, config, hcompile⟩ := compiled hat
          have hcompiled := Registry.compiled_of_compile hcompile
          obtain ⟨routine, hroutine, hnamed⟩ := Option.map_eq_some_iff.mp hwants
          have hfound := hcompiled.routine?_of_mem (List.mem_of_getElem? hroutine)
          rw [hnamed] at hfound
          refine ⟨.running machine, hat, Option.isSome_iff_exists.mpr ⟨routine, hfound⟩,
            fun recur => ?_⟩
          rw [step, bind_of_ok (container_apply hat)]
          dsimp only
          have hid : (Container.running machine).routineId? position = some id := hwants
          rw [Machine.runAt_eq hcompiled, hid]
          rfl
  | invoke d f args => cases hhome
  | force l => cases hhome
  | reset d => cases hhome

/-- A call that asks for what is cached is given it. -/
theorem step_given (compiled : world.Compiled) (hwants : world.wants call = some (c, id))
    {service : Value} (hcached : world.cached? c id = some service) (recur : Caller) :
    step recur call world = (.ok service, world) := by
  obtain ⟨container, hat, -, hobtain⟩ := step_wanting compiled hwants
  rw [World.cached?_eq hat] at hcached
  rw [hobtain, Container.obtain_cached hcached]
  rfl

/-- A call that begins a construction does nothing else. -/
theorem step_opening (compiled : world.Compiled) (hopens : world.opens call = some (c, id)) :
    ∃ container, world.container? c = some container ∧ container.defines id ∧
      container.cached? id = none ∧
      ∀ recur : Caller, step recur call world =
        container.obtain recur c id call.options world := by
  obtain ⟨hwants, hcached⟩ := World.opens_eq_some.mp hopens
  obtain ⟨container, hat, hdefined, hobtain⟩ := step_wanting compiled hwants
  exact ⟨container, hat, hdefined, (World.cached?_eq hat id).symm.trans hcached, hobtain⟩

variable {C : Congruence} {recur recur' : Caller}

/-- A name that leads to no definition is passed on to the services of a type, or refused. -/
theorem locate_passing (h : C.Callers recur recur') (isPublic : Bool) {c : ContainerRef}
    {name : String} {options : ResolveOptions}
    (hwants : world.wants (locate isPublic c name options) = none) :
    C.HoldsAt world (step recur (locate isPublic c name options))
      (step recur' (locate isPublic c name options)) := by
  have hhome : (locate isPublic c name options).home? = some c := by cases isPublic <;> rfl
  have hview := (C.redirects world).container c
  cases hat : world.container? c with
  | none =>
      rw [hat] at hview
      refine C.still (.error (.error (.containerDropped ""))) ?_ ?_
      · cases isPublic <;> exact bind_of_error (container_absent hview) _
      · cases isPublic <;> exact bind_of_error (container_absent hat) _
  | some container =>
      rw [hat] at hview
      have hundefined := World.wants_of_passing hwants hhome hat
      rw [Container.wants_locate] at hundefined
      refine C.congr (step_locate hview ..) (step_locate hat ..) ?_
      rw [Container.lookup_withHandler]
      cases hlookup : container.lookup isPublic name with
      | definition id =>
          rw [hlookup] at hundefined
          cases hundefined
      | withheld => exact Congruence.Holds.fail _ world
      | services typeName ids => exact Run.resolveType_holds h typeName ids options world

/-- A position at which there is no routine is refused. -/
theorem routine_passing {c : ContainerRef} {position : Nat}
    (hwants : world.wants (.routine c position) = none) :
    C.HoldsAt world (step recur (.routine c position)) (step recur' (.routine c position)) := by
  refine Congruence.holdsAt_container fun container hat => ?_
  cases container with
  | interpreting interpreter => exact Congruence.Holds.fail _ world
  | running machine =>
      have hundefined : (machine.program.routines[position]?).map Routine.id = none :=
        World.wants_of_passing hwants rfl hat
      have hrun : ∀ (recur : Caller) (handler : NoticeHandler),
          Machine.runAt recur c { machine with handler } position = Run.fail (.notFound "") := by
        intro recur handler
        rw [Machine.runAt, Option.map_eq_none_iff.mp hundefined]
      have hleft := hrun recur (C.handler (.running machine))
      have hright := hrun recur' machine.handler
      dsimp only [Container.withHandler]
      rw [hleft]
      exact C.congr rfl (congrFun hright world) (Congruence.Holds.fail _ world)

/-- **A call that passes on** to further calls stands in a relation if they do. -/
theorem step_passing (h : C.Callers recur recur') (hwants : world.wants call = none)
    (hreset : ∀ c, call = .reset c →
      C.HoldsAt world (resetContainer recur c) (resetContainer recur' c)) :
    C.HoldsAt world (step recur call) (step recur' call) := by
  cases call with
  | get c name options => exact locate_passing h true hwants
  | resolve c name options => exact locate_passing h false hwants
  | routine c position => exact routine_passing hwants
  | invoke c f args => exact invoke_holds h c f args world
  | force l => exact forceHandle_holds h l world
  | reset c => exact C.next (hreset c rfl) fun _ later _ => Congruence.Holds.pure _ later

/-- A reset stands in a relation if its changes to the container do. -/
theorem resetContainer_holds (h : C.Callers recur recur') (c : ContainerRef)
    (hcache : C.Holds (Run.changeContainer c Container.clearCache)
      (Run.changeContainer c Container.clearCache))
    (hstate : C.Holds (Run.changeContainer c Container.clearRuntimeState)
      (Run.changeContainer c Container.clearRuntimeState)) :
    C.Holds (resetContainer recur c) (resetContainer recur' c) := by
  refine Congruence.holds_container (fun container => ?_) c
  have hsame : (container.withHandler (C.handler container)).cached = container.cached ∧
      (container.withHandler (C.handler container)).catalog = container.catalog := by
    cases container <;> exact ⟨rfl, rfl⟩
  rw [hsame.1, hsame.2]
  refine hcache.bind fun _ => ?_
  exact Congruence.Holds.bind (.forM (tearDown_holds h container.catalog) _) fun _ => hstate

end Call

/-! ### A construction -/

/-- A notice of the service goes where the handler sends it. -/
def Store.announced (store : Store) (id : String) (notice : Option Deprecation)
    (handler : NoticeHandler) : Store :=
  match notice, handler with
  | some notice, .journal => store.record (.deprecated id notice)
  | _, _ => store

theorem Store.code_announced (store : Store) (id : String) (notice : Option Deprecation)
    (handler : NoticeHandler) : (store.announced id notice handler).code = store.code := by
  unfold announced
  split <;> rfl

theorem Run.announce_announced {world : World} {c : ContainerRef} {b : Container}
    (hat : world.container? c = some b) (id : String) (notice : Option Deprecation) :
    announce c id notice world =
      (.ok (), { world with store := world.store.announced id notice b.handler }) := by
  unfold announce Store.announced
  rw [bind_of_ok (container_apply hat)]
  generalize b.handler = handler
  cases notice with
  | none => rfl
  | some notice => cases handler <;> rfl

theorem Container.make_holds {C : Congruence} {recur recur' : Caller} (h : C.Callers recur recur')
    (container : Container) (handler : NoticeHandler) (c : ContainerRef) (id : String) :
    C.Holds ((container.withHandler handler).make recur c id) (container.make recur' c id) := by
  cases container with
  | interpreting interpreter =>
      dsimp only [make, withHandler]
      split
      · exact Interpreter.create_holds h id _
      · exact .fail _
  | running machine =>
      dsimp only [make, withHandler]
      split
      · exact Machine.create_holds h _
      · exact .fail _

namespace World

/-- The world after a service was constructed in the container `b`: a notice is given, the service is
cached if it is to be, and the chain is cut to what it was. -/
def completed (inner : World) (c : ContainerRef) (id : String) (options : ResolveOptions)
    (depth : Nat) (b : Container) (service : Value) : World :=
  ({ inner with store := inner.store.announced id (b.notice? id) b.handler } : World).put c
    ((b.kept id options service).setLoading (b.loading.take depth))

theorem put_put (world : World) (c : ContainerRef) (a b : Container) :
    (world.put c a).put c b = world.put c b := by
  unfold put
  simp

end World

namespace Container

variable {world inner : World} {c : ContainerRef} {container b : Container} {id : String}
  {options : ResolveOptions} {recur : Caller} {longer : List String}

theorem obtain_completed {service : Value} (hat : world.container? c = some container)
    (hdefined : container.defines id) (hcached : container.cached? id = none)
    (henter : Chain.enter container.maxDepth container.loading id = .ok longer)
    (hmake : container.make recur c id (world.put c (container.setLoading longer)) =
      (.ok service, inner))
    (hb : inner.container? c = some b) (hbase : b.base = container.base) :
    container.obtain recur c id options world =
      (.ok service, inner.completed c id options container.loading.length b service) := by
  rw [obtain_made hdefined hcached, entering_apply hat henter, bind_of_ok hmake,
    bind_of_ok (announce_announced hb id _), ← notice?_of_base hbase]
  set announced : World :=
    { inner with store := inner.store.announced id (b.notice? id) b.handler } with hannounced
  have hb' : announced.container? c = some b := hb
  have hcut : ∀ kept : Container, kept.loading = b.loading →
      Run.cut c container.loading.length (announced.put c kept) =
        announced.put c (kept.setLoading (b.loading.take container.loading.length)) := by
    intro kept hloading
    rw [cut_apply (World.container?_put_self announced c kept b hb'), World.put_put, hloading]
  rw [keep, World.completed, ← hannounced, kept, isFactory_of_base hbase]
  split
  · rw [bind_of_ok (changeContainer_apply hb' _), storing_of_base hbase.symm]
    exact Prod.ext rfl (hcut _ (loading_storing b id service))
  · exact Prod.ext rfl (cut_apply hb' _)

end Container

/-! ### Invariants -/

/-- What the store and resets have no influence on. -/
structure World.Invariant (I : World → Prop) : Prop where
  store : ∀ {world : World} {store : Store}, I world → I { world with store }
  clearCache : ∀ {world : World} {c : ContainerRef} {container : Container},
    world.container? c = some container → I world → I (world.put c container.clearCache)
  clearRuntimeState : ∀ {world : World} {c : ContainerRef} {container : Container},
    world.container? c = some container → I world → I (world.put c container.clearRuntimeState)

namespace Run

variable {α : Type} {world world' : World}

theorem outcome_congr {act other : Run α} (h : act world = other world') :
    outcome act world = outcome other world' := by
  simp only [outcome, ExceptT.mk, ExceptT.run, bind, StateT.bind, h]

theorem outcome_snd (act : Run α) (world : World) : (outcome act world).2 = (act world).2 := by
  rcases hrun : act world with ⟨_ | a, later⟩
  · next halt =>
      cases halt with
      | error error => rw [outcome_of_error hrun]
      | unfinished => rw [outcome_of_unfinished hrun]
  · rw [outcome_of_ok hrun]

/-- The two runs do the same from where the invariant holds, and it holds again afterwards. -/
def Keeps (I : World → Prop) (world : World) (act other : Run α) : Prop :=
  world.Compiled → I world →
    act world = other world ∧ world.Stays (other world).2 ∧ I (other world).2

variable {I : World → Prop}

theorem Keeps.next {β : Type} {act other : Run α} {next next' : α → Run β}
    (hact : Keeps I world act other)
    (hnext : ∀ a later, other world = (.ok a, later) → Keeps I later (next a) (next' a)) :
    Keeps I world (act >>= next) (other >>= next') := by
  intro compiled hI
  obtain ⟨hsame, hstays, hlater⟩ := hact compiled hI
  rcases hrun : other world with ⟨_ | a, later⟩
  · rw [hrun] at hsame hstays hlater
    rw [bind_of_error hsame, bind_of_error hrun]
    exact ⟨rfl, hstays, hlater⟩
  · rw [hrun] at hsame hstays hlater
    rw [bind_of_ok hsame, bind_of_ok hrun]
    obtain ⟨hsame', hstays', hlast⟩ := hnext a later hrun (compiled.later hstays) hlater
    exact ⟨hsame', hstays.trans hstays', hlast⟩

def keeping (I : World → Prop) (invariant : World.Invariant I) : Congruence where
  view world := world
  handler := Container.handler
  HoldsAt := Keeps I
  redirects := World.redirects_self
  congr hact hother h compiled hI := by
    rw [hact, hother]
    exact h compiled hI
  still result hact hother compiled hI := by
    rw [hact, hother]
    exact ⟨rfl, .refl _, hI⟩
  changes h world _ hI := ⟨rfl, .of_store (h world.store).code_eq, invariant.store hI⟩
  next := Keeps.next
  answers hact compiled hI := by
    obtain ⟨hsame, hlater⟩ := hact compiled hI
    rw [outcome_snd]
    exact ⟨outcome_congr hsame, hlater⟩

theorem changeContainer_keeps (c : ContainerRef) {f : Container → Container}
    (hbase : ∀ container : Container, (f container).base = container.base)
    (hI : ∀ {world : World} {container : Container}, world.container? c = some container →
      I world → I (world.put c (f container))) :
    Keeps I world (changeContainer c f) (changeContainer c f) := by
  intro _ hworld
  refine ⟨rfl, ?_⟩
  cases hat : world.container? c with
  | none =>
      rw [changeContainer, bind_of_error (container_absent hat)]
      exact ⟨.refl world, hworld⟩
  | some container =>
      rw [changeContainer_apply hat]
      exact ⟨.of_put hat (hbase container), hI hat hworld⟩

/-- A reset keeps what it has no influence on. -/
theorem resetContainer_keeps {recur recur' : Caller} (invariant : World.Invariant I)
    (h : (keeping I invariant).Callers recur recur') (c : ContainerRef) :
    Keeps I world (Call.resetContainer recur c) (Call.resetContainer recur' c) :=
  Call.resetContainer_holds h c
    (fun _ => changeContainer_keeps c Container.base_clearCache invariant.clearCache)
    (fun _ => changeContainer_keeps c Container.base_clearRuntimeState
      invariant.clearRuntimeState) world

end Run

end Wiring
