import Wiring.Proofs.Freshness

/-!
# What is refused as frozen

Definitions that are in use are not to be changed. The registry knows them by its frozen ids, the
container by its cache. Where the two are in step under an id, whoever sets or changes its definition
is refused just if a service of it is cached.

They start in step in a container that takes nothing frozen over. What a container registers by itself
keeps them so, and so does a reset that ends with the id uncached. In the middle of a reset they are
out of step, when the cache is empty and the ids are frozen still: so this is followed from before a
reset to its end, and not from one of its parts to the next.
-/

namespace Wiring

open Run

/-! ### Where changes are refused -/

namespace Registry

open Registering

variable {registry : Registry} {id other : String}

theorem bind_ensureNotFrozen_conflict_iff {next : Except Error Registry}
    (hnext : ∀ other, next ≠ .error (.frozenConflict other)) :
    (do registry.ensureNotFrozen id; next) = .error (.frozenConflict other) ↔
      other = id ∧ registry.isFrozen id = true := by
  unfold ensureNotFrozen
  split
  · next hfrozen =>
      have hrefused : (do Except.error (.frozenConflict id); next : Except Error Registry) =
          .error (.frozenConflict id) := rfl
      rw [hrefused, Except.error.injEq, Error.frozenConflict.injEq]
      exact ⟨fun hsame => ⟨hsame.symm, hfrozen⟩, fun h => h.1.symm⟩
  · next hfree => exact iff_of_false (hnext other) fun h => hfree h.2

theorem set_conflict_iff (definition : Definition) :
    registry.set id definition = .error (.frozenConflict other) ↔
      other = id ∧ registry.isFrozen id = true :=
  bind_ensureNotFrozen_conflict_iff fun other h => by cases h

theorem update_conflict_iff (change : Definition → Definition) :
    registry.update id change = .error (.frozenConflict other) ↔
      other = id ∧ registry.isFrozen id = true :=
  bind_ensureNotFrozen_conflict_iff fun other h => by split at h <;> cases h

theorem decorate_conflict_iff (decorator : Decorator) :
    registry.decorate id decorator = .error (.frozenConflict other) ↔
      other = id ∧ registry.isFrozen id = true :=
  bind_ensureNotFrozen_conflict_iff fun other h => by split at h <;> cases h

end Registry

namespace Interpreter

variable {container : Interpreter} {id other : String} {op : Registration}

/-- The id whose definition the registration is to set or change. Decoration goes through aliases. -/
def target? (container : Interpreter) : Registration → Option String
  | .set id _ => some id
  | .autowire id _ _ => some id
  | .update id _ => some id
  | .decorate name _ => some (container.registry.resolveAlias name)
  | _ => none

/-- The id is frozen just if a service is cached under it. -/
def InStep (id : String) (container : Interpreter) : Prop :=
  container.registry.isFrozen id = container.services.contains id

/-- A new container is in step under what its registry does not hold frozen. -/
theorem inStep_ofRegistry {registry : Registry} (hfree : registry.isFrozen id = false)
    (config : Config) (handler : NoticeHandler) : (ofRegistry registry config handler).InStep id :=
  hfree

theorem extend_conflict_iff {name : String} (decorator : Decorator)
    (hname : container.registry.resolveAlias name = id) (hstep : container.InStep id) :
    container.extend name decorator = .error (.frozenConflict other) ↔
      other = id ∧ container.services.contains id = true := by
  unfold extend
  dsimp only
  rw [hname]
  split
  · next hcached =>
      rw [Except.error.injEq, Error.frozenConflict.injEq]
      exact ⟨fun hsame => ⟨hsame.symm, hcached⟩, fun h => h.1.symm⟩
  · next huncached =>
      have hdecorate : container.registry.decorate id decorator = .error (.frozenConflict other) ↔
          other = id ∧ container.registry.isFrozen id = true :=
        Registry.decorate_conflict_iff decorator
      rw [← hstep, ← hdecorate]
      cases container.registry.decorate id decorator with
      | ok registry => exact iff_of_false (fun h => by cases h) fun h => by cases h
      | error error =>
          change (Except.error error : Except Error Interpreter) = _ ↔ _
          rw [Except.error.injEq, Except.error.injEq]

/-- **Refusals.** Where frozen and cached ids are in step, what is cached is refused and nothing
else. -/
theorem InStep.conflict_iff (hstep : container.InStep id) (htarget : container.target? op = some id)
    (store : Store) : (container.register store op).1 = .error (.frozenConflict other) ↔
      other = id ∧ container.services.contains id = true := by
  cases op with
  | set name definition =>
      obtain rfl := Option.some.inj htarget
      rw [← hstep, ← Registry.set_conflict_iff definition]
      exact Registering.change_error_iff (·.set name definition) ⟨container.registry, store⟩
  | autowire name definition types =>
      obtain rfl := Option.some.inj htarget
      rw [← hstep, ← Registry.set_conflict_iff (definition.autowire types)]
      exact Registering.change_error_iff (·.autowire name definition types) ⟨container.registry, store⟩
  | update name change =>
      obtain rfl := Option.some.inj htarget
      rw [← hstep, ← Registry.update_conflict_iff change]
      exact Registering.change_error_iff (·.update name change) ⟨container.registry, store⟩
  | decorate name decorator =>
      rw [← extend_conflict_iff decorator (Option.some.inj htarget) hstep, register]
      cases container.extend name decorator with
      | ok extended => exact iff_of_false (fun h => by cases h) fun h => by cases h
      | error error => rw [Except.error.injEq, Except.error.injEq]
  | _ => cases htarget

end Interpreter

/-! ### What keeps frozen and cached ids in step -/

/-- The id is neither removed nor frozen nor unfrozen. -/
def Registration.Abides (id : String) (op : Registration) : Prop :=
  op.Only fun single => single ≠ .remove id ∧ single ≠ .freeze id ∧ single ≠ .resetRuntimeState

/-- Of what a container offers by itself, nothing but its removal changes whether an id is frozen. -/
theorem Registration.abides_of_single {op : Registration} {id : String} (hsingle : op.Single)
    (hremove : op ≠ .remove id) (hfreeze : op ≠ .freeze id) (hreset : op ≠ .resetRuntimeState) :
    op.Abides id := by
  cases op with
  | provider provider config => exact hsingle.elim
  | _ => exact ⟨hremove, hfreeze, hreset⟩

namespace Registry

open Registering

/-- Whether the id is frozen. -/
def FrozenAs (id : String) (frozen : Bool) (registry : Registry) : Prop :=
  registry.isFrozen id = frozen

theorem closed_frozenAs (id : String) (frozen : Bool) :
    ClosedUnder (fun single => single ≠ .remove id ∧ single ≠ .freeze id ∧
      single ≠ .resetRuntimeState) (FrozenAs id frozen) where
  single op hsingle hop := by
    cases op with
    | set other new =>
        refine .change fun _ _ h hset => ?_
        obtain ⟨-, rfl⟩ := set_eq_ok hset
        exact h
    | autowire other new types =>
        refine .change fun _ _ h hset => ?_
        obtain ⟨-, rfl⟩ := set_eq_ok hset
        exact h
    | update other change =>
        refine .change fun _ _ h hupdate => ?_
        obtain ⟨old, -, -, rfl⟩ := update_eq_ok hupdate
        exact h
    | decorate other decorator =>
        refine .change fun _ _ h hdecorate => ?_
        obtain ⟨old, -, -, rfl⟩ := decorate_eq_ok hdecorate
        exact h
    | remove other =>
        have hne : id ≠ other := by
          rintro rfl
          exact hop.1 rfl
        refine Keeps.change_total fun registry h => ?_
        rw [FrozenAs, isFrozen_remove, if_neg hne]
        exact h
    | addAlias name target =>
        refine .change fun _ _ h halias => ?_
        obtain ⟨aliases, -, rfl⟩ := addAlias_eq_ok halias
        exact h
    | freeze other =>
        have hne : id ≠ other := by
          rintro rfl
          exact hop.2.1 rfl
        refine Keeps.change_total fun registry h => ?_
        rw [FrozenAs, isFrozen_freeze_of_ne registry hne]
        exact h
    | resetRuntimeState => exact absurd rfl hop.2.2
    | provider provider config => exact hsingle.elim
    | _ => exact Keeps.change_total fun _ h => h
  set _ _ h hset := by
    obtain ⟨-, rfl⟩ := set_eq_ok hset
    exact h
  setParameter _ _ h := h
  addProvider _ h := h

end Registry

namespace Interpreter

variable {container : Interpreter} {id : String} {op : Registration}

/-- **A registration** keeps them in step: the container's removal takes both records away. -/
theorem InStep.after (hstep : container.InStep id) (store : Store)
    (hop : op = .remove id ∨ op.Abides id) : (container.after store op).InStep id := by
  unfold InStep
  rcases hop with rfl | hop
  · rw [Table.contains, services_after_remove]
    exact (Registry.isFrozen_remove container.registry id id).trans (if_pos rfl)
  · have hne : op ≠ .remove id := by
      rintro rfl
      exact hop.1 rfl
    rw [Table.contains, services_after store op hne]
    exact registry_after store op ((Registry.closed_frozenAs id _).keeps op hop)
      (fun _ _ h hdecorate => by
        obtain ⟨old, -, -, rfl⟩ := Registry.decorate_eq_ok hdecorate
        exact h) hstep

theorem InStep.cache (hstep : container.InStep id) (other : String) (service : Value) :
    (container.cache other service).InStep id := by
  unfold InStep at *
  rw [Table.contains, get?_cache, Bool.eq_iff_iff, isFrozen_cache]
  split
  · next hsame => exact iff_of_true (.inl hsame) rfl
  · next hne => rw [or_iff_right hne, hstep, Table.contains]

/-- Only the container's own resets part them. -/
theorem withstands_inStep (c : ContainerRef) (id : String) :
    World.Withstands (fun d _ => d ≠ c) c (InStep id) where
  chain _ h := h
  cache service _ _ _ h := h.cache _ service
  clearCache hne _ := absurd rfl hne
  clearRuntimeState hne _ := absurd rfl hne

end Interpreter

/-! ### Runs that nothing stops -/

namespace Run

variable {α β : Type}

/-- The run does not fail; it may be given up. -/
def Steady (act : Run α) : Prop := ∀ world error, (act world).1 ≠ .error (.error error)

theorem Steady.pure (a : α) : (Pure.pure a : Run α).Steady := fun _ _ h => by cases h

theorem Steady.bind {act : Run α} {next : α → Run β} (hact : act.Steady)
    (hnext : ∀ a, (next a).Steady) : (act >>= next).Steady := by
  intro world error h
  rcases hrun : act world with ⟨_ | a, later⟩
  · rw [bind_of_error hrun] at h
    obtain rfl := Except.error.inj h
    exact hact world error (congrArg Prod.fst hrun)
  · rw [bind_of_ok hrun] at h
    exact hnext a later error h

theorem Steady.forM {visit : α → Run Unit} (h : ∀ item, (visit item).Steady) (items : List α) :
    (items.forM visit).Steady := by
  induction items with
  | nil => exact .pure ()
  | cons item rest ih => exact (h item).bind fun _ => ih

/-- A failure is an answer. -/
theorem steady_outcome (act : Run α) : (outcome act).Steady := by
  intro world error h
  rcases hrun : act world with ⟨(_ | _) | a, later⟩
  · rw [outcome_of_error hrun] at h
    cases h
  · rw [outcome_of_unfinished hrun] at h
    cases h
  · rw [outcome_of_ok hrun] at h
    cases h

end Run

/-! ### Resets -/

namespace Call

/-- Ids are unfrozen where nothing is cached under the one; anything else is given up. -/
def unfreezeUnheld (id : String) (c : ContainerRef) : Run Unit := do
  if (← Run.container c).holds id then throw .unfinished
  else Run.changeContainer c Container.clearRuntimeState

/-- The call, given up where a reset of the container unfreezes the id while it is cached. -/
def settling (c : ContainerRef) (id : String) : Nat → Call → Run Value :=
  runWith fun recur d =>
    if d = c then resetThen recur d (unfreezeUnheld id d) else resetContainer recur d

theorem unfreezeUnheld_apply {c : ContainerRef} {world : World} {container : Container}
    (hat : world.container? c = some container) (id : String) :
    unfreezeUnheld id c world =
      if container.holds id then (.error .unfinished, world)
      else (.ok (), world.put c container.clearRuntimeState) := by
  unfold unfreezeUnheld
  rw [bind_of_ok (container_apply hat)]
  split
  · rfl
  · rw [changeContainer_apply hat]

theorem unfreezeUnheld_vouches {W : World.Ways} {c : ContainerRef} (hresets : W.Resets c)
    {world : World} {container : Container} (hat : world.container? c = some container)
    (id : String) :
    VouchesAt W world (unfreezeUnheld id c) (Run.changeContainer c Container.clearRuntimeState) := by
  unfold VouchesAt
  rw [unfreezeUnheld_apply hat, changeContainer_apply hat]
  split
  · exact .inl rfl
  · exact .inr ⟨rfl, hresets.clearRuntimeState hat⟩

/-- Teardowns that fail do not stop a reset. -/
theorem tearDown_steady (recur : Caller) (catalog : Catalog) (service : Value) :
    (tearDown recur catalog service).Steady := by
  unfold tearDown
  split
  · exact (Run.steady_outcome _).bind fun _ => .pure ()
  · exact .pure ()

/-- **A reset** of an interpreter ends with the id neither frozen nor cached. -/
theorem resetThen_inStep {W : World.Ways} {recur recur' : Caller} (h : Caller.Vouches W recur recur')
    {c : ContainerRef} {world : World} {container : Interpreter}
    (hat : world.container? c = some (.interpreting container)) (id : String) :
    (resetThen recur c (unfreezeUnheld id c) world).1 = .error .unfinished ∨
      World.Hosts (Interpreter.InStep id) c (resetThen recur c (unfreezeUnheld id c) world).2 := by
  have hself := World.container?_put_self world c (Container.interpreting container).clearCache _ hat
  have hsteady := Steady.forM (tearDown_steady recur (Container.interpreting container).catalog)
    (Container.interpreting container).cached
  rw [resetThen_apply hat]
  rcases hrun : (Container.interpreting container).cached.forM
    (tearDown recur (Container.interpreting container).catalog)
    (world.put c (Container.interpreting container).clearCache) with ⟨(error | _) | _, mid⟩
  · exact absurd (congrArg Prod.fst hrun) (hsteady _ error)
  · rw [bind_of_error hrun]
    exact .inl rfl
  · obtain ⟨now, hnow, -⟩ := ((tearDown_vouches h _ _ _).leads hrun).interpreter hself
    rw [bind_of_ok hrun, unfreezeUnheld_apply hnow]
    split
    · exact .inl rfl
    · next hunheld =>
        refine .inr ⟨_, World.container?_put_self _ _ _ _ hnow, ?_⟩
        exact (Bool.eq_false_iff.mpr hunheld).symm

theorem resetThen_settling_vouches {recur recur' : Caller} {c : ContainerRef} {id : String}
    (h : Caller.Vouches (.keeping (Interpreter.withstands_inStep c id)) recur recur')
    {world : World} :
    VouchesAt (.keeping (Interpreter.withstands_inStep c id)) world
      (resetThen recur c (unfreezeUnheld id c)) (resetContainer recur' c) := by
  have hresets : (World.Ways.tracing fun _ _ => True).Resets c :=
    World.Ways.tracing_resets fun _ => trivial
  have htraced : Caller.Vouches (.tracing fun _ _ => True) recur recur' :=
    h.mono fun _ _ hway => hway.1
  have hvouches : VouchesAt (.tracing fun _ _ => True) world
      (resetThen recur c (unfreezeUnheld id c)) (resetContainer recur' c) :=
    resetThen_vouches htraced (fun _ hat => hresets.clearCache hat) fun _ _ hnow =>
      unfreezeUnheld_vouches hresets hnow id
  by_cases hhosts : World.Hosts (Interpreter.InStep id) c world
  · obtain ⟨container, hat, -⟩ := hhosts
    rcases resetThen_inStep htraced hat id with hgiven | hstep
    · exact .inl hgiven
    · exact hvouches.imp_right fun hsame => ⟨hsame.1, hsame.2, fun _ => hstep⟩
  · exact hvouches.imp_right fun hsame => ⟨hsame.1, hsame.2, fun h => absurd h hhosts⟩

/-- **A settled run that ends is the run itself**, and where the id is in step before, it is so
afterwards. -/
theorem settling_vouches (c : ContainerRef) (id : String) (depth : Nat) :
    Caller.Vouches (.keeping (Interpreter.withstands_inStep c id)) (settling c id depth)
      (run depth) := by
  refine runWith_vouches (fun ih d => ?_) depth
  split
  · next hsame =>
      subst hsame
      exact fun _ => resetThen_settling_vouches ih
  · next hne =>
      exact fun _ => resetContainer_vouches ih
        (World.Ways.keeping_resets (Interpreter.withstands_inStep c id) hne)

end Call

/-! ### The use of a container -/

namespace World

variable {c : ContainerRef} {id : String} {start world later : World}

/-- One thing that happens while the interpreter at `c` is used. -/
inductive Turns (c : ContainerRef) (id : String) : World → World → Prop
  /-- Whatever leaves the container alone. -/
  | elsewhere {world later : World} (h : later.container? c = world.container? c) :
      Turns c id world later
  /-- The id is removed by the container itself, if it is removed. -/
  | register {world : World} {op : Registration} (hop : op = .remove id ∨ op.Abides id) :
      Turns c id world (world.register c op).2
  /-- A reset leaves the id uncached, if there is one. -/
  | answer {world later : World} {request : Request} {reply : request.Reply} {depth : Nat}
      (hanswer : request.perform (Call.settling c id depth) world = (.ok reply, later)) :
      Turns c id world later

theorem Turns.inStep (h : Turns c id world later)
    (hstep : Hosts (Interpreter.InStep id) c world) : Hosts (Interpreter.InStep id) c later := by
  cases h with
  | elsewhere hsame => exact hstep.of_eq hsame
  | register hop =>
      obtain ⟨container, hat, hcontainer⟩ := hstep
      exact ⟨_, container?_register hat _, hcontainer.after world.store hop⟩
  | answer hanswer =>
      obtain ⟨-, -, hkept⟩ := Request.perform_of_vouches (Call.settling_vouches c id _) hanswer
      exact hkept hstep

/-- **Just what is cached is refused.** An interpreter in which an id is in step is used in any way.
Whoever then sets its definition, by autowiring too, or changes or decorates it, is told of a
conflict with what is frozen, and that it is with this id, just if a service of the id is cached. -/
theorem conflicts_exact (hstart : Hosts (Interpreter.InStep id) c start)
    (course : Relation.ReflTransGen (Turns c id) start world) :
    ∃ container : Interpreter, world.container? c = some (.interpreting container) ∧
      ∀ op, container.target? op = some id → ∀ other,
        (world.register c op).1 = .error (.frozenConflict other) ↔
          other = id ∧ container.services.contains id = true := by
  have hstep : Hosts (Interpreter.InStep id) c world := by
    induction course with
    | refl => exact hstart
    | tail _ hturns ih => exact hturns.inStep ih
  obtain ⟨container, hat, hcontainer⟩ := hstep
  refine ⟨container, hat, fun op htarget other => ?_⟩
  rw [register, hat]
  exact hcontainer.conflict_iff htarget world.store

/-- The services of `gotten` are released. -/
def released : World := ((Request.reset ⟨0⟩).perform (Call.run 2) gotten).2

/-- What was asked for cannot be set, and after a reset it can. -/
theorem conflicts_exact_released :
    (gotten.register ⟨0⟩ (.set "a" (.ofValue (.int 2)))).1 = .error (.frozenConflict "a") ∧
      ∀ other, (released.register ⟨0⟩ (.set "a" (.ofValue (.int 2)))).1 ≠
        .error (.frozenConflict other) := by
  have hstart : Hosts (Interpreter.InStep "a") ⟨0⟩ blank :=
    ⟨.ofRegistry ∅ {} .journal, rfl, Interpreter.inStep_ofRegistry rfl {} .journal⟩
  have hset : Turns ⟨0⟩ "a" blank (blank.register ⟨0⟩ (.set "a" (.ofValue (.int 1)))).2 :=
    .register (.inr (Registration.abides_of_single trivial nofun nofun nofun))
  have hget : (Request.get ⟨0⟩ "a" {}).perform (Call.settling ⟨0⟩ "a" 2)
      (blank.register ⟨0⟩ (.set "a" (.ofValue (.int 1)))).2 = (.ok (.ok (.int 1)), gotten) := rfl
  have hreset : (Request.reset ⟨0⟩).perform (Call.settling ⟨0⟩ "a" 2) gotten =
      (.ok (), released) := rfl
  have hgotten := Relation.ReflTransGen.tail (.single hset) (.answer hget)
  obtain ⟨held, hheld, hrefuses⟩ := conflicts_exact hstart hgotten
  obtain ⟨cleared, hcleared, hallows⟩ := conflicts_exact hstart (hgotten.tail (.answer hreset))
  have hholds : Hosts (fun container => container.services.contains "a" = true) ⟨0⟩ gotten :=
    ⟨_, rfl, rfl⟩
  have hlacks : Hosts (fun container => container.services.contains "a" = false) ⟨0⟩ released :=
    ⟨_, rfl, rfl⟩
  refine ⟨(hrefuses _ rfl _).mpr ⟨rfl, hholds.at hheld⟩, fun other hrefused => ?_⟩
  obtain ⟨-, hcached⟩ := (hallows _ rfl _).mp hrefused
  rw [hlacks.at hcleared] at hcached
  cases hcached

/-- Another container is made of what the one of `gotten` has registered. -/
def copied : World :=
  match gotten.container? ⟨0⟩ with
  | some (.interpreting container) =>
      (gotten.add (.interpreting (.ofRegistry container.registry {} .journal))).2
  | _ => gotten

/-- The container refuses a new definition of the id just if a service of it is cached. -/
def Refuses (c : ContainerRef) (id : String) (world : World) : Prop :=
  (world.register c (.set id (.ofValue (.int 2)))).1 = .error (.frozenConflict id) ↔
    (world.container? c).any (Container.holds id) = true

/-- **Frozen and cached ids are parted** in a container that is made of what another one has
registered, where the ids that the other one has cached stay frozen; and by a teardown that asks for
a service before a reset has unfrozen all ids. -/
theorem ids_parted : ¬ copied.Refuses ⟨1⟩ "a" ∧ ¬ disturbed.Refuses ⟨0⟩ "a" := by
  have hcopied : (copied.register ⟨1⟩ (.set "a" (.ofValue (.int 2)))).1 =
      .error (.frozenConflict "a") := rfl
  have haccepted : (disturbed.register ⟨0⟩ (.set "a" (.ofValue (.int 2)))).1 = .ok () := by decide +kernel
  have hcached : (disturbed.container? ⟨0⟩).any (Container.holds "a") = true := by decide +kernel
  refine ⟨fun h => absurd (h.mp hcopied) (by decide), fun h => ?_⟩
  have hrefused := h.mpr hcached
  rw [haccepted] at hrefused
  cases hrefused

end World
end Wiring
