import Wiring.Proofs.Gains
import Wiring.Proofs.Isolation

/-!
# What a reset tears down

A reset takes everything out of the caches and then goes through what was there. What it tears down
are services, not instances: an instance that is cached under several ids is torn down for each of
them. A teardown may do anything, also ask the container for a service, which is then cached again;
but nothing that happens meanwhile changes what else is torn down.
-/

namespace Wiring

open Run

/-- The instances among the services whose classes declare how to tear them down. -/
def Catalog.disposable (catalog : Catalog) (services : List Value) : List ObjectRef :=
  (services.filterMap Value.object?).filter fun o => (catalog.teardown? o).isSome

/-! ### Where an instance is cached -/

namespace Container

variable {container : Container} {o : ObjectRef}

def placesIn (table : CacheTable) (o : ObjectRef) (entries : List (String × Value)) :
    List (CacheTable × String) :=
  (entries.filter fun entry => entry.2.object? = some o).map fun entry => (table, entry.1)

/-- The places at which the instance is cached: in which of the caches and under which id. -/
def places (o : ObjectRef) : Container → List (CacheTable × String)
  | .interpreting c => placesIn .services o c.services.entries
  | .running c => placesIn .services o c.services.entries ++ placesIn .privates o c.privates.entries

theorem mem_placesIn_iff {table place : CacheTable} {id : String}
    {entries : List (String × Value)} :
    (place, id) ∈ placesIn table o entries ↔ place = table ∧ (id, .object o) ∈ entries := by
  unfold placesIn
  rw [List.mem_map]
  constructor
  · rintro ⟨⟨other, value⟩, hentry, hplace⟩
    obtain ⟨hmem, hobject⟩ := List.mem_filter.mp hentry
    cases hplace
    cases value with
    | object found =>
        obtain rfl : found = o := by simpa [Value.object?] using hobject
        exact ⟨rfl, hmem⟩
    | _ => simp [Value.object?] at hobject
  · rintro ⟨rfl, hmem⟩
    exact ⟨_, List.mem_filter.mpr ⟨hmem, by simp [Value.object?]⟩, rfl⟩

theorem mem_places_iff {table : CacheTable} {id : String} :
    (table, id) ∈ container.places o ↔ container.held? table id = some (.object o) := by
  cases container with
  | interpreting interpreter =>
      rw [places, mem_placesIn_iff, Table.mem_entries_iff]
      cases table <;> simp [held?]
  | running machine =>
      rw [places, List.mem_append, mem_placesIn_iff, mem_placesIn_iff, Dict.mem_entries_iff,
        Dict.mem_entries_iff]
      cases table <;> simp [held?, Machine.table]

theorem nodup_placesIn {entries : List (String × Value)} (hdistinct : Entries.Distinct entries)
    (table : CacheTable) (o : ObjectRef) : (placesIn table o entries).Nodup := by
  have hkeys : ((entries.filter fun entry => entry.2.object? = some o).map Prod.fst).Nodup :=
    (List.filter_sublist.map Prod.fst).nodup hdistinct
  have hplaces : placesIn table o entries =
      ((entries.filter fun entry => entry.2.object? = some o).map Prod.fst).map (table, ·) := by
    rw [List.map_map]
    rfl
  rw [hplaces]
  exact hkeys.map fun _ _ h => (Prod.mk.inj h).2

theorem nodup_places (container : Container) (o : ObjectRef) : (container.places o).Nodup := by
  cases container with
  | interpreting interpreter => exact nodup_placesIn interpreter.services.distinct .services o
  | running machine =>
      refine List.nodup_append.mpr
        ⟨nodup_placesIn (Dict.ascending _).distinct .services o,
          nodup_placesIn (Dict.ascending _).distinct .privates o, ?_⟩
      rintro ⟨table, id⟩ hmem ⟨other, id'⟩ hmem' hsame
      rw [mem_placesIn_iff] at hmem hmem'
      obtain ⟨rfl, rfl⟩ := Prod.mk.inj hsame
      cases hmem.1.symm.trans hmem'.1

theorem length_placesIn (table : CacheTable) (o : ObjectRef) (entries : List (String × Value)) :
    (placesIn table o entries).length =
      ((entries.map Prod.snd).filterMap Value.object?).count o := by
  unfold placesIn
  rw [List.length_map]
  induction entries with
  | nil => rfl
  | cons entry rest ih =>
      rw [List.filter_cons, List.map_cons, List.filterMap_cons]
      cases hobject : entry.2.object? with
      | none => simpa using ih
      | some found =>
          by_cases hfound : found = o
          · simpa [hfound] using ih
          · simpa [hfound] using ih

/-- The instances that are cached, each as often as it is. -/
def instances (container : Container) : List ObjectRef := container.cached.filterMap Value.object?

theorem count_instances (container : Container) (o : ObjectRef) :
    container.instances.count o = (container.places o).length := by
  cases container with
  | interpreting interpreter => exact (length_placesIn .services o _).symm
  | running machine =>
      rw [places, List.length_append, length_placesIn, length_placesIn, instances, cached,
        List.map_append, List.filterMap_append, List.count_append]

/-- What a reset tears down: the cached instances whose classes declare how. -/
def disposed (container : Container) : List ObjectRef :=
  container.catalog.disposable container.cached

theorem count_disposed (container : Container) (o : ObjectRef) :
    container.disposed.count o =
      if (container.catalog.teardown? o).isSome then (container.places o).length else 0 := by
  split
  · next hdeclared =>
      have hkept : container.disposed.count o = container.instances.count o :=
        List.count_filter hdeclared
      exact hkept.trans (container.count_instances o)
  · next hundeclared =>
      refine List.count_eq_zero_of_not_mem fun hmem => hundeclared ?_
      exact (List.mem_filter.mp hmem).2

end Container

/-! ### Teardowns one after the other -/

/-- A teardown that was run, and the worlds before and after it. -/
structure Disposal where
  object : ObjectRef
  before : World
  after : World

/-- Instances are torn down one after the other. Teardowns may fail, but each of them comes to an
end. -/
inductive World.TearsDown (recur : Caller) (catalog : Catalog) :
    World → List Disposal → World → Prop
  | done (world : World) : TearsDown recur catalog world [] world
  | next {world between later : World} {o : ObjectRef} {teardown : Behaviour Unit}
      {result : Except Halt Unit} {rest : List Disposal}
      (hdeclared : catalog.teardown? o = some teardown)
      (hrun : teardown.run recur world = (result, between)) (hends : result ≠ .error .unfinished)
      (hrest : TearsDown recur catalog between rest later) :
      TearsDown recur catalog world (⟨o, world, between⟩ :: rest) later

/-- One more teardown would not come to an end. -/
def World.Stalls (recur : Caller) (catalog : Catalog) (world : World) : Prop :=
  ∃ o teardown, catalog.teardown? o = some teardown ∧
    (teardown.run recur world).1 = .error .unfinished

section Disposals

variable {world later : World} {recur : Caller} {catalog : Catalog} {torn : List Disposal}
  {c : ContainerRef}

namespace Catalog

theorem disposable_cons_undeclared {service : Value}
    (hundeclared : service.object?.bind catalog.teardown? = none) (rest : List Value) :
    catalog.disposable (service :: rest) = catalog.disposable rest := by
  unfold disposable
  cases hobject : service.object? with
  | none => rw [List.filterMap_cons_none hobject]
  | some o =>
      rw [hobject, Option.bind_some] at hundeclared
      rw [List.filterMap_cons_some hobject, List.filter_cons_of_neg (by simp [hundeclared])]

theorem disposable_cons_declared {service : Value} {o : ObjectRef}
    (hobject : service.object? = some o) (hdeclared : (catalog.teardown? o).isSome)
    (rest : List Value) :
    catalog.disposable (service :: rest) = o :: catalog.disposable rest := by
  unfold disposable
  rw [List.filterMap_cons_some hobject]
  exact List.filter_cons_of_pos hdeclared

end Catalog

namespace Call

theorem tearDown_undeclared {service : Value}
    (hundeclared : service.object?.bind catalog.teardown? = none) :
    tearDown recur catalog service world = (.ok (), world) := by
  rw [tearDown, hundeclared]
  rfl

theorem tearDown_declared {service : Value} {teardown : Behaviour Unit}
    (hdeclared : service.object?.bind catalog.teardown? = some teardown)
    {result : Except Halt Unit} (hrun : teardown.run recur world = (result, later))
    (hends : result ≠ .error .unfinished) :
    tearDown recur catalog service world = (.ok (), later) := by
  rw [tearDown, hdeclared]
  rcases result with (error | _) | _
  · exact bind_of_ok (outcome_of_error hrun) _
  · exact absurd rfl hends
  · exact bind_of_ok (outcome_of_ok hrun) _

theorem tearDown_stalled {service : Value} {teardown : Behaviour Unit}
    (hdeclared : service.object?.bind catalog.teardown? = some teardown)
    (hrun : teardown.run recur world = (.error .unfinished, later)) :
    tearDown recur catalog service world = (.error .unfinished, later) := by
  rw [tearDown, hdeclared]
  exact bind_of_error (outcome_of_unfinished hrun) _

/-- **All services** are gone through, unless a teardown does not come to an end. -/
theorem forM_tearDown (recur : Caller) (catalog : Catalog) (services : List Value) (world : World) :
    ∃ torn later, world.TearsDown recur catalog torn later ∧
      (services.forM (tearDown recur catalog) world = (.ok (), later) ∧
          torn.map Disposal.object = catalog.disposable services ∨
        (services.forM (tearDown recur catalog) world).1 = .error .unfinished ∧
          later.Stalls recur catalog) := by
  induction services generalizing world with
  | nil => exact ⟨[], world, .done world, .inl ⟨rfl, rfl⟩⟩
  | cons service rest ih =>
      have hforM : ∀ world, (service :: rest).forM (tearDown recur catalog) world =
          (tearDown recur catalog service >>= fun _ => rest.forM (tearDown recur catalog)) world :=
        fun _ => rfl
      cases hdeclared : service.object?.bind catalog.teardown? with
      | none =>
          obtain ⟨torn, later, htears, hcases⟩ := ih world
          refine ⟨torn, later, htears, ?_⟩
          rw [hforM, bind_of_ok (tearDown_undeclared hdeclared),
            catalog.disposable_cons_undeclared hdeclared]
          exact hcases
      | some teardown =>
          obtain ⟨o, hobject, hteardown⟩ := Option.bind_eq_some_iff.mp hdeclared
          rcases hrun : teardown.run recur world with ⟨result, between⟩
          by_cases hends : result = .error .unfinished
          · subst hends
            refine ⟨[], world, .done world, .inr ⟨?_, o, teardown, hteardown, ?_⟩⟩
            · rw [hforM, bind_of_error (tearDown_stalled hdeclared hrun)]
            · rw [hrun]
          · obtain ⟨torn, later, htears, hcases⟩ := ih between
            refine ⟨_, later, .next hteardown hrun hends htears, ?_⟩
            rw [hforM, bind_of_ok (tearDown_declared hdeclared hrun hends), List.map_cons,
              catalog.disposable_cons_declared hobject (by simp [hteardown])]
            exact hcases.imp_left fun ⟨hok, hobjects⟩ => ⟨hok, congrArg _ hobjects⟩

end Call

/-- Whatever teardowns do, containers stay what they are at the base. -/
theorem World.TearsDown.leads {depth : Nat} (h : world.TearsDown (Call.run depth) catalog torn later) :
    World.Leads (fun _ _ => True) world later := by
  induction h with
  | done world => exact .refl world
  | @next world _ _ _ teardown _ _ _ hrun hends _ ih =>
      rcases Behaviour.run_holds (C := Run.vouching (.tracing fun _ _ => True))
        (Call.run_traced depth) teardown world with hgiven | ⟨-, hleads⟩
      · rw [hrun] at hgiven
        exact absurd hgiven hends
      · rw [hrun] at hleads
        exact World.Leads.trans hleads ih

/-- Nothing is cached in the container at `c`. -/
def World.CachesNothing (world : World) (c : ContainerRef) : Prop :=
  ∀ container, world.container? c = some container → container.cached = []

theorem World.TearsDown.cachesNothing (h : world.TearsDown recur catalog torn later)
    (hrefrain : ∀ disposal ∈ torn,
      disposal.before.CachesNothing c → disposal.after.CachesNothing c)
    (hempty : world.CachesNothing c) : later.CachesNothing c := by
  induction h with
  | done world => exact hempty
  | next _ _ _ _ ih =>
      exact ih (fun disposal hmem => hrefrain disposal (List.mem_cons_of_mem _ hmem))
        (hrefrain _ List.mem_cons_self hempty)

/-- What was torn down was declared to be. -/
theorem World.TearsDown.declared (h : world.TearsDown recur catalog torn later) {disposal : Disposal}
    (hmem : disposal ∈ torn) : ∃ teardown, catalog.teardown? disposal.object = some teardown ∧
      (teardown.run recur disposal.before).2 = disposal.after := by
  induction h with
  | done world => cases hmem
  | next hdeclared hrun _ _ ih =>
      rcases List.mem_cons.mp hmem with rfl | hrest
      · exact ⟨_, hdeclared, congrArg Prod.snd hrun⟩
      · exact ih hrest

end Disposals

/-! ### Resets -/

namespace Call

variable {world : World} {c : ContainerRef} {container : Container}

/-- The caches are emptied, what was there is torn down, and then what is left of the runtime state
goes too. -/
theorem reset_cases (hat : world.container? c = some container) (depth : Nat) :
    ∃ torn later,
      (world.put c container.clearCache).TearsDown (run depth) container.catalog torn later ∧
      ((∃ now, later.container? c = some now ∧
          run (depth + 1) (.reset c) world = (.ok .null, later.put c now.clearRuntimeState) ∧
          torn.map Disposal.object = container.disposed) ∨
        (run (depth + 1) (.reset c) world).1 = .error .unfinished ∧
          later.Stalls (run depth) container.catalog) := by
  have hself := World.container?_put_self world c container.clearCache container hat
  have hreset : run (depth + 1) (.reset c) world = (do
      container.cached.forM (tearDown (run depth) container.catalog)
      Run.changeContainer c Container.clearRuntimeState
      return .null : Run Value) (world.put c container.clearCache) := by
    change (resetContainer (run depth) c >>= fun _ => pure Value.null) world = _
    rw [bind_apply, show resetContainer (run depth) c world = _ from resetThen_apply hat _ _,
      ← bind_apply, bind_assoc]
  obtain ⟨torn, later, htears, ⟨hok, hobjects⟩ | ⟨hgiven, hstalls⟩⟩ :=
    forM_tearDown (run depth) container.catalog container.cached (world.put c container.clearCache)
  · obtain ⟨makings, htrace⟩ := htears.leads
    have hbase := htrace.base_eq c
    rw [hself] at hbase
    obtain ⟨now, hnow, -⟩ := Option.map_eq_some_iff.mp hbase
    refine ⟨torn, later, htears, .inl ⟨now, hnow, ?_, hobjects⟩⟩
    rw [hreset, bind_of_ok hok, bind_of_ok (changeContainer_apply hnow _)]
    rfl
  · refine ⟨torn, later, htears, .inr ⟨?_, hstalls⟩⟩
    rw [hreset]
    rcases hrun : container.cached.forM (tearDown (run depth) container.catalog)
      (world.put c container.clearCache) with ⟨result, between⟩
    rw [hrun] at hgiven
    dsimp only at hgiven
    subst hgiven
    rw [bind_of_error hrun]

theorem cachesNothing_put {b : Container} (hat : world.container? c = some container)
    (hempty : b.cached = []) : (world.put c b).CachesNothing c := by
  intro found hfound
  obtain rfl := Option.some.inj ((World.container?_put_self world c b _ hat).symm.trans hfound)
  exact hempty

/-- What is cached at the end of a reset was cached during a teardown. -/
theorem reset_empties {recur : Caller} {torn : List Disposal} {later : World} {now : Container}
    (hat : world.container? c = some container)
    (htears : (world.put c container.clearCache).TearsDown recur container.catalog torn later)
    (hrefrain : ∀ disposal ∈ torn,
      disposal.before.CachesNothing c → disposal.after.CachesNothing c)
    (hnow : later.container? c = some now) :
    (later.put c now.clearRuntimeState).CachesNothing c := by
  have hcleared : container.clearCache.cached = [] := by cases container <;> rfl
  have hlater : now.cached = [] :=
    htears.cachesNothing hrefrain (cachesNothing_put hat hcleared) now hnow
  have hkept : now.clearRuntimeState.cached = now.cached := by cases now <;> rfl
  exact cachesNothing_put hnow (hkept.trans hlater)

/-- **A reset tears down** every instance whose class declares how once for each place at which it
was cached, and nothing else. What teardowns do, and whether they fail, has no influence on that;
but if one does not come to an end, neither does the reset. The cache is empty afterwards unless a
teardown itself had the container cache something. Where teardowns keep to themselves, the reset
ends and leaves the cache empty. -/
theorem reset_tears_down (hat : world.container? c = some container) (depth : Nat) :
    (∀ o, (container.places o).Nodup ∧ ∀ table id, (table, id) ∈ container.places o ↔
      container.held? table id = some (.object o)) ∧
    (∃ torn later,
      (world.put c container.clearCache).TearsDown (run depth) container.catalog torn later ∧
      ((∃ last, run (depth + 1) (.reset c) world = (.ok .null, last) ∧
          (∃ now, later.container? c = some now ∧ last = later.put c now.clearRuntimeState) ∧
          (∀ o, (torn.map Disposal.object).count o =
            if (container.catalog.teardown? o).isSome then (container.places o).length else 0) ∧
          ((∀ disposal ∈ torn,
              disposal.before.CachesNothing c → disposal.after.CachesNothing c) →
            last.CachesNothing c)) ∨
        (run (depth + 1) (.reset c) world).1 = .error .unfinished ∧
          later.Stalls (run depth) container.catalog)) ∧
    ((∀ o teardown, container.catalog.teardown? o = some teardown →
        teardown.Isolated fun _ => True) →
      ∃ last, run (depth + 1) (.reset c) world = (.ok .null, last) ∧ last.CachesNothing c) := by
  obtain ⟨torn, later, htears, hcases⟩ := reset_cases hat depth
  refine ⟨fun o => ⟨container.nodup_places o, fun table id => Container.mem_places_iff⟩,
    ⟨torn, later, htears, ?_⟩, fun hisolated => ?_⟩
  · refine hcases.imp_left fun ⟨now, hnow, hrun, hobjects⟩ =>
      ⟨_, hrun, ⟨now, hnow, rfl⟩, fun o => ?_, fun hrefrain => reset_empties hat htears hrefrain hnow⟩
    rw [hobjects, container.count_disposed]
  · have hruns : ∀ {o teardown}, container.catalog.teardown? o = some teardown →
        ∀ before : World, ∃ (result : Except Error Unit) (store : Store),
          teardown.run (run depth) before = Run.ofExcept result { before with store } := by
      intro o teardown hdeclared before
      obtain ⟨result, store, hrun, -⟩ := (hisolated o teardown hdeclared).run_eq (run depth) before
      exact ⟨result, store, hrun⟩
    rcases hcases with ⟨now, hnow, hrun, -⟩ | ⟨-, o, teardown, hdeclared, hstalled⟩
    · refine ⟨_, hrun, reset_empties hat htears (fun disposal hmem hempty => ?_) hnow⟩
      obtain ⟨teardown, hdeclared, hafter⟩ := htears.declared hmem
      obtain ⟨result, store, hends⟩ := hruns hdeclared disposal.before
      rw [← hafter, hends]
      cases result <;> exact hempty
    · obtain ⟨result, store, hends⟩ := hruns hdeclared later
      rw [hends] at hstalled
      cases result <;> cases hstalled

end Call

namespace World

/-- One object is what two services are defined to be. -/
def pooled : Registry :=
  let spec : ClassSpec := {
    name := "Pool"
    teardown := some fun _ => Behaviour.request (.note (.label "torn")) }
  let classes := Registration.registerClass spec
  let a := Registration.set "a" (.ofValue (.object ⟨0, "Pool"⟩))
  let b := Registration.set "b" (.ofValue (.object ⟨0, "Pool"⟩))
  b.after (a.after (classes.after ∅ {}) {}) {}

def pooledInterpreting : Container := .interpreting (.ofRegistry pooled {} .silent)

def pooledRunning : Container :=
  .running (.load ((pooled.compile {}).toOption.getD default) pooled.catalog 100 .silent)

/-- The container has been asked for both services. -/
def shared (container : Container) : World :=
  let start : World := .alone (({} : Store).allocate "Pool").2 container
  let used := ((Request.get ⟨0⟩ "a" {}).perform (Call.run 2) start).2
  ((Request.get ⟨0⟩ "b" {}).perform (Call.run 2) used).2

/-- The object is cached at two places, and the reset tears it down for both. -/
theorem reset_tears_down_shared :
    (∃ now torn later, (shared pooledInterpreting).container? ⟨0⟩ = some now ∧
      ((shared pooledInterpreting).put ⟨0⟩ now.clearCache).TearsDown (Call.run 1) now.catalog
        torn later ∧ (torn.map Disposal.object).count ⟨0, "Pool"⟩ = 2) ∧
    ∃ now torn later, (shared pooledRunning).container? ⟨0⟩ = some now ∧
      ((shared pooledRunning).put ⟨0⟩ now.clearCache).TearsDown (Call.run 1) now.catalog
        torn later ∧ (torn.map Disposal.object).count ⟨0, "Pool"⟩ = 2 := by
  have hshared : ∀ {world : World} {now : Container}, world.container? ⟨0⟩ = some now →
      (now.places ⟨0, "Pool"⟩).length = 2 → (now.catalog.teardown? ⟨0, "Pool"⟩).isSome →
      (Call.run 2 (.reset ⟨0⟩) world).1 = .ok .null →
      ∃ now torn later, world.container? ⟨0⟩ = some now ∧
        (world.put ⟨0⟩ now.clearCache).TearsDown (Call.run 1) now.catalog torn later ∧
          (torn.map Disposal.object).count ⟨0, "Pool"⟩ = 2 := by
    intro world now hat hplaces hdeclared hends
    obtain ⟨-, ⟨torn, later, htears, ⟨-, -, -, hcount, -⟩ | ⟨hgiven, -⟩⟩, -⟩ :=
      Call.reset_tears_down hat 1
    · refine ⟨now, torn, later, hat, htears, ?_⟩
      rw [hcount, if_pos hdeclared, hplaces]
    · rw [hends] at hgiven
      cases hgiven
  exact ⟨hshared rfl rfl rfl rfl, hshared rfl rfl rfl rfl⟩

/-- The object is cached under `a` and under `b`, and one reset tears it down twice. -/
def TornTwice (container : Container) : Prop :=
  (shared container).cached? ⟨0⟩ "a" = some (.object ⟨0, "Pool"⟩) ∧
    (shared container).cached? ⟨0⟩ "b" = some (.object ⟨0, "Pool"⟩) ∧
    (shared container).store.journal = #[] ∧
    ((Request.reset ⟨0⟩).perform (Call.run 2) (shared container)).2.store.journal =
      #[.noted (.label "torn"), .noted (.label "torn")]

/-- **An instance may be torn down twice** by one reset, in either kind of container. -/
theorem instance_torn_twice : TornTwice pooledInterpreting ∧ TornTwice pooledRunning :=
  ⟨⟨rfl, rfl, rfl, rfl⟩, rfl, rfl, rfl, rfl⟩

end World

end Wiring
