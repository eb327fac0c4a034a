import Wiring.Proofs.Matching
import Wiring.Proofs.Reading

/-!
# Worlds grow

While nothing is reset, a world only gains: services that are cached stay cached, handles that have a
value keep it, and apart from what is under construction containers stay what they are. Between the
beginning and the end of a call more holds: what was under construction is so again, and none of it
was cached meanwhile.
-/

namespace Wiring

/-! ### Containers -/

namespace Container

/-- The container has lost nothing. -/
structure Retains (a b : Container) : Prop where
  bare : b.bare = a.bare
  kept : ∀ {id : String} {service : Value}, a.cached? id = some service → b.cached? id = some service
  tidy : a.Tidy → b.Tidy

/-- Between the beginning and the end of a call. -/
structure Grows (a b : Container) : Prop extends a.Retains b where
  loading : b.loading = a.loading
  fresh : ∀ {id : String}, id ∈ a.loading → b.cached? id = a.cached? id

variable {a b d : Container}

theorem Retains.refl (a : Container) : a.Retains a := ⟨rfl, fun h => h, fun h => h⟩

theorem Retains.trans (h : a.Retains b) (h' : b.Retains d) : a.Retains d where
  bare := h'.bare.trans h.bare
  kept hcached := h'.kept (h.kept hcached)
  tidy htidy := h'.tidy (h.tidy htidy)

theorem Grows.refl (a : Container) : a.Grows a := ⟨.refl a, rfl, fun _ => rfl⟩

theorem Grows.trans (h : a.Grows b) (h' : b.Grows d) : a.Grows d where
  toRetains := h.toRetains.trans h'.toRetains
  loading := h'.loading.trans h.loading
  fresh hid := (h'.fresh (h.loading ▸ hid)).trans (h.fresh hid)

theorem retains_setLoading (container : Container) (chain : List String) :
    container.Retains (container.setLoading chain) where
  bare := bare_setLoading container chain
  kept hcached := (cached?_setLoading container chain _).trans hcached
  tidy htidy id hheld := by
    rw [holds_setLoading] at hheld
    rw [cached?_setLoading]
    exact htidy id hheld

/-- A new service takes nobody's place. -/
theorem retains_storing {container : Container} {id : String} (hdefined : container.defines id)
    (hshared : container.isFactory id = false) (hnew : container.cached? id = none)
    (service : Value) : container.Retains (container.storing id service container) where
  bare := bare_storing container id service
  kept {other held} hcached := by
    have hother : other ≠ id := by
      rintro rfl
      rw [hnew] at hcached
      cases hcached
    rw [cached?_storing hdefined hshared, if_neg hother]
    exact hcached
  tidy htidy := htidy.storing hdefined hshared service

end Container

/-! ### Stores and worlds -/

/-- Handles keep their values. -/
structure Store.Retains (store later : Store) : Prop where
  code : later.code = store.code
  cells : store.cells.size ≤ later.cells.size
  kept : ∀ {l : LazyRef} {service : Value}, (store.cell l).value = some service →
    (later.cell l).value = some service

theorem Store.Retains.refl (store : Store) : store.Retains store :=
  ⟨rfl, Nat.le_refl _, fun h => h⟩

theorem Store.Retains.trans {store later last : Store} (h : store.Retains later)
    (h' : later.Retains last) : store.Retains last :=
  ⟨h'.code.trans h.code, h.cells.trans h'.cells, fun hkept => h'.kept (h.kept hkept)⟩

/-- What has nothing to do with handles takes nothing from them. -/
theorem Store.Retains.of_cells {store later : Store} (hcode : later.code = store.code)
    (hcells : later.cells = store.cells) : store.Retains later where
  code := hcode
  cells := by rw [hcells]
  kept hkept := by
    rw [Store.cell, hcells]
    exact hkept

theorem Store.retains_addHandle (store : Store) (target : String) (home : Option ContainerRef) :
    store.Retains (store.addHandle target home).2 where
  code := rfl
  cells := by
    change store.cells.size ≤ (store.cells.push _).size
    rw [Array.size_push]
    exact Nat.le_succ _
  kept {l service} hkept := by
    have hinside : l.address < store.cells.size := by
      by_contra houtside
      rw [Store.cell, Array.getElem?_eq_none (Nat.not_lt.mp houtside)] at hkept
      cases hkept
    change ((((store.cells.push _)[l.address]?).getD {}) : LazyCell).value = some service
    rw [Array.getElem?_push_lt hinside, ← Array.getElem?_eq_getElem hinside]
    exact hkept

theorem Store.cell_modify {store : Store} {l other : LazyRef} (value : Value) :
    (({ store with
        cells := store.cells.modify l.address ({ · with value := some value }) } : Store).cell
      other).value =
      if other.address = l.address ∧ l.address < store.cells.size then some value
      else (store.cell other).value := by
  unfold Store.cell
  dsimp only
  rw [Array.getElem?_modify]
  by_cases hsame : l.address = other.address
  · rw [if_pos hsame]
    rcases Nat.lt_or_ge l.address store.cells.size with hinside | houtside
    · rw [if_pos ⟨hsame.symm, hinside⟩, ← hsame, Array.getElem?_eq_getElem hinside]
      rfl
    · rw [if_neg fun h => absurd h.2 (Nat.not_lt.mpr houtside), ← hsame,
        Array.getElem?_eq_none houtside]
      rfl
  · rw [if_neg hsame, if_neg fun h => hsame h.1.symm]

theorem Store.retains_settle (store : Store) (l : LazyRef) (value : Value) :
    store.Retains (store.settle l value).2 := by
  unfold Store.settle
  cases hheld : (store.cell l).value with
  | some held => exact .refl store
  | none =>
      refine ⟨rfl, ?_, fun {other service} hkept => ?_⟩
      · change store.cells.size ≤ (store.cells.modify _ _).size
        rw [Array.size_modify]
      · dsimp only
        rw [cell_modify, if_neg, hkept]
        rintro ⟨hsame, -⟩
        have hcell : store.cell other = store.cell l := by
          unfold Store.cell
          rw [hsame]
        rw [hcell, hheld] at hkept
        cases hkept

/-- A handle that is settled has the value that it gives. -/
theorem Store.cell_settle {store : Store} {l : LazyRef} (hinside : l.address < store.cells.size)
    (value : Value) :
    ((store.settle l value).2.cell l).value = some (store.settle l value).1 := by
  unfold Store.settle
  cases hheld : (store.cell l).value with
  | some held => exact hheld
  | none =>
      dsimp only
      rw [cell_modify, if_pos ⟨rfl, hinside⟩]

theorem Store.lt_of_home {store : Store} {l : LazyRef} {c : ContainerRef}
    (hhome : (store.cell l).home = some c) : l.address < store.cells.size := by
  by_contra houtside
  rw [Store.cell, Array.getElem?_eq_none (Nat.not_lt.mp houtside)] at hhome
  cases hhome

namespace World

structure Retains (world later : World) : Prop where
  containers : ∀ c, Option.Rel Container.Retains (world.container? c) (later.container? c)
  store : world.store.Retains later.store

structure Grows (world later : World) : Prop where
  containers : ∀ c, Option.Rel Container.Grows (world.container? c) (later.container? c)
  store : world.store.Retains later.store

variable {world later last : World}

theorem rel_trans {S : Container → Container → Prop}
    (htrans : ∀ a b d, S a b → S b d → S a d) {x y z : Option Container}
    (h : Option.Rel S x y) (h' : Option.Rel S y z) : Option.Rel S x z := by
  cases h with
  | none => exact h'
  | some hfirst =>
      cases h' with
      | some hsecond => exact .some (htrans _ _ _ hfirst hsecond)

theorem rel_refl {S : Container → Container → Prop} (hrefl : ∀ a, S a a) (x : Option Container) :
    Option.Rel S x x := by
  cases x with
  | none => exact .none
  | some a => exact .some (hrefl a)

theorem Retains.refl (world : World) : world.Retains world :=
  ⟨fun _ => rel_refl Container.Retains.refl _, .refl _⟩

theorem Retains.trans (h : world.Retains later) (h' : later.Retains last) : world.Retains last :=
  ⟨fun c => rel_trans (S := Container.Retains) (fun _ _ _ => .trans) (h.containers c) (h'.containers c),
    h.store.trans h'.store⟩

theorem Grows.refl (world : World) : world.Grows world :=
  ⟨fun _ => rel_refl Container.Grows.refl _, .refl _⟩

theorem Grows.trans (h : world.Grows later) (h' : later.Grows last) : world.Grows last :=
  ⟨fun c => rel_trans (S := Container.Grows) (fun _ _ _ => .trans) (h.containers c) (h'.containers c),
    h.store.trans h'.store⟩

theorem Grows.retains (h : world.Grows later) : world.Retains later := by
  refine ⟨fun c => ?_, h.store⟩
  have hrel := h.containers c
  generalize world.container? c = x, later.container? c = y at hrel
  cases hrel with
  | none => exact .none
  | some hgrows => exact .some hgrows.toRetains

theorem Retains.container (h : world.Retains later) {c : ContainerRef} {a : Container}
    (hat : world.container? c = some a) : ∃ b, later.container? c = some b ∧ a.Retains b := by
  have hrel := h.containers c
  rw [hat] at hrel
  generalize later.container? c = y at hrel
  cases hrel with
  | some hretains => exact ⟨_, rfl, hretains⟩

theorem Grows.container (h : world.Grows later) {c : ContainerRef} {a : Container}
    (hat : world.container? c = some a) : ∃ b, later.container? c = some b ∧ a.Grows b := by
  have hrel := h.containers c
  rw [hat] at hrel
  generalize later.container? c = y at hrel
  cases hrel with
  | some hgrows => exact ⟨_, rfl, hgrows⟩

theorem Grows.of_store {store : Store} (h : world.store.Retains store) :
    world.Grows { world with store } :=
  ⟨fun _ => rel_refl Container.Grows.refl _, h⟩

theorem retains_put {c : ContainerRef} {a b : Container} (hat : world.container? c = some a)
    (h : a.Retains b) : world.Retains (world.put c b) where
  containers d := by
    rw [container?_put hat]
    split
    · next hsame =>
        rw [hsame, hat]
        exact .some h
    · exact rel_refl Container.Retains.refl _
  store := .refl _

end World

/-! ### What does not call -/

namespace Run

variable {α : Type}

/-- From any world the run lets it grow. -/
def Grows (act : Run α) : Prop := ∀ world : World, world.Grows (act world).2

theorem grows_onStore {f : Store → α × Store} (h : ∀ store : Store, store.Retains (f store).2) :
    Grows (onStore f) := fun world => World.Grows.of_store (h world.store)

theorem grows_changeStore {f : Store → Store} (h : ∀ store : Store, store.Retains (f store)) :
    Grows (changeStore f) := fun world => World.Grows.of_store (h world.store)

theorem grows_read (f : World → α) : Grows (do return f (← Run.world)) :=
  fun world => World.Grows.refl world

/-- At most the journal changes. -/
theorem announce_apply {world : World} {c : ContainerRef} {container : Container}
    (hat : world.container? c = some container) (id : String) (notice : Option Deprecation) :
    ∃ store, announce c id notice world = (.ok (), { world with store }) ∧
      (store = world.store ∨ ∃ event, store = world.store.record event) := by
  unfold announce
  rw [bind_of_ok (container_apply hat)]
  generalize container.handler = handler
  cases notice with
  | none => exact ⟨world.store, rfl, .inl rfl⟩
  | some notice =>
      cases handler with
      | journal => exact ⟨_, rfl, .inr ⟨.deprecated id notice, rfl⟩⟩
      | silent => exact ⟨world.store, rfl, .inl rfl⟩

end Run

/-! ### A service is made -/

namespace Container

/-- The container after a service was made: it may be cached now. -/
def kept (id : String) (options : ResolveOptions) (service : Value) (container : Container) :
    Container :=
  if !container.isFactory id && !options.ignoreFreezing then container.storing id service container
  else container

theorem keep_apply {world : World} {c : ContainerRef} {container b : Container}
    (hat : world.container? c = some b) (hbare : b.bare = container.bare) (id : String)
    (options : ResolveOptions) (service : Value) :
    ∃ later, container.keep c id options service world = (.ok service, later) ∧
      later.store = world.store ∧
      ∀ d, later.container? d =
        if d = c then some (b.kept id options service) else world.container? d := by
  have hread : ∀ d, world.container? d = if d = c then some b else world.container? d := by
    intro d
    split
    · next hsame => rw [hsame, hat]
    · rfl
  rw [keep, kept, isFactory_of_bare hbare]
  split
  · rw [Run.bind_of_ok (Run.changeContainer_apply hat _), storing_of_bare hbare.symm]
    exact ⟨_, rfl, rfl, World.container?_put hat _⟩
  · exact ⟨world, rfl, rfl, hread⟩

variable {container : Container} {id : String} {options : ResolveOptions} {service : Value}

theorem kept_stored (hkeep : container.isFactory id = false ∧ options.ignoreFreezing = false) :
    container.kept id options service = container.storing id service container := by
  rw [kept, hkeep.1, hkeep.2]
  rfl

theorem kept_untouched
    (hpass : ¬ (container.isFactory id = false ∧ options.ignoreFreezing = false)) :
    container.kept id options service = container := by
  refine if_neg fun hkeep => hpass ?_
  simpa only [Bool.and_eq_true, Bool.not_eq_true'] using hkeep

theorem loading_kept : (container.kept id options service).loading = container.loading := by
  unfold kept
  split
  · exact loading_storing container id service
  · rfl

theorem retains_kept (hdefined : container.defines id) (hnew : container.cached? id = none) :
    container.Retains (container.kept id options service) := by
  by_cases hkeep : container.isFactory id = false ∧ options.ignoreFreezing = false
  · rw [kept_stored hkeep]
    exact retains_storing hdefined hkeep.1 hnew service
  · rw [kept_untouched hkeep]
    exact .refl container

/-- Only what stands under the id may change, and it does when the service is to be shared. -/
theorem cached?_kept (hdefined : container.defines id) (other : String) :
    (container.kept id options service).cached? other =
      if other = id ∧ container.isFactory id = false ∧ options.ignoreFreezing = false
      then some service else container.cached? other := by
  by_cases hkeep : container.isFactory id = false ∧ options.ignoreFreezing = false
  · simp only [kept_stored hkeep, cached?_storing hdefined hkeep.1, hkeep, and_self, and_true]
  · rw [kept_untouched hkeep, if_neg fun h => hkeep h.2]

end Container

namespace World

/-- When an id is left, the chain is what it was before. -/
theorem grows_cut {world inner : World} {c : ContainerRef} {container b : Container} {id : String}
    (hat : world.container? c = some container)
    (hothers : ∀ d, d ≠ c → Option.Rel Container.Grows (world.container? d) (inner.container? d))
    (hb : inner.container? c = some b) (hretains : container.Retains b)
    (hloading : b.loading = container.loading ++ [id])
    (hfresh : ∀ other ∈ container.loading, b.cached? other = container.cached? other)
    (hstore : world.store.Retains inner.store) :
    world.Grows (Run.cut c container.loading.length inner) where
  containers d := by
    rw [Run.cut_apply hb, hloading, List.take_left, container?_put hb]
    split
    · next hsame =>
        subst hsame
        rw [hat]
        refine .some ⟨hretains.trans (b.retains_setLoading _), b.loading_setLoading _, ?_⟩
        intro other hother
        rw [Container.cached?_setLoading]
        exact hfresh other hother
    · next hother => exact hothers d hother
  store := by
    rw [Run.cut_apply hb]
    exact hstore

/-- While an id is under construction, whatever else is made leaves it uncached. -/
theorem Grows.entered {world inner : World} {c : ContainerRef} {container : Container} {id : String}
    (hat : world.container? c = some container)
    (h : (world.put c (container.setLoading (container.loading ++ [id]))).Grows inner) :
    ∃ b, inner.container? c = some b ∧ container.Retains b ∧
      b.loading = container.loading ++ [id] ∧
      (∀ other ∈ container.loading ++ [id], b.cached? other = container.cached? other) ∧
      ∀ d, d ≠ c → Option.Rel Container.Grows (world.container? d) (inner.container? d) := by
  obtain ⟨b, hb, hgrows⟩ := h.container (container?_put_self world c _ container hat)
  refine ⟨b, hb, ?_, ?_, fun other hother => ?_, fun d hother => ?_⟩
  · exact (container.retains_setLoading _).trans hgrows.toRetains
  · rw [hgrows.loading, Container.loading_setLoading]
  · rw [hgrows.fresh (by rwa [Container.loading_setLoading]), Container.cached?_setLoading]
  · have hrel := h.containers d
    rwa [container?_put hat, if_neg hother] at hrel

theorem grows_failed {world inner : World} {c : ContainerRef} {container : Container} {id : String}
    (hat : world.container? c = some container)
    (h : (world.put c (container.setLoading (container.loading ++ [id]))).Grows inner) :
    world.Grows (Run.cut c container.loading.length inner) := by
  obtain ⟨b, hb, hretains, hloading, hfresh, hothers⟩ := Grows.entered hat h
  refine grows_cut hat hothers hb hretains hloading (fun other hother => ?_) h.store
  exact hfresh other (List.mem_append_left _ hother)

/-- **A new service** is announced and kept, and then its id is left. -/
theorem grows_made {world inner : World} {c : ContainerRef} {container : Container} {id : String}
    (hat : world.container? c = some container) (hdefined : container.defines id)
    (hnew : container.cached? id = none) (hentered : id ∉ container.loading)
    (h : (world.put c (container.setLoading (container.loading ++ [id]))).Grows inner)
    (options : ResolveOptions) (service : Value) :
    ∃ later, (do
        Run.announce c id (container.notice? id)
        container.keep c id options service) inner = (.ok service, later) ∧
      world.Grows (Run.cut c container.loading.length later) ∧
      (container.isFactory id = false → options.ignoreFreezing = false →
        ∃ b, (Run.cut c container.loading.length later).container? c = some b ∧
          b.cached? id = some service) := by
  obtain ⟨b, hb, hretains, hloading, hfresh, hothers⟩ := Grows.entered hat h
  obtain ⟨store, hannounce, hrecorded⟩ := Run.announce_apply hb id (container.notice? id)
  have hstore : inner.store.Retains store := by
    rcases hrecorded with rfl | ⟨event, rfl⟩
    · exact .refl _
    · exact .of_cells rfl rfl
  have hb' : ({ inner with store } : World).container? c = some b := hb
  obtain ⟨later, hkeep, hsame, hcontainers⟩ :=
    Container.keep_apply hb' hretains.bare id options service
  have hdefines : b.defines id := (Container.defines_of_bare hretains.bare id).trans hdefined
  have hlater : later.container? c = some (b.kept id options service) := by
    rw [hcontainers, if_pos rfl]
  have huncached : b.cached? id = none := by
    rw [hfresh id (by simp)]
    exact hnew
  have hchain : (b.kept id options service).loading = container.loading ++ [id] := by
    rw [Container.loading_kept, hloading]
  refine ⟨later, ?_, ?_, fun hshared hoptions => ?_⟩
  · rw [Run.bind_of_ok hannounce, hkeep]
  · refine grows_cut hat (fun d hother => ?_) hlater ?_ hchain (fun other hother => ?_) ?_
    · rw [hcontainers, if_neg hother]
      exact hothers d hother
    · exact hretains.trans (Container.retains_kept hdefines huncached)
    · have hne : other ≠ id := fun hsame => hentered (hsame ▸ hother)
      rw [Container.cached?_kept hdefines, if_neg fun h => hne h.1]
      exact hfresh other (List.mem_append_left _ hother)
    · rw [hsame]
      exact h.store.trans hstore
  · rw [Run.cut_apply hlater]
    refine ⟨_, container?_put_self later c _ _ hlater, ?_⟩
    have hfactory : b.isFactory id = false :=
      (Container.isFactory_of_bare hretains.bare id).trans hshared
    rw [Container.cached?_setLoading, Container.cached?_kept hdefines,
      if_pos ⟨rfl, hfactory, hoptions⟩]

end World
end Wiring
