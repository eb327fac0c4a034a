import Wiring.Proofs.Frozen
import Wiring.Proofs.TracedCalls
import Wiring.Proofs.Watching

/-!
# What queries add

While nothing is reset, the caches of a container only gain entries, and an interpreter freezes the
ids that become cached and no others. What a construction makes of a container is put together of
what happens while its id is in the chain and of the entry that is made last.
-/

namespace Wiring

open Run

/-! ### Containers -/

namespace Container

/-- What stands in one of the caches. -/
def held? (table : CacheTable) (id : String) : Container → Option Value
  | .interpreting c =>
      match table with
      | .services => c.services.get? id
      | .privates => none
  | .running c => (c.table table).get? id

def isInterpreting : Container → Bool
  | .interpreting _ => true
  | .running _ => false

def isFrozen (id : String) : Container → Bool
  | .interpreting c => c.registry.isFrozen id
  | .running _ => false

/-- From `a` to `b` the service of the definition was cached. -/
def Adds (a b : Container) (id : String) : Prop := a.cached? id = none ∧ (b.cached? id).isSome

/-- What is new in the caches are services that were not available before, in empty places, and an
interpreter freezes their ids. -/
structure Fills (a b : Container) : Prop extends a.Retains b where
  entries : ∀ (table : CacheTable) (id : String),
    b.held? table id = a.held? table id ∨ a.held? table id = none ∧ a.Adds b id
  frozen : a.isInterpreting → ∀ id, b.isFrozen id ↔ a.isFrozen id ∨ a.Adds b id

/-- Between the beginning and the end of a call. -/
structure Gains (a b : Container) : Prop extends a.Grows b, a.Fills b

variable {a b d container : Container} {id : String} {options : ResolveOptions} {service : Value}

theorem Adds.trans_iff (h : a.Retains b) (h' : b.Retains d) (id : String) :
    a.Adds d id ↔ a.Adds b id ∨ b.Adds d id := by
  constructor
  · rintro ⟨hnew, hcached⟩
    cases hbetween : b.cached? id with
    | none => exact .inr ⟨hbetween, hcached⟩
    | some held => exact .inl ⟨hnew, by rw [hbetween]; rfl⟩
  · rintro (⟨hnew, hcached⟩ | ⟨hnew, hcached⟩)
    · obtain ⟨held, hheld⟩ := Option.isSome_iff_exists.mp hcached
      exact ⟨hnew, by rw [h'.kept hheld]; rfl⟩
    · refine ⟨?_, hcached⟩
      by_contra hheld
      obtain ⟨held, hheld⟩ := Option.ne_none_iff_exists'.mp hheld
      rw [h.kept hheld] at hnew
      cases hnew

theorem isInterpreting_of_bare (h : b.bare = a.bare) : b.isInterpreting = a.isInterpreting :=
  eq_of_bare (fun container => by cases container <;> rfl) h

theorem not_adds (h : b.cached? id = a.cached? id) : ¬ a.Adds b id := by
  rintro ⟨hnew, hcached⟩
  rw [h, hnew] at hcached
  cases hcached

theorem Fills.trans (h : a.Fills b) (h' : b.Fills d) : a.Fills d where
  toRetains := h.toRetains.trans h'.toRetains
  entries table id := by
    rw [Adds.trans_iff h.toRetains h'.toRetains]
    rcases h.entries table id with hsame | ⟨hempty, hadds⟩
    · rcases h'.entries table id with hsame' | ⟨hempty, hadds⟩
      · exact .inl (hsame'.trans hsame)
      · exact .inr ⟨hsame.symm.trans hempty, .inr hadds⟩
    · exact .inr ⟨hempty, .inl hadds⟩
  frozen hkind id := by
    have hkind' : b.isInterpreting := (isInterpreting_of_bare h.bare).trans hkind
    rw [h'.frozen hkind', h.frozen hkind, or_assoc, ← Adds.trans_iff h.toRetains h'.toRetains]

theorem Gains.trans (h : a.Gains b) (h' : b.Gains d) : a.Gains d where
  toGrows := h.toGrows.trans h'.toGrows
  entries := (h.toFills.trans h'.toFills).entries
  frozen := (h.toFills.trans h'.toFills).frozen

@[simp]
theorem held?_setLoading (container : Container) (chain : List String) (table : CacheTable)
    (id : String) : (container.setLoading chain).held? table id = container.held? table id := by
  cases container <;> rfl

@[simp]
theorem isFrozen_setLoading (container : Container) (chain : List String) (id : String) :
    (container.setLoading chain).isFrozen id = container.isFrozen id := by
  cases container <;> rfl

theorem fills_setLoading (container : Container) (chain : List String) :
    container.Fills (container.setLoading chain) where
  toRetains := container.retains_setLoading chain
  entries table id := .inl (held?_setLoading container chain table id)
  frozen _ id := by
    rw [isFrozen_setLoading, or_iff_left (not_adds (cached?_setLoading container chain id))]

theorem Gains.refl (a : Container) : a.Gains a where
  toGrows := .refl a
  entries _ _ := .inl rfl
  frozen _ id := by rw [or_iff_left (not_adds rfl)]

theorem held?_storing (hdefined : container.defines id) (hshared : container.isFactory id = false)
    (hnew : container.cached? id = none) (service : Value) (table : CacheTable) (other : String) :
    (container.storing id service container).held? table other = container.held? table other ∨
      container.held? table other = none ∧ other = id := by
  cases container with
  | interpreting interpreter =>
      obtain ⟨definition, hfound⟩ : ∃ definition,
          interpreter.registry.definition? id = some definition :=
        Option.isSome_iff_exists.mp hdefined
      rw [isFactory, hfound, Option.any_some] at hshared
      rw [cached?, hfound, Option.bind_some, hshared] at hnew
      cases table with
      | privates => exact .inl rfl
      | services =>
          by_cases hsame : other = id
          · exact .inr ⟨hsame ▸ hnew, hsame⟩
          · refine .inl ?_
            change (interpreter.services.insert id service).get? other = _
            rw [Table.get?_insert, if_neg hsame]
            rfl
  | running machine =>
      obtain ⟨routine, hfound⟩ := Option.isSome_iff_exists.mp hdefined
      have hid : routine.id = id := Machine.id_of_routine? hfound
      rw [isFactory, hfound, Option.any_some] at hshared
      obtain ⟨place, hplace⟩ : ∃ place, routine.cache = some place :=
        Option.isSome_iff_exists.mp (Option.isNone_eq_false_iff.mp hshared)
      rw [cached?, hfound, Option.bind_some, Machine.cached?, hplace, hid] at hnew
      have hempty : (machine.table place).get? id = none := hnew
      rw [storing, hfound, Option.bind_some, hplace]
      change ((machine.cache place id service).table table).get? other =
          (machine.table table).get? other ∨ (machine.table table).get? other = none ∧ other = id
      by_cases hsame : place = table ∧ other = id
      · obtain ⟨rfl, rfl⟩ := hsame
        exact .inr ⟨hempty, rfl⟩
      · refine .inl ?_
        rw [Machine.get?_cache, if_neg fun h => hsame ⟨h.1.symm, h.2⟩]

theorem isFrozen_storing (hkind : container.isInterpreting) (other : String) :
    (container.storing id service container).isFrozen other ↔
      other = id ∨ container.isFrozen other := by
  cases container with
  | running machine => cases hkind
  | interpreting interpreter => exact Interpreter.isFrozen_cache interpreter id service

theorem fills_kept (hdefined : b.defines id) (hnew : b.cached? id = none)
    (options : ResolveOptions) (service : Value) : b.Fills (b.kept id options service) where
  toRetains := retains_kept hdefined hnew
  entries table other := by
    by_cases hkeep : b.isFactory id = false ∧ options.ignoreFreezing = false
    · rw [kept_stored hkeep]
      refine (held?_storing hdefined hkeep.1 hnew service table other).imp_right ?_
      rintro ⟨hempty, rfl⟩
      refine ⟨hempty, hnew, ?_⟩
      rw [cached?_storing hdefined hkeep.1, if_pos rfl]
      rfl
    · rw [kept_untouched hkeep]
      exact .inl rfl
  frozen hkind other := by
    by_cases hkeep : b.isFactory id = false ∧ options.ignoreFreezing = false
    · rw [kept_stored hkeep, Adds, isFrozen_storing hkind, cached?_storing hdefined hkeep.1]
      by_cases hsame : other = id
      · simp [hsame, hnew]
      · simp only [hsame, false_or, if_false]
        exact (or_iff_left (not_adds rfl)).symm
    · rw [kept_untouched hkeep]
      exact (or_iff_left (not_adds rfl)).symm

/-- **A service is made** while its id is under construction, and then it may be cached. -/
theorem Gains.leave (h : (container.setLoading (container.loading ++ [id])).Gains b)
    (hdefined : b.defines id) (hnew : container.cached? id = none)
    (hentered : id ∉ container.loading) (options : ResolveOptions) (service : Value) :
    container.Gains ((b.kept id options service).setLoading container.loading) := by
  have hfresh : ∀ other ∈ container.loading ++ [id], b.cached? other = container.cached? other := by
    intro other hother
    rw [h.fresh (by rwa [loading_setLoading]), cached?_setLoading]
  have huncached : b.cached? id = none := by rw [hfresh id (by simp), hnew]
  have hfills : container.Fills ((b.kept id options service).setLoading container.loading) :=
    (container.fills_setLoading _).trans
      (h.toFills.trans ((fills_kept hdefined huncached options service).trans (fills_setLoading _ _)))
  refine {
    toRetains := hfills.toRetains, entries := hfills.entries, frozen := hfills.frozen
    loading := loading_setLoading _ _, fresh := fun {other} hother => ?_ }
  have hne : other ≠ id := fun hsame => hentered (hsame ▸ hother)
  rw [cached?_setLoading, cached?_kept hdefined, if_neg fun h => hne h.1]
  exact hfresh other (List.mem_append_left _ hother)

end Container

/-! ### Worlds -/

theorem Store.Changes.retains {store later : Store} (h : store.Changes later) :
    store.Retains later := by
  cases h with
  | addHandle target home => exact store.retains_addHandle target home
  | settle l value => exact store.retains_settle l value
  | _ => exact .of_cells rfl rfl

theorem Store.retains_announced (store : Store) (id : String) (notice : Option Deprecation)
    (handler : NoticeHandler) : store.Retains (store.announced id notice handler) := by
  unfold announced
  split
  · exact .of_cells rfl rfl
  · exact .refl store

namespace World

structure Gains (world later : World) : Prop where
  containers : ∀ c, Option.Rel Container.Gains (world.container? c) (later.container? c)
  store : world.store.Retains later.store

variable {world later last inner : World} {c : ContainerRef} {a b : Container} {id : String}

theorem Gains.refl (world : World) : world.Gains world :=
  ⟨fun _ => rel_refl Container.Gains.refl _, .refl _⟩

theorem Gains.trans (h : world.Gains later) (h' : later.Gains last) : world.Gains last :=
  ⟨fun c => rel_trans (S := Container.Gains) (fun _ _ _ => .trans) (h.containers c)
    (h'.containers c), h.store.trans h'.store⟩

theorem Gains.container (h : world.Gains later) (hat : world.container? c = some a) :
    ∃ b, later.container? c = some b ∧ a.Gains b := by
  have hrel := h.containers c
  rw [hat] at hrel
  generalize later.container? c = y at hrel
  cases hrel with
  | some hgains => exact ⟨_, rfl, hgains⟩

theorem Gains.retains (h : world.Gains later) : world.Retains later := by
  refine ⟨fun c => ?_, h.store⟩
  have hrel := h.containers c
  generalize world.container? c = x, later.container? c = y at hrel
  cases hrel with
  | none => exact .none
  | some hgains => exact .some hgains.toRetains

theorem Retains.stays (h : world.Retains later) : world.Stays later := by
  refine ⟨fun c => ?_, h.store.code⟩
  have hrel := h.containers c
  generalize world.container? c = x, later.container? c = y at hrel
  cases hrel with
  | none => rfl
  | some hretains => exact congrArg some (Container.base_of_bare hretains.bare)

theorem Gains.kept (h : world.Gains later) {service : Value}
    (hcached : world.cached? c id = some service) : later.cached? c id = some service := by
  obtain ⟨a, hat, hheld⟩ := Option.bind_eq_some_iff.mp hcached
  obtain ⟨b, hb, hgains⟩ := h.container hat
  exact Option.bind_eq_some_iff.mpr ⟨b, hb, hgains.kept hheld⟩

theorem Gains.uncached (h : world.Gains later) (hnew : later.cached? c id = none) :
    world.cached? c id = none := by
  by_contra hcached
  obtain ⟨service, hservice⟩ := Option.ne_none_iff_exists'.mp hcached
  rw [h.kept hservice] at hnew
  cases hnew

theorem Gains.of_store {store : Store} (h : world.store.Retains store) :
    world.Gains { world with store } := ⟨fun _ => rel_refl Container.Gains.refl _, h⟩

theorem cached?_entering (hat : world.container? c = some a) (chain : List String)
    (d : ContainerRef) (other : String) :
    (world.put c (a.setLoading chain)).cached? d other = world.cached? d other := by
  unfold cached?
  rw [container?_put hat]
  split
  · next hsame => rw [hsame, hat, Option.bind_some, Option.bind_some, Container.cached?_setLoading]
  · rfl

/-- A construction ends with the chain that it began with. -/
theorem Gains.leave (hat : world.container? c = some a)
    (h : (world.put c (a.setLoading (a.loading ++ [id]))).Gains inner)
    (hb : inner.container? c = some b) (hdefined : a.defines id)
    (hnew : a.cached? id = none) (hentered : id ∉ a.loading)
    (options : ResolveOptions) (service : Value) {store : Store}
    (hstore : inner.store.Retains store) :
    world.Gains (({ inner with store } : World).put c
      ((b.kept id options service).setLoading (b.loading.take a.loading.length))) := by
  obtain ⟨found, hfound, hgains⟩ := h.container (container?_put_self world c _ a hat)
  obtain rfl : found = b := Option.some.inj (hfound.symm.trans hb)
  have hloading : found.loading.take a.loading.length = a.loading := by
    rw [hgains.loading, Container.loading_setLoading, List.take_left]
  have hdefines : found.defines id := by
    rw [Container.defines_of_bare hgains.bare, Container.defines_of_bare
      (Container.bare_setLoading a _)]
    exact hdefined
  have hb' : ({ inner with store } : World).container? c = some found := hb
  refine ⟨fun d => ?_, h.store.trans hstore⟩
  rw [hloading, container?_put hb']
  split
  · next hsame =>
      rw [hsame, hat]
      exact .some (hgains.leave hdefines hnew hentered options service)
  · next hother =>
      have hrel := h.containers d
      rwa [container?_put hat, if_neg hother] at hrel

/-- What is cached after a construction: what was cached when the service was made, and the service
itself if it is to be. -/
theorem cached?_completed (hb : inner.container? c = some b) (hdefined : b.defines id)
    (options : ResolveOptions) (depth : Nat) (service : Value) (d : ContainerRef)
    (other : String) :
    (inner.completed c id options depth b service).cached? d other =
      if d = c ∧ other = id ∧ b.isFactory id = false ∧ options.ignoreFreezing = false
      then some service else inner.cached? d other := by
  have hb' : ({ inner with store := inner.store.announced id (b.notice? id) b.handler } :
      World).container? c = some b := hb
  unfold cached? completed
  rw [container?_put hb']
  by_cases hplace : d = c
  · subst hplace
    rw [if_pos rfl, hb, Option.bind_some, Option.bind_some, Container.cached?_setLoading,
      Container.cached?_kept hdefined]
    simp only [true_and]
  · rw [if_neg hplace, if_neg fun h => hplace h.1]
    rfl

theorem cached?_cut (inner : World) (c : ContainerRef) (depth : Nat) (d : ContainerRef)
    (other : String) : (Run.cut c depth inner).cached? d other = inner.cached? d other := by
  cases hb : inner.container? c with
  | none => rw [Run.cut, hb]
  | some b =>
      rw [cut_apply hb]
      exact cached?_entering hb _ d other

end World

end Wiring
