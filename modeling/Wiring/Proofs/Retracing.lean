import Mathlib.Data.Nat.Find
import Wiring.Proofs.LockstepCalls

/-!
# Runs that are retraced

As long as calls may not be nested too deep no new service comes to be cached. Such a run depends on
nothing but what is cached, so that another container that has as much cached, or more, retraces it. The
least nesting with which a new service is cached belongs to a run that only makes this one service:
wherever the service is not cached yet, the same run makes it again, alike.
-/

namespace Wiring

open Run

namespace Setting

variable (s : Setting)

/-- A later world, in which the container has cached what is given, no more and no less. -/
structure Since (base : Store) (given : String → Option Value) (world : World) (a : Container) :
    Prop where
  found : world.container? s.home = some a
  bare : a.bare = s.origin.bare
  proper : s.Proper a.loading
  cached : ∀ id, a.cached? id = given id
  store : base.Extends world.store

/-- From nowhere do calls nested so deep come to a new service that is cached. -/
def Barren (base : Store) (given : String → Option Value) (n : Nat) : Prop :=
  ∀ (world later : World) (a : Container) (id : String) (v : Value),
    s.Since base given world a → s.origin.defines id → s.origin.isFactory id = false →
      given id = none → a.obtain (Call.run n) s.home id {} world ≠ (.ok v, later)

/-- Nothing that could be cached is missing below the definition. -/
inductive Ready (given : String → Option Value) : String → Prop
  | cached {id : String} {v : Value} (h : given id = some v) : Ready given id
  | factory {id : String} (hfactory : s.origin.isFactory id)
      (h : ∀ next, s.Edge id next → Ready given next) : Ready given id

/-- A new service that is cached, and made with calls nested as little as possible. -/
structure Birth (base : Store) (given : String → Option Value) (n : Nat) (id : String) (v : Value)
    (world : World) (a : Container) (later : World) : Prop where
  since : s.Since base given world a
  defined : s.origin.defines id
  shared : s.origin.isFactory id = false
  new : given id = none
  made : a.obtain (Call.run n) s.home id {} world = (.ok v, later)
  least : ∀ less < n, s.Barren base given less

/-- The container has cached the service and is otherwise what it was. -/
structure Gains (a : Container) (id : String) (v : Value) (b : Container) : Prop where
  bare : b.bare = s.origin.bare
  loading : b.loading = a.loading
  cached : ∀ other, b.cached? other = if other = id then some v else a.cached? other

variable {s} {base : Store} {given : String → Option Value}

theorem Ready.next {id next : String} (h : s.Ready given id) (hnew : given id = none)
    (hedge : s.Edge id next) : s.Ready given next := by
  cases h with
  | cached hcached =>
      rw [hnew] at hcached
      cases hcached
  | factory _ hnext => exact hnext next hedge

/-- What could be cached and is not is missing itself. -/
theorem not_ready {id : String} (hshared : s.origin.isFactory id = false) (hnew : given id = none) :
    ¬ s.Ready given id := by
  intro h
  cases h with
  | cached hcached =>
      rw [hnew] at hcached
      cases hcached
  | factory hfactory _ =>
      rw [hshared] at hfactory
      cases hfactory

open Classical in
/-- Either nothing new can be cached, or there is a first time. -/
theorem barren_or_birth (base : Store) (given : String → Option Value) :
    (∀ n, s.Barren base given n) ∨
      ∃ n id v world a later, s.Birth base given n id v world a later := by
  by_cases hbarren : ∀ n, s.Barren base given n
  · exact .inl hbarren
  · right
    obtain ⟨n, hfound, hleast⟩ :
        ∃ n, ¬ s.Barren base given n ∧ ∀ less < n, s.Barren base given less := by
      have hsome := not_forall.mp hbarren
      exact ⟨Nat.find hsome, Nat.find_spec hsome, fun less hless =>
        not_not.mp (Nat.find_min hsome hless)⟩
    unfold Barren at hfound
    push Not at hfound
    obtain ⟨world, later, a, id, v, hsince, hdefined, hshared, hnew, hmade⟩ := hfound
    exact ⟨n, id, v, world, a, later, hsince, hdefined, hshared, hnew, hmade, hleast⟩

end Setting

namespace Container

/-- A service that was given although it was not cached was made. -/
theorem made_of_obtain {world later : World} {home : ContainerRef} {container : Container}
    {id : String} {recur : Caller} {v : Value} (hat : world.container? home = some container)
    (hdefined : container.defines id) (hcached : container.cached? id = none)
    (hok : container.obtain recur home id {} world = (.ok v, later)) :
    Chain.enter container.maxDepth container.loading id = .ok (container.loading ++ [id]) ∧
      ∃ service inner, container.make recur home id
        (world.put home (container.setLoading (container.loading ++ [id]))) = (.ok service, inner) := by
  cases henter : Chain.enter container.maxDepth container.loading id with
  | error error =>
      rw [obtain_refused hat hdefined hcached henter] at hok
      cases hok
  | ok longer =>
      obtain ⟨-, -, rfl⟩ := Chain.enter_eq_ok_iff.mp henter
      refine ⟨rfl, ?_⟩
      cases hmake : container.make recur home id
          (world.put home (container.setLoading (container.loading ++ [id]))) with
      | mk answer inner =>
          cases answer with
          | ok service => exact ⟨service, inner, rfl⟩
          | error halt =>
              rw [obtain_failed hat hdefined hcached henter hmake] at hok
              cases hok

end Container

/-- Two containers in worlds of their own, of which the first one caches nothing new. -/
structure Quiet where
  floor : Correspondence
  base : Store
  given : String → Option Value
  world : World
  world' : World
  a : Container
  b : Container
  strict : Prop
  /-- Which ids the first run may come to. -/
  Safe : String → Prop

namespace Quiet

variable (q : Quiet)

structure Held (R : Correspondence) (a b : Container) : Prop where
  left : ∀ id, a.cached? id = q.given id
  right : ∀ id, b.cached? id = q.b.cached? id
  floor : q.floor ≤ R
  new : R ≤ q.floor ⊔ q.world.store.beyond q.world'.store

def terms (s : Setting) : Terms where
  floor := q.floor
  left := q.world.store
  right := q.world'.store
  leftChain := q.a.loading
  rightChain := q.b.loading
  Held := q.Held
  strict := q.strict
  Safe _ := q.Safe
  Gained := s.Ready q.given
  Fuel := s.Barren q.base q.given

structure Sound (s : Setting) : Prop where
  since : s.Since q.base q.given q.world q.a
  found : q.world'.container? s.home = some q.b
  bare : q.b.bare = s.origin.bare
  proper : s.Proper q.b.loading
  known : s.known ≤ q.floor
  bijective : q.floor.Bijective
  alike : q.world.store.Alike q.floor q.world'.store
  code : q.world.store.code = s.code
  code' : q.world'.store.code = s.code
  /-- The second container has cached as much. -/
  kept : ∀ {id : String} {v : Value}, q.given id = some v →
    ∃ w, q.b.cached? id = some w ∧ v.Alike q.floor w
  enters : ∀ {id : String}, q.Safe id → id ∈ q.b.loading → id ∈ q.a.loading
  next : ∀ {id next : String}, q.given id = none → q.Safe id → s.Edge id next → q.Safe next
  same : q.strict → q.a.loading = q.b.loading ∧ ∀ id, q.b.cached? id = q.given id

variable {q} {s : Setting}

theorem Held.paired {R : Correspondence} {a b : Container} (h : q.Held R a b) {space : Space}
    {x y : Nat} (hx : q.world.store.size space ≤ x) (hy : q.world'.store.size space ≤ y) :
    q.Held (R ⊔ .pair space x y) a b where
  left := h.left
  right := h.right
  floor := h.floor.trans le_sup_left
  new := by
    refine sup_le h.new ?_
    rintro other _ _ ⟨rfl, rfl, rfl⟩
    exact .inr ⟨hx, hy⟩

theorem Held.setLoading {R : Correspondence} {a b : Container} (h : q.Held R a b)
    (chain chain' : List String) : q.Held R (a.setLoading chain) (b.setLoading chain') where
  left id := (a.cached?_setLoading chain id).trans (h.left id)
  right id := (b.cached?_setLoading chain' id).trans (h.right id)
  floor := h.floor
  new := h.new

/-- On its way the first container is where nothing new was cached. -/
theorem Sound.later (h : q.Sound s) (k : Pair s (q.terms s)) :
    s.Since q.base q.given k.world k.a where
  found := k.at_left
  bare := k.bare_left
  proper := k.loading_left ▸ k.proper_left
  cached := k.held.left
  store := h.since.store.trans k.heap.left

theorem Sound.rules (h : q.Sound s) : (q.terms s).Rules s where
  known := h.known
  left_code := h.code
  right_code := h.code'
  paired hheld _ _ _ hx hy := hheld.paired hx hy
  setLoading hheld chain chain' := hheld.setLoading chain chain'
  chains hstrict := (h.same hstrict).1
  enters {chain id} hsafe hfresh hmem := by
    rcases List.mem_append.mp hmem with hloading | hchain
    · exact hfresh (List.mem_append_left _ (h.enters hsafe hloading))
    · exact hfresh (List.mem_append_right _ hchain)
  safe_next k id next hnew _ hsafe hedge :=
    h.next ((k.held.left id).symm.trans hnew) hsafe hedge
  cached {R a b id v} hheld hcached := by
    have hgiven : q.given id = some v := (hheld.left id).symm.trans hcached
    obtain ⟨w, hw, hsame⟩ := h.kept hgiven
    exact ⟨.cached hgiven, w, (hheld.right id).trans hw, hsame.mono hheld.floor⟩
  factory _ _ _ hfactory hnext := .factory hfactory hnext
  stored {n} k {id v later} hbarren hdefined hshared hnew _ hobtain := by
    have hgiven : q.given id = none := (k.held.left id).symm.trans hnew
    exact absurd hobtain (hbarren _ _ _ _ _ (h.later k) hdefined hshared hgiven)
  ahead {n m} k {id w} hbarren _ _ hdefined _ hnew hcached := by
    have hgiven : q.given id = none := (k.held.left id).symm.trans hnew
    have hheld : q.b.cached? id = some w := (k.held.right id).symm.trans hcached
    have hlax : ¬ q.strict := by
      intro hstrict
      rw [(h.same hstrict).2, hgiven] at hheld
      cases hheld
    have hshared : s.origin.isFactory id = false := by
      rw [← Container.isFactory_of_bare h.bare, ← Bool.not_eq_true]
      intro hfactory
      rw [Container.cached?_factory hfactory] at hheld
      cases hheld
    rintro world world' ⟨rfl, rfl⟩
    cases hobtain : k.a.obtain (Call.run n) s.home id {} k.world with
    | mk answer later =>
        cases answer with
        | error halt => exact .waived _ hlax
        | ok v => exact absurd hobtain (hbarren _ _ _ _ _ (h.later k) hdefined hshared hgiven)

/-- Both containers as they are. -/
def Sound.start (h : q.Sound s) : Pair s (q.terms s) where
  refs := q.floor
  world := q.world
  world' := q.world'
  a := q.a
  b := q.b
  chain := []
  at_left := h.since.found
  at_right := h.found
  bare_left := h.since.bare
  bare_right := h.bare
  loading_left := (List.append_nil _).symm
  loading_right := (List.append_nil _).symm
  proper_left := by
    rw [List.append_nil]
    exact h.since.proper
  proper_right := by
    rw [List.append_nil]
    exact h.proper
  heap := .start h.bijective h.alike
  held :=
    { left := h.since.cached
      right := fun _ => rfl
      floor := le_refl _
      new := le_sup_left }

/-- What the second container does where the first one caches a new service. -/
structure Retraced (q : Quiet) (s : Setting) (m : Nat) (id : String) (v : Value) (later : World)
    (R : Correspondence) (w : Value) (last : World) (a b : Container) : Prop where
  made : q.b.obtain (Call.run m) s.home id {} q.world' = (.ok w, last)
  same : v.Alike R w
  heap : Heap q.floor q.world.store q.world'.store R later.store last.store
  new : R ≤ q.floor ⊔ q.world.store.beyond q.world'.store
  left : later.container? s.home = some a
  right : last.container? s.home = some b
  gains : s.Gains q.a id v a
  gains' : s.Gains q.b id w b
  ready : ∀ next, s.Edge id next → s.Ready q.given next

/-- A container that was left again has gained the service alone. -/
theorem gains_of_kept {a b : Container} {id : String} {v : Value}
    (hdefined : s.origin.defines id) (hshared : s.origin.isFactory id = false)
    (hbare : b.bare = s.origin.bare) (hcached : ∀ other, b.cached? other = a.cached? other) :
    s.Gains a id v ((b.kept id {} v).setLoading a.loading) where
  bare := (Container.bare_setLoading _ _).trans ((Container.bare_kept _ _ _ _).trans hbare)
  loading := Container.loading_setLoading _ _
  cached other := by
    have hdefines : b.defines id := (Container.defines_of_bare hbare id).trans hdefined
    have hfactory : b.isFactory id = false := (Container.isFactory_of_bare hbare id).trans hshared
    rw [Container.cached?_setLoading, Container.kept_stored ⟨hfactory, rfl⟩,
      Container.cached?_storing hdefines hfactory, hcached]

/-- **A new service is made again**, alike, by any container that has cached as much and is not in the
middle of what the service needs. -/
theorem retrace (sound : s.Sound) (h : q.Sound s) (hlax : ¬ q.strict) {n m : Nat} {id : String}
    {v : Value} {later : World} (birth : s.Birth q.base q.given n id v q.world q.a later)
    (hfresh : id ∉ q.b.loading) (hnew : q.b.cached? id = none) (hneed : s.need q.b.loading ≤ m)
    (hsafe : ∀ next, s.Edge id next → q.Safe next) :
    ∃ R w last a b, q.Retraced s m id v later R w last a b := by
  let k := h.start
  have hid := sound.defines_iff.mp birth.defined
  have hdefines : q.a.defines id :=
    (Container.defines_of_bare h.since.bare id).trans birth.defined
  have hdefines' : q.b.defines id := (Container.defines_of_bare h.bare id).trans birth.defined
  have hcached : q.a.cached? id = none := (h.since.cached id).trans birth.new
  obtain ⟨henter, service, inner, hmake⟩ :=
    Container.made_of_obtain h.since.found hdefines hcached birth.made
  have hlt := h.proper.length_lt hfresh hid
  have henter' : Chain.enter q.b.maxDepth q.b.loading id = .ok (q.b.loading ++ [id]) := by
    rw [Chain.enter_eq_ok_iff, Container.maxDepth_of_bare h.bare, sound.hosts.maxDepth_eq]
    exact ⟨hfresh, hlt.trans_le sound.depth, rfl⟩
  have hproper : s.Proper (q.a.loading ++ ([] ++ [id])) :=
    h.since.proper.snoc (Chain.enter_eq_ok_iff.mp henter).1 hid
  have hproper' : s.Proper (q.b.loading ++ ([] ++ [id])) := h.proper.snoc hfresh hid
  have hneed' : s.need (q.b.loading ++ [id]) + 2 ≤ m := by
    rw [Setting.need_snoc hlt]
    exact hneed
  obtain ⟨definition, hfound⟩ := sound.definition birth.defined
  let entered := k.enter h.rules.toGrounded hproper hproper'
  have hends := entered.make_couples sound h.rules (fun hstrict => absurd hstrict hlax) (by omega)
    (fun j _ hnames => j.call_couples sound h.rules n birth.least (fun hstrict => absurd hstrict hlax)
      hnames) hfound hneed' hsafe _ _ ⟨rfl, rfl⟩
  rw [← sound.make_eq h.since.bare hfound, ← sound.make_eq h.bare hfound] at hends
  rw [show q.a.make (Call.run n) s.home id entered.world = _ from hmake] at hends
  generalize hmake' : q.b.make (Call.run m) s.home id entered.world' = answer at hends
  cases hends with
  | @ok j _ w _ inner' hleads hworlds hvalue =>
      obtain ⟨rfl, rfl⟩ := hworlds
      obtain ⟨hsame, hready⟩ := hvalue
      obtain ⟨last, hobtain, hlast, hstore⟩ := Container.obtain_succeeded h.since.found hdefines
        hcached henter hmake j.at_left (j.bare_left.trans h.since.bare.symm)
      obtain ⟨last', hobtain', hlast', hstore'⟩ := Container.obtain_succeeded h.found hdefines' hnew
        henter' hmake' j.at_right (j.bare_right.trans h.bare.symm)
      obtain ⟨hv, rfl⟩ := Prod.mk.inj (birth.made.symm.trans hobtain)
      obtain rfl := Except.ok.inj hv
      rw [show j.a.loading.take q.a.loading.length = q.a.loading from k.take_left j hleads.2] at hlast
      rw [show j.b.loading.take q.b.loading.length = q.b.loading from
        k.take_right j hleads.2] at hlast'
      refine ⟨j.refs, w, last', _, _, hobtain', hsame, j.heap.journaled hstore hstore', j.held.new,
        hlast, hlast', ?_, ?_, hready⟩
      · exact gains_of_kept birth.defined birth.shared j.bare_left fun other =>
          (j.held.left other).trans (h.since.cached other).symm
      · exact gains_of_kept birth.defined birth.shared j.bare_right j.held.right

end Quiet
end Wiring
