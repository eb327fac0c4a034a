import Wiring.Proofs.Retracing

/-!
# A container that is ahead by one service

The second container has cached one new service more than the first one. They run in lockstep all the
same: where the service is needed the second container gives what it has, and the first one catches up by
making it. What it makes is alike, because it retraces the run that made the service the first time.
-/

namespace Wiring

open Run

/-- What two containers have in common, of which the second one has a new service. -/
structure Warming where
  floor : Correspondence
  store : Store
  given : String → Option Value
  id : String
  service : Value
  /-- The store after the service was made. -/
  warm : Store

namespace Warming

variable (w : Warming)

structure Held (R : Correspondence) (a b : Container) : Prop where
  kept : ∀ {id : String} {v : Value}, w.given id = some v → a.cached? id = some v
  others : ∀ {id : String}, id ≠ w.id →
    Option.Rel (Value.Alike R) (a.cached? id) (b.cached? id)
  warm : b.cached? w.id = some w.service
  /-- Until the first container catches up nothing that the service refers to is there. -/
  behind : (a.cached? w.id = none ∧ R ≤ w.floor ⊔ w.store.beyond w.warm) ∨
    ∃ v, a.cached? w.id = some v ∧ v.Alike R w.service

def terms (s : Setting) : Terms where
  floor := w.floor
  left := w.store
  right := w.warm
  leftChain := []
  rightChain := []
  Held := w.Held
  strict := True
  Safe chain id := w.id ∉ chain ∧
    (s.Ready w.given id ∨ ∀ other ∈ chain, ¬ s.Ready w.given other)
  Gained _ := True
  Fuel _ := True

structure Sound (s : Setting) : Prop where
  birth : ∃ n world a later, s.Birth w.store w.given n w.id w.service world a later ∧
    later.store = w.warm
  grown : w.store.Extends w.warm
  ready : ∀ next, s.Edge w.id next → s.Ready w.given next
  known : s.known ≤ w.floor
  fixed : w.floor ≤ .same
  alike : w.store.Alike w.floor w.store
  code : w.store.code = s.code
  kept : ∀ {id : String} {v : Value}, w.given id = some v → v.Alike w.floor v

variable {w} {s : Setting}

theorem rel_mono {R S : Correspondence} (hle : R ≤ S) {x y : Option Value}
    (h : Option.Rel (Value.Alike R) x y) : Option.Rel (Value.Alike S) x y := by
  cases h with
  | none => exact .none
  | some hsame => exact .some (hsame.mono hle)

theorem Held.paired {R : Correspondence} {a b : Container} (h : w.Held R a b) {space : Space}
    {x y : Nat} (hx : w.store.size space ≤ x) (hy : w.warm.size space ≤ y) :
    w.Held (R ⊔ .pair space x y) a b where
  kept := h.kept
  others hother := rel_mono le_sup_left (h.others hother)
  warm := h.warm
  behind := by
    rcases h.behind with ⟨hnew, hle⟩ | ⟨v, hv, hsame⟩
    · refine .inl ⟨hnew, sup_le hle ?_⟩
      rintro other _ _ ⟨rfl, rfl, rfl⟩
      exact .inr ⟨hx, hy⟩
    · exact .inr ⟨v, hv, hsame.mono le_sup_left⟩

theorem Held.setLoading {R : Correspondence} {a b : Container} (h : w.Held R a b)
    (chain chain' : List String) : w.Held R (a.setLoading chain) (b.setLoading chain') := by
  refine ⟨fun hgiven => ?_, fun hother => ?_, ?_, ?_⟩
  · rw [Container.cached?_setLoading]
    exact h.kept hgiven
  · rw [Container.cached?_setLoading, Container.cached?_setLoading]
    exact h.others hother
  · rw [Container.cached?_setLoading]
    exact h.warm
  · rw [Container.cached?_setLoading]
    exact h.behind

/-- What the first container has not cached was not given. -/
theorem Held.given_none {R : Correspondence} {a b : Container} (h : w.Held R a b) {id : String}
    (hnew : a.cached? id = none) : w.given id = none := by
  cases hgiven : w.given id with
  | none => rfl
  | some v =>
      rw [h.kept hgiven] at hnew
      cases hnew

theorem Held.ne_of_new {R : Correspondence} {a b : Container} (h : w.Held R a b) {id : String}
    (hnew : b.cached? id = none) : id ≠ w.id := by
  rintro rfl
  rw [h.warm] at hnew
  cases hnew

/-- Both containers cache another new service. -/
theorem Held.storing {R : Correspondence} {a b : Container} (h : w.Held R a b) {id : String}
    {v u : Value} (hgiven : w.given id = none) (hother : id ≠ w.id)
    (hdefined : s.origin.defines id) (hshared : s.origin.isFactory id = false)
    (ha : a.bare = s.origin.bare) (hb : b.bare = s.origin.bare) (hsame : v.Alike R u) :
    w.Held R (a.storing id v a) (b.storing id u b) := by
  have hleft : ∀ one, (a.storing id v a).cached? one = if one = id then some v else a.cached? one :=
    Container.cached?_storing ((Container.defines_of_bare ha id).trans hdefined)
      ((Container.isFactory_of_bare ha id).trans hshared) v
  have hright : ∀ one, (b.storing id u b).cached? one = if one = id then some u else b.cached? one :=
    Container.cached?_storing ((Container.defines_of_bare hb id).trans hdefined)
      ((Container.isFactory_of_bare hb id).trans hshared) u
  refine ⟨fun {one held} hheld => ?_, fun {one} hone => ?_, ?_, ?_⟩
  · have hne : one ≠ id := by
      rintro rfl
      rw [hgiven] at hheld
      cases hheld
    rw [hleft, if_neg hne]
    exact h.kept hheld
  · rw [hleft, hright]
    split
    · exact .some hsame
    · exact h.others hone
  · rw [hright, if_neg hother.symm]
    exact h.warm
  · rw [hleft, if_neg hother.symm]
    exact h.behind

theorem Sound.bijective (h : w.Sound s) : w.floor.Bijective :=
  Correspondence.bijective_of_le_same h.fixed

theorem Sound.new (h : w.Sound s) : w.given w.id = none := by
  obtain ⟨_, _, _, _, birth, -⟩ := h.birth
  exact birth.new

/-- What the containers share and what the first one makes to catch up do not get in each other's way. -/
theorem Sound.across (h : w.Sound s) {world : World} {R S : Correspondence} {a b : Store}
    (hbase : w.store.Extends world.store) (hbijective : R.Bijective)
    (hfloor : w.floor ≤ R) (hR : R ≤ w.floor ⊔ w.store.beyond w.warm)
    (hS : S ≤ w.floor ⊔ world.store.beyond a) (ha : a.Alike R b) {last : Store}
    (hlast : w.warm.Alike S last) {space : Space} {x y x' y' : Nat} (hxy : R space x y)
    (hxy' : S space y' x') : x = x' ↔ y = y' := by
  rcases hS space y' x' hxy' with hfixed | ⟨hy', hx'⟩
  · obtain rfl := h.fixed space y' x' hfixed
    exact hbijective hxy (hfloor space y' y' hfixed)
  · have hx := (ha.bounds hxy).1
    have hlt := (hlast.bounds hxy').1
    have hy : y ≠ y' := by
      rcases hR space x y hxy with hfixed | ⟨-, hbeyond⟩
      · have hbound := (h.alike.bounds hfixed).2
        have hsize := hbase.size_le space
        omega
      · omega
    constructor
    · intro hsame
      omega
    · exact fun hsame => absurd hsame hy

theorem Held.le_of_new {R : Correspondence} {a b : Container} (h : w.Held R a b)
    (hnew : a.cached? w.id = none) : R ≤ w.floor ⊔ w.store.beyond w.warm := by
  rcases h.behind with ⟨-, hle⟩ | ⟨v, hv, -⟩
  · exact hle
  · rw [hnew] at hv
    cases hv

/-- Once the first container has cached the service as well, both hold the same. -/
theorem Held.caught_up (h : w.Sound s) {R S : Correspondence} {a b c : Container} {u : Value}
    (held : w.Held R a b) (hle : R ≤ S) (hsame : u.Alike S w.service)
    (hcached : ∀ id, c.cached? id = if id = w.id then some u else a.cached? id) :
    w.Held S c b := by
  refine ⟨fun {id v} hgiven => ?_, fun {id} hne => ?_, held.warm, .inr ⟨u, ?_, hsame⟩⟩
  · have hne : id ≠ w.id := by
      rintro rfl
      rw [h.new] at hgiven
      cases hgiven
    rw [hcached, if_neg hne]
    exact held.kept hgiven
  · rw [hcached, if_neg hne]
    exact rel_mono hle (held.others hne)
  · rw [hcached, if_pos rfl]

/-- What both stores have in common once the service is in the first one as well. -/
theorem Sound.heap_caught_up (h : w.Sound s) {world : World} {R S : Correspondence}
    {a b last : Store} (hbase : w.store.Extends world.store)
    (hR : R ≤ w.floor ⊔ w.store.beyond w.warm) (hS : S ≤ w.floor ⊔ world.store.beyond a)
    (heap : Heap w.floor w.store w.warm R a b) (again : Heap w.floor world.store a S w.warm last) :
    Heap w.floor w.store w.warm (R ⊔ S.flip) last b where
  bijective := heap.bijective.sup again.bijective.flip fun hxy hxy' =>
    h.across hbase heap.bijective heap.floor hR hS heap.alike again.alike hxy hxy'
  floor := heap.floor.trans le_sup_left
  alike := (heap.alike.extend again.right (.refl _)).sup
    (again.alike.flip.extend (.refl _) heap.right)
  left := heap.left.trans again.right
  right := heap.right

/-- The first container beside the run that made the service. -/
def behind (w : Warming) (s : Setting) (k : Pair s (w.terms s)) (world : World) (a : Container) :
    Quiet where
  floor := w.floor
  base := w.store
  given := w.given
  world := world
  world' := k.world
  a := a
  b := k.a
  strict := False
  Safe := s.Ready w.given

theorem Sound.behind (h : w.Sound s) (k : Pair s (w.terms s)) {world : World} {a : Container}
    (since : s.Since w.store w.given world a)
    (hunready : ∀ other ∈ k.chain, ¬ s.Ready w.given other) : (w.behind s k world a).Sound s where
  since := since
  found := k.at_left
  bare := k.bare_left
  proper := k.loading_left ▸ k.proper_left
  known := h.known
  bijective := h.bijective
  alike := h.alike.extend since.store k.heap.left
  code := since.store.code.trans h.code
  code' := k.heap.left.code.trans h.code
  kept hgiven := ⟨_, k.held.kept hgiven, h.kept hgiven⟩
  enters hready hmem := by
    have hloading : k.a.loading = k.chain := k.loading_left
    exact absurd hready (hunready _ (hloading ▸ hmem))
  next hgiven hready hedge := hready.next hgiven hedge
  same := False.elim

/-- **Catching up.** The first container makes the service that the second one has. -/
theorem Sound.catches_up (sound : s.Sound) (h : w.Sound s) {n : Nat} (k : Pair s (w.terms s))
    (hneed : s.need k.chain ≤ n) (hfresh : w.id ∉ k.chain)
    (hunready : ∀ other ∈ k.chain, ¬ s.Ready w.given other) (hnew : k.a.cached? w.id = none) :
    k.Couples (fun j v u => j.Same v u ∧ True) (k.a.obtain (Call.run n) s.home w.id {})
      (pure w.service) := by
  obtain ⟨least, world, a, later, birth, hwarm⟩ := h.birth
  have hloading : k.a.loading = k.chain := k.loading_left
  obtain ⟨S, u, last, a', b', retraced⟩ := Quiet.retrace (q := w.behind s k world a) (m := n) sound
    (h.behind k birth.since hunready) (fun hstrict => hstrict) birth (hloading ▸ hfresh) hnew
    (hloading ▸ hneed) h.ready
  rintro _ _ ⟨rfl, rfl⟩
  have hmade : k.a.obtain (Call.run n) s.home w.id {} k.world = (.ok u, last) := retraced.made
  have again : Heap w.floor world.store k.world.store S w.warm last.store := hwarm ▸ retraced.heap
  have hle : k.refs ≤ k.refs ⊔ S.flip := le_sup_left
  have hsame : u.Alike (k.refs ⊔ S.flip) w.service := retraced.same.flip.mono le_sup_right
  let j : Pair s (w.terms s) :=
    { k with
      refs := k.refs ⊔ S.flip
      world := last
      a := b'
      at_left := retraced.right
      bare_left := retraced.gains'.bare
      loading_left := retraced.gains'.loading.trans k.loading_left
      heap := h.heap_caught_up birth.since.store (k.held.le_of_new hnew) retraced.new k.heap again
      held := k.held.caught_up h hle hsame retraced.gains'.cached }
  have hleads : (Coupling.lockstep s (w.terms s)).Leads k j := ⟨hle, rfl⟩
  rw [hmade]
  exact .ok hleads ⟨rfl, rfl⟩ ⟨hsame, trivial⟩

theorem Sound.rules (sound : s.Sound) (h : w.Sound s) : (w.terms s).Rules s where
  known := h.known
  left_code := h.code
  right_code := h.grown.code.trans h.code
  paired hheld _ _ _ hx hy := hheld.paired hx hy
  setLoading hheld chain chain' := hheld.setLoading chain chain'
  chains _ := rfl
  enters _ hfresh := hfresh
  safe_next k id next hnew hnew' hsafe hedge := by
    obtain ⟨hfresh, hready⟩ := hsafe
    have hne := k.held.ne_of_new hnew'
    have hgiven := k.held.given_none hnew
    change w.id ∉ [] ++ (k.chain ++ [id]) ∧
      (s.Ready w.given next ∨ ∀ other ∈ [] ++ (k.chain ++ [id]), ¬ s.Ready w.given other)
    rw [← List.append_assoc]
    refine ⟨?_, ?_⟩
    · rw [List.mem_append, List.mem_singleton]
      rintro (hmem | hsame)
      · exact hfresh hmem
      · exact hne hsame.symm
    · by_cases hone : s.Ready w.given id
      · exact .inl (hone.next hgiven hedge)
      · right
        intro other hother
        rcases List.mem_append.mp hother with hmem | hmem
        · exact hready.resolve_left hone other hmem
        · rw [List.mem_singleton.mp hmem]
          exact hone
  cached {R a b id v} hheld hcached := by
    refine ⟨trivial, ?_⟩
    by_cases hid : id = w.id
    · subst hid
      rcases hheld.behind with ⟨hnew, -⟩ | ⟨held, hv, hsame⟩
      · rw [hnew] at hcached
        cases hcached
      · obtain rfl := Option.some.inj (hcached.symm.trans hv)
        exact ⟨w.service, hheld.warm, hsame⟩
    · have hrel := hheld.others hid
      rw [hcached] at hrel
      generalize b.cached? id = y at hrel
      cases hrel with
      | some hsame => exact ⟨_, rfl, hsame⟩
  factory _ _ _ _ _ := trivial
  stored {n} k {id v later} _ hdefined hshared hnew hnew' _ := by
    have hne := k.held.ne_of_new hnew'
    have hgiven := k.held.given_none hnew
    exact ⟨trivial, fun hheld ha hb hsame =>
      hheld.storing hgiven hne hdefined hshared ha hb hsame⟩
  ahead {n m} k {id u} _ hfuel hneed hdefined hsafe hnew hcached := by
    obtain ⟨hfresh, hready⟩ := hsafe
    by_cases hid : id = w.id
    · subst hid
      obtain rfl := Option.some.inj (hcached.symm.trans k.held.warm)
      obtain rfl := hfuel trivial
      have hunready : ¬ s.Ready w.given w.id := by
        obtain ⟨_, _, _, _, birth, -⟩ := h.birth
        exact Setting.not_ready birth.shared birth.new
      exact h.catches_up sound k hneed hfresh (hready.resolve_left hunready) hnew
    · have hrel := k.held.others hid
      rw [hnew, hcached] at hrel
      cases hrel

end Warming
end Wiring
