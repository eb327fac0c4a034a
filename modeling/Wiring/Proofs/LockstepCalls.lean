import Wiring.Proofs.Lockstep

/-!
# Calls in lockstep

The service of a definition is cached on both sides, or made on both, or the second container is ahead:
the terms say what happens then. From this, by induction on the depth of nesting, all calls that follow
a name are coupled.
-/

namespace Wiring

open Run

namespace Container

theorem bare_kept (container : Container) (id : String) (options : ResolveOptions) (service : Value) :
    (container.kept id options service).bare = container.bare := by
  unfold kept
  split
  · exact bare_storing container id service
  · rfl

theorem kept_factory {container : Container} {id : String} (hfactory : container.isFactory id)
    (options : ResolveOptions) (service : Value) :
    container.kept id options service = container :=
  kept_untouched fun hkeep => Bool.false_ne_true (hkeep.1.symm.trans hfactory)

section Obtain

variable {world inner : World} {home : ContainerRef} {container b : Container} {id : String}
  {longer : List String} {recur : Caller}
  (hat : world.container? home = some container) (hdefined : container.defines id)
  (hcached : container.cached? id = none)

include hat hdefined hcached

variable (henter : Chain.enter container.maxDepth container.loading id = .ok longer)

include henter

/-- **A service that was made** is announced and kept, and the chain is what it was. -/
theorem obtain_succeeded {service : Value}
    (hmake : container.make recur home id (world.put home (container.setLoading longer)) =
      (.ok service, inner))
    (hb : inner.container? home = some b) (hbare : b.bare = container.bare) :
    ∃ later, container.obtain recur home id {} world = (.ok service, later) ∧
      later.container? home = some ((b.kept id {} service).setLoading
        (b.loading.take container.loading.length)) ∧
      (later.store = inner.store ∨ ∃ event, later.store = inner.store.record event) := by
  obtain ⟨store, hannounce, hrecorded⟩ := announce_apply hb id (container.notice? id)
  have hb' : ({ inner with store } : World).container? home = some b := hb
  obtain ⟨last, hkeep, hstore, hcontainers⟩ := keep_apply hb' hbare id {} service
  have hlast : last.container? home = some (b.kept id {} service) := by
    rw [hcontainers, if_pos rfl]
  refine ⟨cut home container.loading.length last, ?_, ?_, ?_⟩
  · rw [obtain_made hdefined hcached, entering_apply hat henter, bind_of_ok hmake,
      bind_of_ok hannounce, hkeep]
  · rw [cut_apply hlast, World.container?_put_self _ _ _ _ hlast, loading_kept]
  · rw [cut_apply hlast, World.store_put, hstore]
    exact hrecorded

end Obtain

end Container

theorem Heap.journaled {floor R : Correspondence} {base base' a b a' b' : Store}
    (h : Heap floor base base' R a b) (ha : a' = a ∨ ∃ event, a' = a.record event)
    (hb : b' = b ∨ ∃ event, b' = b.record event) : Heap floor base base' R a' b' := by
  have hleft : Heap floor base base' R a' b := by
    rcases ha with rfl | ⟨event, rfl⟩
    · exact h
    · exact h.record_left event
  rcases hb with rfl | ⟨event, rfl⟩
  · exact hleft
  · exact hleft.record_right event

/-- What terms have to see to for calls to be coupled. -/
structure Terms.Rules (s : Setting) (t : Terms) : Prop extends t.Grounded s where
  /-- Where both have to fail alike the chains are the same. -/
  chains : t.strict → t.leftChain = t.rightChain
  /-- What the first container may enter the second one may. -/
  enters : ∀ {chain : List String} {id : String}, t.Safe (t.leftChain ++ chain) id →
    id ∉ t.leftChain ++ chain → id ∉ t.rightChain ++ chain
  safe_next : ∀ (k : Pair s t) {id next : String}, k.a.cached? id = none →
    k.b.cached? id = none → t.Safe (t.leftChain ++ k.chain) id → s.Edge id next →
      t.Safe (t.leftChain ++ (k.chain ++ [id])) next
  cached : ∀ {R : Correspondence} {a b : Container} {id : String} {v : Value}, t.Held R a b →
    a.cached? id = some v → t.Gained id ∧ ∃ w, b.cached? id = some w ∧ v.Alike R w
  /-- Of a definition whose services are not cached what is learned comes from the next ones. -/
  factory : ∀ (k : Pair s t) {id : String}, k.a.cached? id = none → s.origin.isFactory id →
    (∀ next, s.Edge id next → t.Gained next) → t.Gained id
  /-- What both have made both may cache. -/
  stored : ∀ {n : Nat} (k : Pair s t) {id : String} {v : Value} {later : World}, t.Fuel n →
    s.origin.defines id → s.origin.isFactory id = false → k.a.cached? id = none →
    k.b.cached? id = none →
    k.a.obtain (Call.run n) s.home id {} k.world = (.ok v, later) →
      t.Gained id ∧ ∀ {R : Correspondence} {a b : Container} {w : Value}, t.Held R a b →
        a.bare = s.origin.bare → b.bare = s.origin.bare → v.Alike R w →
          t.Held R (a.storing id v a) (b.storing id w b)
  /-- What the second container has cached, and the first one has not, the first one makes. -/
  ahead : ∀ {n m : Nat} (k : Pair s t) {id : String} {w : Value}, t.Fuel n →
    (t.strict → n = m) → s.need (t.rightChain ++ k.chain) ≤ m → s.origin.defines id →
    t.Safe (t.leftChain ++ k.chain) id → k.a.cached? id = none → k.b.cached? id = some w →
      k.Couples (fun j v w => j.Same v w ∧ t.Gained id) (k.a.obtain (Call.run n) s.home id {})
        (pure w)

section Calls

variable {s : Setting} {t : Terms}

/-- The pair after both containers have entered the id. -/
def Pair.enter (grounded : t.Grounded s) (k : Pair s t) {id : String}
    (hleft : s.Proper (t.leftChain ++ (k.chain ++ [id])))
    (hright : s.Proper (t.rightChain ++ (k.chain ++ [id]))) : Pair s t where
  refs := k.refs
  world := k.world.put s.home (k.a.setLoading (k.a.loading ++ [id]))
  world' := k.world'.put s.home (k.b.setLoading (k.b.loading ++ [id]))
  a := k.a.setLoading (k.a.loading ++ [id])
  b := k.b.setLoading (k.b.loading ++ [id])
  chain := k.chain ++ [id]
  at_left := World.container?_put_self _ _ _ _ k.at_left
  at_right := World.container?_put_self _ _ _ _ k.at_right
  bare_left := (Container.bare_setLoading _ _).trans k.bare_left
  bare_right := (Container.bare_setLoading _ _).trans k.bare_right
  loading_left := by rw [Container.loading_setLoading, k.loading_left, List.append_assoc]
  loading_right := by rw [Container.loading_setLoading, k.loading_right, List.append_assoc]
  proper_left := hleft
  proper_right := hright
  heap := k.heap
  held := grounded.setLoading k.held _ _

/-- Both are back where they were, with more in their stores. -/
theorem Pair.leave (k : Pair s t) {R : Correspondence} {world world' : World} {x y : Container}
    (hx : world.container? s.home = some x) (hy : world'.container? s.home = some y)
    (hxbare : x.bare = s.origin.bare) (hybare : y.bare = s.origin.bare)
    (hxloading : x.loading = k.a.loading) (hyloading : y.loading = k.b.loading)
    (heap : Heap t.floor t.left t.right R world.store world'.store) (held : t.Held R x y)
    (hle : k.refs ≤ R) :
    ∃ p : Pair s t, p.refs = R ∧ (Coupling.lockstep s t).Leads k p ∧
      (Coupling.lockstep s t).Worlds p world world' :=
  ⟨{ k with
      refs := R, world, world', a := x, b := y, at_left := hx, at_right := hy
      bare_left := hxbare, bare_right := hybare, heap, held
      loading_left := hxloading.trans k.loading_left
      loading_right := hyloading.trans k.loading_right }, rfl, ⟨hle, rfl⟩, rfl, rfl⟩

theorem Pair.take_left (k j : Pair s t) {id : String} (h : j.chain = k.chain ++ [id]) :
    j.a.loading.take k.a.loading.length = k.a.loading := by
  rw [j.loading_left, h, ← List.append_assoc, ← k.loading_left, List.take_left]

theorem Pair.take_right (k j : Pair s t) {id : String} (h : j.chain = k.chain ++ [id]) :
    j.b.loading.take k.b.loading.length = k.b.loading := by
  rw [j.loading_right, h, ← List.append_assoc, ← k.loading_right, List.take_left]

/-- An id that both have entered both leave again, with nothing else done to their containers. -/
theorem Pair.cut_both (grounded : t.Grounded s) (k j : Pair s t) {id : String}
    (hrefs : k.refs ≤ j.refs) (hchain : j.chain = k.chain ++ [id]) :
    ∃ p : Pair s t, (Coupling.lockstep s t).Leads k p ∧ (Coupling.lockstep s t).Worlds p
      (cut s.home k.a.loading.length j.world) (cut s.home k.b.loading.length j.world') := by
  rw [cut_apply j.at_left, cut_apply j.at_right, k.take_left j hchain, k.take_right j hchain]
  obtain ⟨p, -, hleave, hworlds⟩ := k.leave
    (World.container?_put_self j.world _ _ _ j.at_left)
    (World.container?_put_self j.world' _ _ _ j.at_right)
    ((Container.bare_setLoading _ _).trans j.bare_left)
    ((Container.bare_setLoading _ _).trans j.bare_right)
    (Container.loading_setLoading _ _) (Container.loading_setLoading _ _) j.heap
    (grounded.setLoading j.held _ _) hrefs
  exact ⟨p, hleave, hworlds⟩

/-- The second container enters what the first one entered, for it has the room. -/
theorem Pair.enters_right (sound : s.Sound) (k : Pair s t) {id : String} (hdefined : s.origin.defines id)
    (hfresh : id ∉ t.rightChain ++ k.chain) :
    Chain.enter k.b.maxDepth k.b.loading id = .ok (k.b.loading ++ [id]) := by
  have hmaxDepth : k.b.maxDepth = s.config.maxDepth :=
    (Container.maxDepth_of_bare k.bare_right).trans sound.hosts.maxDepth_eq
  have hlt := k.proper_right.length_lt hfresh (sound.defines_iff.mp hdefined)
  rw [Chain.enter_eq_ok_iff, k.loading_right, hmaxDepth]
  exact ⟨hfresh, hlt.trans_le sound.depth, rfl⟩

/-- What both have made both keep, if services of the definition are kept at all. -/
theorem Pair.kept_both (rules : t.Rules s) {n : Nat} (hn : t.Fuel n) (k j : Pair s t) {id : String}
    {v w : Value} {later : World} (hdefined : s.origin.defines id) (hcached : k.a.cached? id = none)
    (hcached' : k.b.cached? id = none)
    (hobtain : k.a.obtain (Call.run n) s.home id {} k.world = (.ok v, later))
    (hnext : ∀ next, s.Edge id next → t.Gained next) (hsame : j.Same v w) :
    t.Gained id ∧ t.Held j.refs (j.a.kept id {} v) (j.b.kept id {} w) := by
  have hfactory : j.a.isFactory id = s.origin.isFactory id :=
    Container.isFactory_of_bare j.bare_left id
  have hfactory' : j.b.isFactory id = s.origin.isFactory id :=
    Container.isFactory_of_bare j.bare_right id
  cases hshared : s.origin.isFactory id with
  | true =>
      rw [Container.kept_factory (hfactory.trans hshared),
        Container.kept_factory (hfactory'.trans hshared)]
      exact ⟨rules.factory k hcached hshared hnext, j.held⟩
  | false =>
      obtain ⟨hgained, hheld⟩ := rules.stored k hn hdefined hshared hcached hcached' hobtain
      rw [Container.kept_stored ⟨hfactory.trans hshared, rfl⟩,
        Container.kept_stored ⟨hfactory'.trans hshared, rfl⟩]
      exact ⟨hgained, hheld j.held j.bare_left j.bare_right hsame⟩

/-- What a call gives, and what is learned from it. -/
abbrev Pair.Gives (call : Call) (k : Pair s t) (v w : Value) : Prop :=
  k.Same v w ∧ ∀ id, s.origin.aim call = some id → t.Gained id

variable (sound : s.Sound) (rules : t.Rules s)

include sound rules

/-- **Making a service** on both sides, once both have entered its id. -/
theorem Pair.make_couples {n m : Nat} (hfuel : t.strict → n = m) (hm : 0 < m)
    (calls : ∀ (k : Pair s t) {call : Call}, Call.Names s.home call →
      s.need (t.rightChain ++ k.chain) + 2 ≤ m →
      (∀ id, s.origin.aim call = some id → t.Safe (t.leftChain ++ k.chain) id) →
        k.Couples (Pair.Gives call) (Call.run n call) (Call.run m call))
    (k : Pair s t) {id : String} {definition : Definition}
    (hfound : s.registry.definition? id = some definition)
    (hneed : s.need (t.rightChain ++ k.chain) + 2 ≤ m)
    (hsafe : ∀ next, s.Edge id next → t.Safe (t.leftChain ++ k.chain) next) :
    k.Couples (fun j v w => j.Same v w ∧ ∀ next, s.Edge id next → t.Gained next)
      (s.reading.create (Call.run n) id definition)
      (s.reading.create (Call.run m) id definition) := by
  have hmeets : ∀ demand ∈ definition.demands s.reading.candidates,
      (Coupling.lockstep s t).Meets
        (fun name => ∀ next, s.origin.aim (s.reading.follow name) = some next → t.Gained next) k
        (Call.run n) (Call.run m) s.reading demand := by
    intro demand hdemand name hfollows j hleads
    refine calls j (Setting.names_follow name) ?_ fun next haim => ?_
    · rw [hleads.2]
      exact hneed
    · rw [hleads.2]
      exact hsafe next ⟨definition, hfound, demand, hdemand, name, hfollows, haim⟩
  refine (k.create_couples sound rules.toGrounded hfuel hm hfound hmeets).imp ?_
  rintro j v w _ ⟨hsame, hmet⟩
  refine ⟨hsame, fun next hedge => ?_⟩
  obtain ⟨found, hfound', demand, hdemand, name, hfollows, haim⟩ := hedge
  obtain rfl := Option.some.inj (hfound.symm.trans hfound')
  exact hmet demand hdemand name hfollows next haim

/-- **A service that neither has cached** is made on both sides, once the first has entered its id. -/
theorem Pair.obtain_new {n m : Nat} (hn : t.Fuel n) (hfuel : t.strict → n = m)
    (calls : ∀ (k : Pair s t) {call : Call}, Call.Names s.home call →
      s.need (t.rightChain ++ k.chain) + 2 ≤ m →
      (∀ id, s.origin.aim call = some id → t.Safe (t.leftChain ++ k.chain) id) →
        k.Couples (Pair.Gives call) (Call.run n call) (Call.run m call))
    (k : Pair s t) {id : String} (hdefined : s.origin.defines id)
    (hneed : s.need (t.rightChain ++ k.chain) ≤ m)
    (hsafe : t.Safe (t.leftChain ++ k.chain) id) (hcached : k.a.cached? id = none)
    (hcached' : k.b.cached? id = none)
    (henter : Chain.enter k.a.maxDepth k.a.loading id = .ok (k.a.loading ++ [id])) :
    k.Couples (fun j v w => j.Same v w ∧ t.Gained id) (k.a.obtain (Call.run n) s.home id {})
      (k.b.obtain (Call.run m) s.home id {}) := by
  have hdefines : k.a.defines id := (Container.defines_of_bare k.bare_left id).trans hdefined
  have hdefines' : k.b.defines id := (Container.defines_of_bare k.bare_right id).trans hdefined
  have hid := sound.defines_iff.mp hdefined
  have hfresh : id ∉ t.leftChain ++ k.chain := by
    rw [← k.loading_left]
    exact (Chain.enter_eq_ok_iff.mp henter).1
  have hfresh' := rules.enters hsafe hfresh
  have henter' := k.enters_right sound hdefined hfresh'
  have hproper : s.Proper (t.leftChain ++ (k.chain ++ [id])) := by
    rw [← List.append_assoc]
    exact k.proper_left.snoc hfresh hid
  have hproper' : s.Proper (t.rightChain ++ (k.chain ++ [id])) := by
    rw [← List.append_assoc]
    exact k.proper_right.snoc hfresh' hid
  have hneed' : s.need (t.rightChain ++ (k.chain ++ [id])) + 2 ≤ m := by
    rw [← List.append_assoc, Setting.need_snoc (k.proper_right.length_lt hfresh' hid)]
    exact hneed
  obtain ⟨definition, hfound⟩ := sound.definition hdefined
  let entered := k.enter rules.toGrounded hproper hproper'
  have hends := entered.make_couples sound rules hfuel (by omega) calls hfound hneed'
    (fun next hedge => rules.safe_next k hcached hcached' hsafe hedge) _ _ ⟨rfl, rfl⟩
  rw [← sound.make_eq k.bare_left hfound, ← sound.make_eq k.bare_right hfound] at hends
  rintro world world' ⟨rfl, rfl⟩
  generalize hmake : k.a.make (Call.run n) s.home id entered.world = answer at hends
  generalize hmake' : k.b.make (Call.run m) s.home id entered.world' = answer' at hends
  cases hends with
  | waived _ hlax =>
      rw [Container.obtain_failed k.at_left hdefines hcached henter hmake]
      exact .waived _ hlax
  | @error j halt inner inner' hleads hworlds hhalt =>
      obtain ⟨rfl, rfl⟩ := hworlds
      obtain ⟨p, hleave, hworlds⟩ := k.cut_both rules.toGrounded j hleads.1 hleads.2
      rw [Container.obtain_failed k.at_left hdefines hcached henter hmake,
        Container.obtain_failed k.at_right hdefines' hcached' henter' hmake']
      exact .error hleave hworlds hhalt
  | @ok j v w inner inner' hleads hworlds hvalue =>
      obtain ⟨rfl, rfl⟩ := hworlds
      obtain ⟨hsame, hnext⟩ := hvalue
      obtain ⟨later, hobtain, hlater, hstore⟩ := Container.obtain_succeeded k.at_left hdefines
        hcached henter hmake j.at_left (j.bare_left.trans k.bare_left.symm)
      obtain ⟨later', hobtain', hlater', hstore'⟩ := Container.obtain_succeeded k.at_right
        hdefines' hcached' henter' hmake' j.at_right (j.bare_right.trans k.bare_right.symm)
      rw [k.take_left j hleads.2] at hlater
      rw [k.take_right j hleads.2] at hlater'
      obtain ⟨hgained, hheld⟩ :=
        k.kept_both rules hn j hdefined hcached hcached' hobtain hnext hsame
      obtain ⟨p, hrefs, hleave, hworlds⟩ := k.leave hlater hlater'
        ((Container.bare_setLoading _ _).trans ((Container.bare_kept _ _ _ _).trans j.bare_left))
        ((Container.bare_setLoading _ _).trans ((Container.bare_kept _ _ _ _).trans j.bare_right))
        (Container.loading_setLoading _ _) (Container.loading_setLoading _ _)
        (j.heap.journaled hstore hstore') (rules.setLoading hheld _ _) hleads.1
      rw [hobtain, hobtain']
      refine .ok hleave hworlds ⟨?_, hgained⟩
      rw [Pair.Same, hrefs]
      exact hsame

/-- **Obtaining a service** on both sides. -/
theorem Pair.obtain_couples {n m : Nat} (hn : t.Fuel n) (hfuel : t.strict → n = m)
    (calls : ∀ (k : Pair s t) {call : Call}, Call.Names s.home call →
      s.need (t.rightChain ++ k.chain) + 2 ≤ m →
      (∀ id, s.origin.aim call = some id → t.Safe (t.leftChain ++ k.chain) id) →
        k.Couples (Pair.Gives call) (Call.run n call) (Call.run m call))
    (k : Pair s t) {id : String} (hdefined : s.origin.defines id)
    (hneed : s.need (t.rightChain ++ k.chain) ≤ m)
    (hsafe : t.Safe (t.leftChain ++ k.chain) id) :
    k.Couples (fun j v w => j.Same v w ∧ t.Gained id) (k.a.obtain (Call.run n) s.home id {})
      (k.b.obtain (Call.run m) s.home id {}) := by
  cases hcached : k.a.cached? id with
  | some v =>
      obtain ⟨hgained, w, hcached', hsame⟩ := rules.cached k.held hcached
      rw [Container.obtain_cached hcached, Container.obtain_cached hcached']
      exact .pure ⟨hsame, hgained⟩
  | none =>
    cases hcached' : k.b.cached? id with
    | some w =>
        rw [Container.obtain_cached hcached']
        exact rules.ahead k hn hfuel hneed hdefined hsafe hcached hcached'
    | none =>
      cases henter : Chain.enter k.a.maxDepth k.a.loading id with
      | ok longer =>
          obtain ⟨-, -, rfl⟩ := Chain.enter_eq_ok_iff.mp henter
          exact k.obtain_new sound rules hn hfuel calls hdefined hneed hsafe hcached hcached' henter
      | error error =>
          have hdefines : k.a.defines id :=
            (Container.defines_of_bare k.bare_left id).trans hdefined
          rintro world world' ⟨rfl, rfl⟩
          rw [Container.obtain_refused k.at_left hdefines hcached henter]
          by_cases hstrict : t.strict
          · have hsame : Chain.enter k.b.maxDepth k.b.loading id = .error error := by
              rw [← henter, k.loading_left, k.loading_right, rules.chains hstrict,
                Container.maxDepth_of_bare (k.bare_left.trans k.bare_right.symm)]
            have hdefines' : k.b.defines id :=
              (Container.defines_of_bare k.bare_right id).trans hdefined
            rw [Container.obtain_refused k.at_right hdefines' hcached' hsame]
            exact .error ((Coupling.lockstep s t).refl k) ⟨rfl, rfl⟩ fun hhalt => by cases hhalt
          · exact .waived _ hstrict

/-- **Calls that follow a name** are coupled, at every depth of nesting. -/
theorem Pair.call_couples (n : Nat) : (∀ less < n, t.Fuel less) → ∀ {m : Nat},
    (t.strict → n = m) → ∀ (k : Pair s t) {call : Call}, Call.Names s.home call →
      s.need (t.rightChain ++ k.chain) + 2 ≤ m →
      (∀ id, s.origin.aim call = some id → t.Safe (t.leftChain ++ k.chain) id) →
        k.Couples (Pair.Gives call) (Call.run n call) (Call.run m call) := by
  induction n using Nat.strong_induction_on with
  | _ n ih =>
    intro hn m hfuel k call hnames hneed hsafe
    cases hnames.course sound.hosts sound.orderly with
    | fails error haim hrun =>
        obtain ⟨m, rfl⟩ : ∃ less, m = less + 1 := ⟨m - 1, by omega⟩
        cases n with
        | zero =>
            refine Pair.unfinished (fun hstrict => ?_) ⟨_, _, rfl⟩
            have hsame := hfuel hstrict
            omega
        | succ n =>
            rintro world world' ⟨rfl, rfl⟩
            rw [hrun k.at_left k.bare_left, hrun k.at_right k.bare_right]
            exact .error ((Coupling.lockstep s t).refl k) ⟨rfl, rfl⟩ fun hhalt => by cases hhalt
    | @obtains id delay hdelay haim hdefined hrun hshort =>
        obtain ⟨m, rfl⟩ : ∃ less, m = less + delay + 1 := ⟨m - delay - 1, by omega⟩
        by_cases hless : n ≤ delay
        · refine Pair.unfinished (fun hstrict => ?_) ⟨_, _, hshort k.at_left k.bare_left n hless⟩
          have hsame := hfuel hstrict
          omega
        · obtain ⟨n, rfl⟩ : ∃ less, n = less + delay + 1 := ⟨n - delay - 1, by omega⟩
          have hn' : t.Fuel n := hn n (by omega)
          have hfuel' : t.strict → n = m := fun hstrict => by
            have hsame := hfuel hstrict
            omega
          have hobtain := k.obtain_couples sound rules hn' hfuel'
            (fun j _ hnames => ih n (by omega) (fun less hlt => hn less (by omega)) hfuel' j hnames)
            hdefined
            (by omega) (hsafe id haim)
          rintro world world' ⟨rfl, rfl⟩
          rw [hrun k.at_left k.bare_left, hrun k.at_right k.bare_right]
          refine (hobtain _ _ ⟨rfl, rfl⟩).imp ?_
          rintro j v w _ ⟨hsame, hgained⟩
          refine ⟨hsame, fun other hother => ?_⟩
          obtain rfl := Option.some.inj (haim.symm.trans hother)
          exact hgained

end Calls
end Wiring
