import Mathlib.Data.Finset.Card
import Wiring.Proofs.Warming

/-!
# Resolution order does not matter

Where user code is pure, what a name gives does not depend on what was asked for before. The proof goes
by what is not cached yet. If nothing new can be cached at all, earlier calls leave no trace. If something
can, it takes a container that is ahead by the service that is cached with the least effort, and that
answers like the one in question, whatever was asked for before and if nothing was.
-/

namespace Wiring

/-- **Outcomes that cannot be told apart**: equal errors, or values in whose place the same objects and
handles stand, with like contents. What is known from the start stands for itself. -/
inductive Run.Isomorphic (known : Correspondence) :
    Except Halt Value × World → Except Halt Value × World → Prop
  | error (error : Error) (world world' : World) :
      Isomorphic known (.error (.error error), world) (.error (.error error), world')
  | ok {R : Correspondence} {v w : Value} {world world' : World} (hbijective : R.Bijective)
      (hknown : known ≤ R) (hstores : world.store.Alike R world'.store) (hsame : v.Alike R w) :
      Isomorphic known (.ok v, world) (.ok w, world')

namespace Run.Isomorphic

variable {known : Correspondence} {answer other third : Except Halt Value × World}

theorem symm (hfixed : known ≤ .same) (h : Isomorphic known answer other) :
    Isomorphic known other answer := by
  cases h with
  | error error world world' => exact .error error world' world
  | ok hbijective hknown hstores hsame =>
      refine .ok hbijective.flip (fun space x y hxy => ?_) hstores.flip hsame.flip
      obtain rfl := hfixed space x y hxy
      exact hknown space x x hxy

theorem trans (hfixed : known ≤ .same) (h : Isomorphic known answer other)
    (h' : Isomorphic known other third) : Isomorphic known answer third := by
  cases h with
  | error error world world' =>
      cases h' with
      | error _ _ world'' => exact .error error world world''
  | ok hbijective hknown hstores hsame =>
      cases h' with
      | ok hbijective' hknown' hstores' hsame' =>
          refine .ok (hbijective.comp hbijective') (fun space x y hxy => ?_)
            (hstores.comp hstores') (hsame.comp hsame')
          obtain rfl := hfixed space x y hxy
          exact ⟨x, hknown space x x hxy, hknown' space x x hxy⟩

end Run.Isomorphic

/-- The world after the calls, whatever became of them. -/
def World.visit (depth : Nat) (calls : List Call) (world : World) : World :=
  calls.foldl (fun world call => (Call.run depth call world).2) world

section Asking

variable {s : Setting} {t : Terms} (sound : s.Sound) (rules : t.Rules s) (hstrict : t.strict)
  (hfuel : ∀ n, t.Fuel n) (hsafe : ∀ id, t.Safe t.leftChain id) {depth : Nat}
  (hdepth : s.need t.rightChain + 2 ≤ depth)

include sound rules hfuel hsafe hdepth

theorem Pair.asked_couples (k : Pair s t) (hchain : k.chain = []) {call : Call}
    (hnames : Call.Names s.home call) :
    k.Couples Pair.Same (Call.run depth call) (Call.run depth call) := by
  have hcalled : k.Couples (Pair.Gives call) (Call.run depth call) (Call.run depth call) := by
    refine k.call_couples sound rules depth (fun less _ => hfuel less) (fun _ => rfl) hnames ?_ ?_
    · rw [hchain, List.append_nil]
      exact hdepth
    · intro id _
      rw [hchain, List.append_nil]
      exact hsafe id
  exact hcalled.imp fun _ _ _ _ hgives => hgives.1

include hstrict

/-- **Calls from outside** leave the two containers related, one after the other. -/
theorem Pair.visits (k : Pair s t) (hchain : k.chain = []) {calls : List Call}
    (hcalls : ∀ call ∈ calls, Call.Names s.home call) :
    ∃ j : Pair s t, j.chain = [] ∧ j.world = k.world.visit depth calls ∧
      j.world' = k.world'.visit depth calls := by
  induction calls generalizing k with
  | nil => exact ⟨k, hchain, rfl, rfl⟩
  | cons call rest ih =>
      have hends := k.asked_couples sound rules hfuel hsafe hdepth hchain
        (hcalls call List.mem_cons_self) _ _ ⟨rfl, rfl⟩
      obtain ⟨i, hleads, hworld, hworld'⟩ := hends.worlds hstrict
      obtain ⟨j, hempty, hvisited, hvisited'⟩ := ih i (hleads.2.trans hchain)
        fun other hother => hcalls other (List.mem_cons_of_mem _ hother)
      refine ⟨j, hempty, hvisited.trans ?_, hvisited'.trans ?_⟩
      · rw [← hworld]
        rfl
      · rw [← hworld']
        rfl

theorem Pair.isomorphic (k : Pair s t) (hchain : k.chain = []) {query : Call}
    (hquery : Call.Names s.home query) :
    Run.Isomorphic s.known (Call.run depth query k.world) (Call.run depth query k.world') := by
  have hends := k.asked_couples sound rules hfuel hsafe hdepth hchain hquery _ _ ⟨rfl, rfl⟩
  generalize Call.run depth query k.world = answer, Call.run depth query k.world' = answer' at hends
  cases hends with
  | @ok j v w _ _ _ hworlds hsame =>
      obtain ⟨rfl, rfl⟩ := hworlds
      exact .ok j.heap.bijective (j.known_le rules.toGrounded) j.heap.alike hsame
  | @error j halt _ _ _ _ hhalt =>
      cases halt with
      | error error => exact .error error _ _
      | unfinished => exact (hhalt rfl).elim
  | waived _ hlax => exact absurd hstrict hlax

end Asking

namespace Setting

variable {s : Setting}

/-- A container at rest, and which addresses its services may refer to. -/
structure Rest (s : Setting) (P : Correspondence) (world : World) (x : Container) : Prop where
  found : world.container? s.home = some x
  bare : x.bare = s.origin.bare
  idle : x.loading = []
  code : world.store.code = s.code
  known : s.known ≤ P
  fixed : P ≤ .same
  alike : world.store.Alike P world.store
  cached : ∀ {id : String} {v : Value}, x.cached? id = some v → v.Alike P v

/-- The definitions whose services are not cached. -/
def missing (s : Setting) (x : Container) : Finset String :=
  s.registry.definitions.keys.toFinset.filter fun id => (x.cached? id).isNone

theorem Gains.missing_ssubset {a b : Container} {id : String} {v : Value} (h : s.Gains a id v b)
    (hid : id ∈ s.registry.definitions.keys) (hnew : a.cached? id = none) :
    s.missing b ⊂ s.missing a := by
  have hsubset : s.missing b ⊆ s.missing a := by
    intro other hother
    obtain ⟨hdefined, hmissing⟩ := Finset.mem_filter.mp hother
    refine Finset.mem_filter.mpr ⟨hdefined, ?_⟩
    rw [h.cached] at hmissing
    split at hmissing
    · cases hmissing
    · exact hmissing
  refine (Finset.ssubset_iff_of_subset hsubset).mpr ⟨id, ?_, fun hmissing => ?_⟩
  · refine Finset.mem_filter.mpr ⟨List.mem_toFinset.mpr hid, ?_⟩
    rw [hnew]
    rfl
  · have hheld := (Finset.mem_filter.mp hmissing).2
    rw [h.cached, if_pos rfl] at hheld
    cases hheld

section Rest

variable {P : Correspondence} {world : World} {x : Container} (rest : s.Rest P world x)

include rest

theorem Rest.since : s.Since world.store (fun id => x.cached? id) world x where
  found := rest.found
  bare := rest.bare
  proper := rest.idle ▸ Setting.proper_nil
  cached _ := rfl
  store := .refl _

variable (sound : s.Sound)

include sound

/-- **The next service.** What the first new service needs is ready, and the container that has cached it is
at rest again. -/
theorem Rest.next {n : Nat} {id : String} {v : Value} {first later : World} {a : Container}
    (birth : s.Birth world.store (fun id => x.cached? id) n id v first a later) :
    ∃ P' y, s.Rest P' (later.put s.home y) y ∧ s.Gains x id v y ∧
      world.store.Extends later.store ∧
        ∀ next, s.Edge id next → s.Ready (fun id => x.cached? id) next := by
  let q : Quiet :=
    { floor := P, base := world.store, given := fun id => x.cached? id, world := first
      world' := first, a, b := a, strict := False, Safe := fun _ => True }
  have hcode : first.store.code = s.code := birth.since.store.code.trans rest.code
  have quiet : q.Sound s :=
    { since := birth.since
      found := birth.since.found
      bare := birth.since.bare
      proper := birth.since.proper
      known := rest.known
      bijective := Correspondence.bijective_of_le_same rest.fixed
      alike := rest.alike.extend birth.since.store birth.since.store
      code := hcode
      code' := hcode
      kept := fun {one u} hheld => ⟨u, (birth.since.cached one).trans hheld, rest.cached hheld⟩
      enters := fun _ hmem => hmem
      next := fun _ _ _ => trivial
      same := False.elim }
  have hnew : a.cached? id = none := (birth.since.cached id).trans birth.new
  have hdefined : a.defines id := (Container.defines_of_bare birth.since.bare id).trans birth.defined
  obtain ⟨henter, -⟩ := Container.made_of_obtain birth.since.found hdefined hnew birth.made
  have hfresh : id ∉ a.loading := (Chain.enter_eq_ok_iff.mp henter).1
  obtain ⟨R, w, last, b, _, retraced⟩ := Quiet.retrace (q := q) sound quiet
    (fun hstrict => hstrict) birth hfresh hnew (le_refl _) fun _ _ => trivial
  have hheap : Heap P first.store first.store R later.store last.store := retraced.heap
  have hP : P ≤ R.domain := Correspondence.le_domain rest.fixed hheap.floor
  have hcached : ∀ other, (b.setLoading []).cached? other =
      if other = id then some v else x.cached? other := by
    intro other
    have hkept : a.cached? other = x.cached? other := birth.since.cached other
    rw [Container.cached?_setLoading, ← hkept]
    exact retraced.gains.cached other
  have hbare : (b.setLoading []).bare = s.origin.bare :=
    (Container.bare_setLoading _ _).trans retraced.gains.bare
  refine ⟨R.domain, b.setLoading [], ?_, ?_, birth.since.store.trans hheap.left, retraced.ready⟩
  · refine ⟨World.container?_put_self _ _ _ _ retraced.left, hbare, Container.loading_setLoading _ _,
      hheap.left.code.trans hcode, rest.known.trans hP, Correspondence.domain_le_same R,
      hheap.alike.domain hheap.bijective, fun {one u} hheld => ?_⟩
    rw [hcached] at hheld
    split at hheld
    · obtain rfl := Option.some.inj hheld
      exact retraced.same.domain hheap.bijective
    · exact (rest.cached hheld).mono hP
  · exact ⟨hbare, (Container.loading_setLoading _ _).trans rest.idle.symm, hcached⟩

omit rest sound in
/-- **A container that is ahead** by one service answers alike, whatever was asked for before. -/
theorem Rest.isomorphic_ahead (sound : s.Sound) (rest : s.Rest P world x) {P' : Correspondence}
    {n : Nat} {id : String} {v : Value} {first later : World} {a y : Container}
    (birth : s.Birth world.store (fun id => x.cached? id) n id v first a later)
    (next : s.Rest P' (later.put s.home y) y) (gains : s.Gains x id v y)
    (grown : world.store.Extends later.store)
    (ready : ∀ next, s.Edge id next → s.Ready (fun id => x.cached? id) next)
    {depth : Nat} (hdepth : s.need [] + 2 ≤ depth) {calls : List Call}
    (hcalls : ∀ call ∈ calls, Call.Names s.home call) {query : Call}
    (hquery : Call.Names s.home query) :
    Run.Isomorphic s.known (Call.run depth query (world.visit depth calls))
      (Call.run depth query ((later.put s.home y).visit depth calls)) := by
  let w : Warming :=
    { floor := P, store := world.store, given := fun id => x.cached? id, id, service := v
      warm := later.store }
  have warming : w.Sound s :=
    { birth := ⟨n, first, a, later, birth, rfl⟩
      grown, ready
      known := rest.known
      fixed := rest.fixed
      alike := rest.alike
      code := rest.code
      kept := rest.cached }
  have held : w.Held P x y :=
    { kept := fun hheld => hheld
      others := fun {one} hother => by
        rw [gains.cached, if_neg hother]
        cases hheld : x.cached? one with
        | none => exact .none
        | some u => exact .some (rest.cached hheld)
      warm := by
        rw [gains.cached, if_pos rfl]
      behind := .inl ⟨birth.new, le_sup_left⟩ }
  let k : Pair s (w.terms s) :=
    { refs := P
      world
      world' := later.put s.home y
      a := x
      b := y
      chain := []
      at_left := rest.found
      at_right := next.found
      bare_left := rest.bare
      bare_right := next.bare
      loading_left := rest.idle
      loading_right := next.idle
      proper_left := Setting.proper_nil
      proper_right := Setting.proper_nil
      heap := .start warming.bijective (rest.alike.extend (.refl _) grown)
      held }
  have rules := warming.rules sound
  have hsafe : ∀ one, (w.terms s).Safe [] one := fun one =>
    ⟨List.not_mem_nil, .inr fun other hother => absurd hother List.not_mem_nil⟩
  obtain ⟨j, hchain, hvisited, hvisited'⟩ := k.visits sound rules trivial (fun _ => trivial) hsafe
    hdepth rfl hcalls
  rw [← show j.world = world.visit depth calls from hvisited,
    ← show j.world' = (later.put s.home y).visit depth calls from hvisited']
  exact j.isomorphic sound rules trivial (fun _ => trivial) hsafe hdepth hchain hquery

variable {depth : Nat} (hdepth : s.need [] + 2 ≤ depth) {calls : List Call}
  (hcalls : ∀ call ∈ calls, Call.Names s.home call) {query : Call}
  (hquery : Call.Names s.home query)

include sound hdepth hcalls hquery

/-- Where nothing new can be cached, calls leave no trace. -/
theorem Rest.isomorphic_of_barren
    (barren : ∀ n, s.Barren world.store (fun id => x.cached? id) n) :
    Run.Isomorphic s.known (Call.run depth query (world.visit depth calls))
      (Call.run depth query world) := by
  let q : Quiet :=
    { floor := P, base := world.store, given := fun id => x.cached? id, world, world' := world, a := x
      b := x, strict := True, Safe := fun _ => True }
  have quiet : q.Sound s :=
    { since := rest.since
      found := rest.found
      bare := rest.bare
      proper := rest.since.proper
      known := rest.known
      bijective := Correspondence.bijective_of_le_same rest.fixed
      alike := rest.alike
      code := rest.code
      code' := rest.code
      kept := fun {id v} hheld => ⟨v, hheld, rest.cached hheld⟩
      enters := fun _ hmem => hmem
      next := fun _ _ _ => trivial
      same := fun _ => ⟨rfl, fun _ => rfl⟩ }
  have hneed : s.need x.loading + 2 ≤ depth := by
    rw [rest.idle]
    exact hdepth
  obtain ⟨j, hchain, hvisited, -⟩ := quiet.start.visits sound quiet.rules trivial barren
    (fun _ => trivial) hneed rfl hcalls
  have hloading : j.a.loading = x.loading := by
    rw [j.loading_left, hchain, List.append_nil]
    rfl
  let p : Quiet := { q with world := j.world, a := j.a }
  have later : p.Sound s :=
    { quiet with
      since := quiet.later j
      alike := rest.alike.extend j.heap.left (.refl _)
      code := j.heap.left.code.trans rest.code
      enters := fun _ hmem => hloading.symm ▸ hmem
      same := fun _ => ⟨hloading, fun _ => rfl⟩ }
  have hsame := later.start.isomorphic sound later.rules trivial barren (fun _ => trivial) hneed rfl
    hquery
  rw [← show j.world = world.visit depth calls from hvisited]
  exact hsame

omit rest in
/-- **Calls do not change what a later one gives**, by induction on what is not cached yet. -/
theorem Rest.isomorphic {P : Correspondence} {world : World} {x : Container}
    (rest : s.Rest P world x) :
    Run.Isomorphic s.known (Call.run depth query (world.visit depth calls))
      (Call.run depth query world) := by
  induction hmissing : s.missing x using Finset.strongInduction generalizing P world x with
  | _ missing ih =>
    subst hmissing
    rcases Setting.barren_or_birth (s := s) world.store (fun id => x.cached? id) with
      barren | ⟨n, id, v, first, a, later, birth⟩
    · exact rest.isomorphic_of_barren sound hdepth hcalls hquery barren
    · obtain ⟨P', y, next, gains, grown, ready⟩ := rest.next sound birth
      have hfixed : s.known ≤ .same := rest.known.trans rest.fixed
      have hfewer := gains.missing_ssubset (sound.defines_iff.mp birth.defined) birth.new
      have hwarmed := rest.isomorphic_ahead sound birth next gains grown ready hdepth hcalls hquery
      have hnext := ih _ hfewer next rfl
      have hnone : ∀ call ∈ ([] : List Call), Call.Names s.home call := fun _ hcall =>
        absurd hcall List.not_mem_nil
      have hfresh := rest.isomorphic_ahead sound birth next gains grown ready hdepth hnone hquery
      exact (hwarmed.trans hfixed hnext).trans hfixed (hfresh.symm hfixed)

end Rest

end Setting

namespace Registry

variable {registry : Registry} {config : Config} {container : Container} {store : Store}

theorem Starts.cached?_eq (h : registry.Starts config container) (id : String) :
    container.cached? id = none := by
  have hempty : container.clearCache = container := by cases h <;> rfl
  rw [← hempty]
  exact container.cached?_clearCache id

/-- The registry and the store refer to what is in the store. -/
structure Rooted (registry : Registry) (store : Store) : Prop where
  contents : store.Alike store.addresses store
  parameter : ∀ {name : String} {v : Value},
    registry.parameter name = .ok v → v.Alike store.addresses v
  literals : ∀ {id : String} {definition : Definition},
    registry.definition? id = some definition → ∀ v ∈ definition.literals,
      v.Alike store.addresses v

/-- **Resolution order does not matter.** Take a registry in which no alias has the id of a definition, and
in which members are bound only where a class is constructed, and pure user code. On a new container of
either kind, a name that is looked up gives the same outcome if others were looked up before, and whether
they were found or not. -/
theorem outcomes_isomorphic (reachable : registry.Reachable)
    (free : ∀ id, registry.contains id → registry.aliases.target? id = none)
    (hmaxDepth : registry.definitions.size ≤ config.maxDepth)
    (members : ∀ {id : String} {definition : Definition},
      registry.definition? id = some definition → definition.BindsConstructed)
    (hstart : registry.Starts config container) (rooted : registry.Rooted store)
    (pure : registry.Pure store.addresses store.code) {depth : Nat}
    (hdepth : 2 * registry.definitions.size + 2 ≤ depth) (earlier : List (Bool × String))
    (isPublic : Bool) (name : String) :
    Run.Isomorphic store.addresses
      (Call.run depth (.locate isPublic ⟨0⟩ name {}) ((World.alone store container).visit depth
        (earlier.map fun look => .locate look.1 ⟨0⟩ look.2 {})))
      (Call.run depth (.locate isPublic ⟨0⟩ name {}) (World.alone store container)) := by
  let s : Setting :=
    { registry, config, origin := container, home := ⟨0⟩, known := store.addresses
      code := store.code }
  have sound : s.Sound :=
    { hosts := hstart.hosts
      orderly := hstart.hosts.orderly free reachable.indexed
      pure, members
      depth := hmaxDepth
      parameter := rooted.parameter
      literals := rooted.literals }
  have rest : s.Rest store.addresses (World.alone store container) container :=
    { found := rfl
      bare := rfl
      idle := by cases hstart <;> rfl
      code := rfl
      known := le_refl _
      fixed := fun _ _ _ h => h.1
      alike := rooted.contents
      cached := fun {id v} hheld => by
        rw [hstart.cached?_eq id] at hheld
        cases hheld }
  refine rest.isomorphic sound hdepth (fun call hcall => ?_) (.locate isPublic name)
  obtain ⟨look, -, rfl⟩ := List.mem_map.mp hcall
  exact .locate look.1 look.2

theorem torn_plain {teardown : ObjectRef → Behaviour Unit} {id : String} {definition : Definition}
    (hfound : (torn teardown).definition? id = some definition) :
    definition.decorators = [] ∧ definition.bindings = [] ∧ definition.literals = [] := by
  rcases mem_entries_of_definition hfound with _ | ⟨_, _ | ⟨_, hnone⟩⟩
  · exact ⟨rfl, rfl, rfl⟩
  · exact ⟨rfl, rfl, rfl⟩
  · cases hnone

/-- After `a`, and a name that leads nowhere, the object of `b` is the second one and not the first. -/
theorem torn_outcomes_isomorphic :
    ∃ warmed fresh,
      Call.run 6 (.get ⟨0⟩ "b" {}) ((tornInterpreting (Script.teardown "torn")).visit 6
        [.get ⟨0⟩ "a" {}, .resolve ⟨0⟩ "c" {}]) = (.ok (.object ⟨1, "B"⟩), warmed) ∧
      Call.run 6 (.get ⟨0⟩ "b" {}) (tornInterpreting (Script.teardown "torn")) =
        (.ok (.object ⟨0, "B"⟩), fresh) ∧
      Run.Isomorphic ({} : Store).addresses (.ok (.object ⟨1, "B"⟩), warmed)
        (.ok (.object ⟨0, "B"⟩), fresh) := by
  have rooted : (torn (Script.teardown "torn")).Rooted {} :=
    { contents := ⟨fun h => absurd h.2 (Nat.not_lt_zero _), fun h => absurd h.2 (Nat.not_lt_zero _)⟩
      parameter := fun hfound => by cases hfound
      literals := fun hfound v hv => by
        rw [(torn_plain hfound).2.2] at hv
        cases hv }
  have pure : (torn (Script.teardown "torn")).Pure ({} : Store).addresses #[] :=
    { catalog :=
        { construct := fun hspec hconstruct => by
            rw [(torn_class _ hspec).1] at hconstruct
            cases hconstruct
          method := fun hmethod => by
            obtain ⟨spec, hspec, hnamed⟩ := Option.bind_eq_some_iff.mp hmethod
            rw [(torn_class _ hspec).2.1] at hnamed
            cases hnamed }
      decorators := fun hfound decorator hdecorator => by
        rw [(torn_plain hfound).1] at hdecorator
        cases hdecorator
      code := fun body hbody => by simp at hbody }
  have members : ∀ {id : String} {definition : Definition},
      (torn (Script.teardown "torn")).definition? id = some definition →
        definition.BindsConstructed := by
    intro id definition hfound name value hbinding
    rw [(torn_plain hfound).2.1] at hbinding
    cases hbinding
  have hstart : (torn (Script.teardown "torn")).Starts {}
      (.interpreting (.ofRegistry (torn (Script.teardown "torn")) {} .silent)) := .interpreting .silent
  have hdepth : 2 * (torn (Script.teardown "torn")).definitions.size + 2 ≤ 6 := by decide
  have hisomorphic := outcomes_isomorphic (torn_reachable _) (fun _ _ => rfl) (by decide) members
    hstart rooted pure hdepth [(true, "a"), (false, "c")] true "b"
  exact ⟨_, _, rfl, rfl, hisomorphic⟩

end Registry
end Wiring
