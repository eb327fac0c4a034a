import Wiring.Proofs.Rerunning
import Wiring.Script

/-!
# Tearing down in another order

A reset tears down what was cached. Where any two teardowns commute, but for what they leave in the
journal, so do all of them, and two resets that go through the same services in different orders leave
the same.
-/

namespace Wiring

open Run Container

/-- Alike, but for the order in which things came into the journals. -/
structure World.Similar (K : Container → Container → Prop) (p q : Array Event)
    (world other : World) : Prop where
  store : ∃ events events', world.store.journal = p ++ events ∧
    other.store = { world.store with journal := q ++ events' } ∧ events.toList.Perm events'.toList
  containers : ∀ c, Option.Rel K (world.container? c) (other.container? c)
  code : ∀ body ∈ world.store.code, ∀ c args, (body c args).ResetFree

namespace World

variable {K : Container → Container → Prop} {p q r : Array Event} {world other last : World}

theorem Alike.similar (h : world.Alike K p q other) : world.Similar K p q other where
  store := by
    obtain ⟨events, hjournal, hstore⟩ := h.store
    exact ⟨events, events, hjournal, hstore, .refl _⟩
  containers := h.containers
  code := h.code

/-- What is similar is alike from now on. -/
theorem Similar.alike (h : world.Similar K p q other) :
    world.Alike K world.store.journal other.store.journal other where
  store := by
    obtain ⟨events, events', -, hstore, -⟩ := h.store
    refine ⟨#[], by rw [Array.append_empty], ?_⟩
    rw [Array.append_empty, hstore]
  containers := h.containers
  code := h.code

theorem Similar.after {later later' : World} (h : world.Similar K p q other)
    (hlater : later.Similar K world.store.journal other.store.journal later') :
    later.Similar K p q later' where
  store := by
    obtain ⟨events, events', hjournal, hstore, hperm⟩ := h.store
    obtain ⟨more, more', hmore, hlast, hperm'⟩ := hlater.store
    have hother : other.store.journal = q ++ events' := by
      rw [hstore]
    refine ⟨events ++ more, events' ++ more', ?_, ?_, ?_⟩
    · rw [hmore, hjournal, Array.append_assoc]
    · rw [hlast, hother, Array.append_assoc]
    · rw [Array.toList_append, Array.toList_append]
      exact hperm.append hperm'
  containers := hlater.containers
  code := hlater.code

theorem eq_of_sameMachine {c : ContainerRef}
    (h : Option.Rel SameMachine (world.container? c) (other.container? c)) :
    world.container? c = other.container? c := by
  generalize world.container? c = left, other.container? c = right at h
  cases h with
  | none => rfl
  | some hsame => rw [hsame.1]

theorem Similar.trans (h : world.Similar K p q other) (hlast : other.Similar SameMachine q r last) :
    world.Similar K p r last where
  store := by
    obtain ⟨events, events', hjournal, hstore, hperm⟩ := h.store
    obtain ⟨found, found', hfound, hend, hperm'⟩ := hlast.store
    have hsame : events' = found := by
      rw [hstore] at hfound
      exact (Array.append_right_inj q).mp hfound
    refine ⟨events, found', hjournal, ?_, hperm.trans (hsame ▸ hperm')⟩
    rw [hend, hstore]
  containers c := by
    rw [← eq_of_sameMachine (hlast.containers c)]
    exact h.containers c
  code := h.code

theorem Similar.symm (h : world.Similar SameMachine p q other) :
    other.Similar SameMachine q p world where
  store := by
    obtain ⟨events, events', hjournal, hstore, hperm⟩ := h.store
    refine ⟨events', events, by rw [hstore], ?_, hperm.symm⟩
    rw [hstore, ← hjournal]
  containers c := by
    have hequal := eq_of_sameMachine (h.containers c)
    have hsame := h.containers c
    rw [hequal] at hsame
    rw [hequal]
    exact hsame
  code := by
    obtain ⟨events, events', -, hstore, -⟩ := h.store
    rw [hstore]
    exact h.code

theorem Similar.self (h : world.Similar SameMachine p q other) :
    world.Similar SameMachine p p world := h.trans h.symm

end World

namespace Run

variable {α : Type} {side : Side} {K : Container → Container → Prop} {p q : Array Event}

/-- What matches whatever the journals began with matches whatever their order. -/
theorem Matches.similar {run other : Run α}
    (h : ∀ p q, Matches side (World.Alike K p q) run other) :
    Matches side (World.Similar K p q) run other := by
  intro world world' hworlds hends
  obtain ⟨hsame, hworlds'⟩ := h _ _ world world' hworlds.alike hends
  exact ⟨hsame, hworlds.after hworlds'.similar⟩

/-- Where one similar run may stand for another, a third is matched through it. -/
theorem Matches.through {run other last : Run α}
    (hrun : Matches side (World.Similar K p q) run other)
    (hthere : Matches .left (World.Similar SameMachine q q) other last)
    (hback : Matches .left (World.Similar SameMachine q q) last other)
    (hself : ∀ world world', World.Similar K p q world world' →
      World.Similar SameMachine q q world' world') :
    Matches side (World.Similar K p q) run last := by
  intro world world' hworlds hends
  have hsame := hself world world' hworlds
  cases side with
  | left =>
      obtain ⟨hfirst, hworlds'⟩ := hrun world world' hworlds hends
      have hother : other.Ends world' := fun hgiven => hends (hfirst.trans hgiven)
      obtain ⟨hsecond, hlast⟩ := hthere world' world' hsame hother
      exact ⟨hfirst.trans hsecond, hworlds'.trans hlast⟩
  | right =>
      obtain ⟨hsecond, hlast⟩ := hback world' world' hsame hends
      have hother : other.Ends world' := fun hgiven => hends (hsecond.trans hgiven)
      obtain ⟨hfirst, hworlds'⟩ := hrun world world' hworlds hother
      exact ⟨hfirst.trans hsecond.symm, hworlds'.trans hlast.symm⟩

theorem Matches.trans {run other last : Run α}
    (hrun : Matches .left (World.Similar SameMachine p p) run other)
    (hlast : Matches .left (World.Similar SameMachine p p) other last) :
    Matches .left (World.Similar SameMachine p p) run last := by
  intro world world' hworlds hends
  obtain ⟨hfirst, hsimilar⟩ := hrun world world hworlds.self hends
  have hother : other.Ends world := fun hgiven => hends (hfirst.trans hgiven)
  obtain ⟨hsecond, hsimilar'⟩ := hlast world world' hworlds hother
  exact ⟨hfirst.trans hsecond, hsimilar.trans hsimilar'⟩

end Run

/-- The same but for the order of the journal. -/
def Store.Shuffled (store other : Store) : Prop :=
  ∃ journal, other = { store with journal } ∧ store.journal.toList.Perm journal.toList

def World.Shuffled (world other : World) : Prop :=
  world.store.Shuffled other.store ∧ other.containers = world.containers

def Call.tearDownAll (depth : Nat) (catalog : Catalog) (services : List Value) : Run Unit :=
  services.forM (tearDown (run depth) catalog)

/-- Which of two services is torn down first shows in the order of the journal at most. -/
def Catalog.TeardownsCommute (catalog : Catalog) : Prop :=
  ∀ (depth : Nat) (first second : Value) (world : World),
    (Call.tearDownAll depth catalog [first, second]).Ends world →
      (Call.tearDownAll depth catalog [first, second] world).1 =
          (Call.tearDownAll depth catalog [second, first] world).1 ∧
        (Call.tearDownAll depth catalog [first, second] world).2.Shuffled
          (Call.tearDownAll depth catalog [second, first] world).2

theorem World.Similar.of_shuffled {p : Array Event} {world other : World}
    (h : world.Similar SameMachine p p world) (hother : other.Similar SameMachine p p other)
    (hshuffled : world.Shuffled other) : world.Similar SameMachine p p other where
  store := by
    obtain ⟨⟨journal, hstore, hperm⟩, -⟩ := hshuffled
    obtain ⟨events, -, hjournal, -, -⟩ := h.store
    obtain ⟨events', -, hjournal', -, -⟩ := hother.store
    have hlater : journal = p ++ events' := by
      rw [← hjournal', hstore]
    refine ⟨events, events', hjournal, by rw [hstore, hlater], ?_⟩
    rw [hjournal, hlater, Array.toList_append, Array.toList_append] at hperm
    exact (List.perm_append_left_iff _).mp hperm
  containers c := by
    have hsame : other.container? c = world.container? c := by
      rw [container?, container?, hshuffled.2]
    rw [hsame]
    exact h.containers c
  code := h.code

theorem World.Similar.shuffled {K : Container → Container → Prop} {p : Array Event}
    {world other : World} (h : world.Similar K p p other) : world.store.Shuffled other.store := by
  obtain ⟨events, events', hjournal, hstore, hperm⟩ := h.store
  refine ⟨p ++ events', hstore, ?_⟩
  rw [hjournal, Array.toList_append, Array.toList_append]
  exact hperm.append_left _

namespace Call

variable {catalog : Catalog} {depth : Nat} {p : Array Event}

theorem tearDownAll_append (services others : List Value) :
    tearDownAll depth catalog (services ++ others) =
      tearDownAll depth catalog services >>= fun _ => tearDownAll depth catalog others :=
  List.forM_append

theorem tearDown_self (hfree : catalog.ResetFree) (service : Value) :
    Matches .left (World.Similar SameMachine p p) (tearDown (run depth) catalog service)
      (tearDown (run depth) catalog service) :=
  .similar fun p q => matches_tearDown congruent_sameMachine
    (Machine.run_reruns p q (Nat.le_refl depth)).asked hfree service

theorem tearDownAll_self (hfree : catalog.ResetFree) (services : List Value) :
    Matches .left (World.Similar SameMachine p p) (tearDownAll depth catalog services)
      (tearDownAll depth catalog services) :=
  .forM fun service _ => tearDown_self hfree service

theorem tearDownAll_swap (hfree : catalog.ResetFree) (commute : catalog.TeardownsCommute)
    (first second : Value) :
    Matches .left (World.Similar SameMachine p p) (tearDownAll depth catalog [first, second])
      (tearDownAll depth catalog [second, first]) := by
  intro world world' hworlds hends
  obtain ⟨hsame, hshuffled⟩ := commute depth first second world hends
  have hends' : (tearDownAll depth catalog [second, first]).Ends world := fun hgiven =>
    hends (hsame.trans hgiven)
  have hhere := (tearDownAll_self hfree [first, second] world world hworlds.self hends).2
  have hthere := (tearDownAll_self hfree [second, first] world world hworlds.self hends').2
  obtain ⟨hsame', hlater⟩ := tearDownAll_self hfree [second, first] world world' hworlds hends'
  exact ⟨hsame.trans hsame', (World.Similar.of_shuffled hhere hthere hshuffled).trans hlater⟩

/-- **Any order.** Commuting teardowns may be run in any order. -/
theorem tearDownAll_perm (hfree : catalog.ResetFree) (commute : catalog.TeardownsCommute)
    {services others : List Value} (hperm : services.Perm others) :
    Matches .left (World.Similar SameMachine p p) (tearDownAll depth catalog services)
      (tearDownAll depth catalog others) := by
  induction hperm with
  | nil => exact .pure _
  | cons service _ ih => exact Matches.bind (tearDown_self hfree service) fun _ => ih
  | swap first second rest =>
      have hboth : Matches .left (World.Similar SameMachine p p)
          (tearDownAll depth catalog [second, first]) (tearDownAll depth catalog [first, second]) :=
        tearDownAll_swap hfree commute second first
      have hrest : Matches .left (World.Similar SameMachine p p) (tearDownAll depth catalog rest)
          (tearDownAll depth catalog rest) := tearDownAll_self hfree rest
      have h := hboth.bind fun _ => hrest
      rwa [← tearDownAll_append, ← tearDownAll_append] at h
  | trans _ _ ih ih' => exact ih.trans ih'

theorem sweep_perm (hfree : catalog.ResetFree) (commute : catalog.TeardownsCommute)
    (c : ContainerRef) {services others : List Value} (hperm : services.Perm others) :
    Matches .left (World.Similar SameMachine p p) (sweep (run depth) c catalog services)
      (sweep (run depth) c catalog others) := by
  refine Matches.bind (.similar fun _ _ => .changeContainer fun _ _ =>
    congruent_sameMachine.clearCache) fun _ => ?_
  refine Matches.bind (tearDownAll_perm hfree commute hperm) fun _ => ?_
  exact .similar fun _ _ => .changeContainer fun _ _ => congruent_sameMachine.clearRuntimeState

end Call

/-! ### Scripted teardowns -/

namespace Store

variable (store : Store) (label label' : String) (o o' : ObjectRef)

/-- The note that a scripted teardown leaves. -/
def parting : Event :=
  .noted (.teardown label o.className
    ((((store.properties o).get? "name").map Value.toJson).getD .null))

/-- What a scripted teardown makes of the store. -/
def part : Store := (store.record (store.parting label o)).setProperty o "torn" (.bool true)

/-- A teardown changes nobody's name. -/
theorem parting_part : (store.part label o).parting label' o' = store.parting label' o' := by
  have hname : ((store.part label o).properties o').get? "name" =
      (store.properties o').get? "name" := by
    change (((store.objects.modify o.address (·.insert "torn" (.bool true)))[o'.address]?).getD
      ∅).get? "name" = _
    rw [Array.getElem?_modify, properties]
    split
    · cases store.objects[o'.address]? with
      | none => rfl
      | some properties =>
          change (properties.insert "torn" (.bool true)).get? "name" = properties.get? "name"
          rw [Dict.get?_insert]
          exact if_neg (by decide)
    · rfl
  rw [parting, parting, hname]

/-- Two scripted teardowns may change places. -/
theorem part_part : ((store.part label o).part label' o').Shuffled
    ((store.part label' o').part label o) := by
  have hobjects : ((store.part label o).part label' o').objects =
      ((store.part label' o').part label o).objects := by
    change (store.objects.modify o.address (·.insert "torn" (.bool true))).modify o'.address
      (·.insert "torn" (.bool true)) = (store.objects.modify o'.address
        (·.insert "torn" (.bool true))).modify o.address (·.insert "torn" (.bool true))
    apply Array.ext_getElem?
    intro address
    simp only [Array.getElem?_modify]
    split <;> split <;> rfl
  refine ⟨((store.part label' o').part label o).journal, ?_, ?_⟩
  · rw [hobjects]
    rfl
  · change ((store.journal.push _).push ((store.part label o).parting label' o')).toList.Perm
      ((store.journal.push _).push ((store.part label' o').parting label o)).toList
    rw [parting_part, parting_part, Array.toList_push, Array.toList_push, Array.toList_push,
      Array.toList_push, List.append_assoc, List.append_assoc]
    exact (List.Perm.swap _ _ []).append_left _

/-- What tearing down one service makes of a store, where teardowns are scripted. -/
inductive Parting : (Store → Store) → Prop
  | none : Parting id
  | scripted (label : String) (o : ObjectRef) : Parting fun store => store.part label o

theorem Parting.shuffled {f g : Store → Store} (hf : Parting f) (hg : Parting g) :
    (g (f store)).Shuffled (f (g store)) := by
  cases hf with
  | none => exact ⟨_, rfl, .refl _⟩
  | scripted label o =>
      cases hg with
      | none => exact ⟨_, rfl, .refl _⟩
      | scripted label' o' => exact store.part_part label label' o o'

end Store

theorem Script.resetFree_teardown (label : String) (o : ObjectRef) :
    (Script.teardown label o).ResetFree :=
  ⟨fun h => h, fun _ => ⟨fun h => h, fun _ => ⟨fun h => h, fun _ => trivial⟩⟩⟩

/-- Every teardown that the catalog declares is scripted. -/
def Catalog.TeardownsScripted (catalog : Catalog) : Prop :=
  ∀ o teardown, catalog.teardown? o = some teardown → ∃ label, teardown = Script.teardown label o

theorem Call.tearDown_scripted {catalog : Catalog} (hscripted : catalog.TeardownsScripted)
    (service : Value) :
    ∃ f, Store.Parting f ∧ ∀ recur world, tearDown recur catalog service world =
      (.ok (), { world with store := f world.store }) := by
  cases hteardown : service.object?.bind catalog.teardown? with
  | none =>
      refine ⟨id, .none, fun recur world => ?_⟩
      rw [tearDown, hteardown]
      rfl
  | some teardown =>
      obtain ⟨o, -, hdeclared⟩ := Option.bind_eq_some_iff.mp hteardown
      obtain ⟨label, rfl⟩ := hscripted o teardown hdeclared
      refine ⟨_, .scripted label o, fun recur world => ?_⟩
      rw [tearDown, hteardown]
      rfl

theorem Catalog.TeardownsScripted.commute {catalog : Catalog}
    (hscripted : catalog.TeardownsScripted) : catalog.TeardownsCommute := by
  intro depth first second world _
  obtain ⟨f, hf, hfirst⟩ := Call.tearDown_scripted hscripted first
  obtain ⟨g, hg, hsecond⟩ := Call.tearDown_scripted hscripted second
  have hleft : Call.tearDownAll depth catalog [first, second] world =
      (.ok (), { world with store := g (f world.store) }) := by
    rw [Call.tearDownAll, List.forM_eq_forM, List.forM_cons, bind_of_ok (hfirst _ world),
      List.forM_cons, bind_of_ok (hsecond _ _)]
    rfl
  have hright : Call.tearDownAll depth catalog [second, first] world =
      (.ok (), { world with store := f (g world.store) }) := by
    rw [Call.tearDownAll, List.forM_eq_forM, List.forM_cons, bind_of_ok (hsecond _ world),
      List.forM_cons, bind_of_ok (hfirst _ _)]
    rfl
  rw [hleft, hright]
  exact ⟨rfl, hf.shuffled world.store hg, rfl⟩

end Wiring
