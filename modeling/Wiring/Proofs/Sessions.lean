import Wiring.Proofs.Simulation
import Wiring.Proofs.Teardowns

/-!
# Sessions

Whoever uses a container from outside asks it for one thing after another. An interpreter of a
registry and a machine of the registry's program serve the same sessions: they give the same replies
and leave the same in the journal, except that a reset may go through the services in another order.
-/

namespace Wiring

open Run Container

/-- A request from outside, the reply, and what came into the journal in between. -/
structure Exchange where
  request : Request
  reply : request.Reply
  events : List Event

/-- The order of events is the same too, unless the request is a reset. -/
inductive Exchange.Agrees : Exchange → Exchange → Prop
  | intro (request : Request) (reply : request.Reply) {events others : List Event}
      (hperm : events.Perm others) (horder : ¬ request.Resets → events = others) :
      Agrees ⟨request, reply, events⟩ ⟨request, reply, others⟩

theorem Exchange.Agrees.refl (e : Exchange) : e.Agrees e :=
  .intro e.request e.reply (.refl _) fun _ => rfl

theorem Exchange.Agrees.symm {e other : Exchange} (h : e.Agrees other) : other.Agrees e := by
  obtain ⟨request, reply, hperm, horder⟩ := h
  exact .intro request reply hperm.symm fun hkept => (horder hkept).symm

theorem Exchange.requests_eq {exchanges others : List Exchange}
    (h : List.Forall₂ Agrees exchanges others) :
    exchanges.map request = others.map request := by
  induction h with
  | nil => rfl
  | cons hagree _ ih =>
      obtain ⟨request, reply, -, -⟩ := hagree
      rw [List.map_cons, List.map_cons, ih]

namespace World

/-- The world of one container. -/
def alone (store : Store) (container : Container) : World :=
  { store, containers := #[some container] }

/-- The world answers what was asked for, at some depth of nesting, and becomes `later`. -/
structure Answers (world : World) (e : Exchange) (later : World) : Prop where
  ends : ∃ depth, e.request.perform (Call.run depth) world = (.ok e.reply, later)
  journal : later.store.journal.toList = world.store.journal.toList ++ e.events

theorem Answers.events_of_journal {world later : World} {e : Exchange} {more : Array Event}
    (h : world.Answers e later) (hmore : later.store.journal = world.store.journal ++ more) :
    e.events = more.toList := by
  have hsame : world.store.journal.toList ++ e.events =
      world.store.journal.toList ++ more.toList :=
    calc
      world.store.journal.toList ++ e.events = later.store.journal.toList := h.journal.symm
      _ = (world.store.journal ++ more).toList := by rw [hmore]
      _ = world.store.journal.toList ++ more.toList := Array.toList_append
  exact List.append_cancel_left hsame

theorem Answers.events_eq {world later : World} {request : Request} {reply : request.Reply}
    {events others : List Event} (h : world.Answers ⟨request, reply, events⟩ later)
    (hother : world.Answers ⟨request, reply, others⟩ later) : events = others :=
  List.append_cancel_left (h.journal.symm.trans hother.journal)

/-- The world answers one request after the other. -/
inductive Serves : World → List Exchange → World → Prop
  | done (world : World) : Serves world [] world
  | next {world later last : World} {e : Exchange} {exchanges : List Exchange}
      (hanswer : world.Answers e later) (hrest : later.Serves exchanges last) :
      Serves world (e :: exchanges) last

/-- **Sessions follow their steps.** If related worlds answer alike and remain related, what one of
them serves the other serves as well. -/
theorem Serves.follow {S : World → World → Prop} {exchanges : List Exchange}
    (hstep : ∀ e ∈ exchanges, ∀ world world' later, S world world' → world.Answers e later →
      ∃ other later', world'.Answers other later' ∧ e.Agrees other ∧ S later later')
    {world world' last : World} (h : world.Serves exchanges last) (hworlds : S world world') :
    ∃ others last', world'.Serves others last' ∧ List.Forall₂ Exchange.Agrees exchanges others ∧
      S last last' := by
  induction h generalizing world' with
  | done world => exact ⟨[], world', .done world', .nil, hworlds⟩
  | @next world later last e exchanges hanswer hrest ih =>
      obtain ⟨other, later', hanswer', hagree, hlater⟩ :=
        hstep e List.mem_cons_self world world' later hworlds hanswer
      obtain ⟨others, last', hserves, hagrees, hlast⟩ :=
        ih (fun next hmem => hstep next (List.mem_cons_of_mem _ hmem)) hlater
      exact ⟨other :: others, last', .next hanswer' hserves, .cons hagree hagrees, hlast⟩

section Unique

variable {p : Array Event} {world world' later later' last last' : World}

theorem Answers.unique_of_le {request : Request} {reply reply' : request.Reply}
    {events events' : List Event} (hworlds : world.Similar SameMachine p p world')
    (h : world.Answers ⟨request, reply, events⟩ later)
    (h' : world'.Answers ⟨request, reply', events'⟩ later') {depth depth' : Nat}
    (hle : depth ≤ depth') (hrun : request.perform (Call.run depth) world = (.ok reply, later))
    (hrun' : request.perform (Call.run depth') world' = (.ok reply', later')) :
    reply = reply' ∧ events = events' ∧ later.Similar SameMachine p p later' := by
  have hends : (request.perform (Call.run depth)).Ends world := .of_ok hrun
  obtain ⟨hsame, hlater⟩ := Machine.perform_reruns _ _ hle request world world' hworlds.alike hends
  rw [hrun, hrun'] at hsame hlater
  obtain ⟨more, hmore, hstore⟩ := hlater.store
  have hmore' : later'.store.journal = world'.store.journal ++ more := by
    rw [hstore]
  have hevents : events = more.toList := h.events_of_journal hmore
  have hevents' : events' = more.toList := h'.events_of_journal hmore'
  exact ⟨Except.ok.inj hsame, hevents.trans hevents'.symm, hworlds.after hlater.similar⟩

theorem Answers.unique {e other : Exchange} (hworlds : world.Similar SameMachine p p world')
    (h : world.Answers e later) (h' : world'.Answers other later')
    (hrequest : e.request = other.request) :
    e = other ∧ later.Similar SameMachine p p later' := by
  obtain ⟨request, reply, events⟩ := e
  obtain ⟨request', reply', events'⟩ := other
  obtain rfl : request = request' := hrequest
  obtain ⟨depth, hrun⟩ := h.ends
  obtain ⟨depth', hrun'⟩ := h'.ends
  rcases Nat.le_total depth depth' with hle | hle
  · obtain ⟨rfl, rfl, hlater⟩ := h.unique_of_le hworlds h' hle hrun hrun'
    exact ⟨rfl, hlater⟩
  · obtain ⟨rfl, rfl, hlater⟩ := h'.unique_of_le hworlds.symm h hle hrun' hrun
    exact ⟨rfl, hlater.symm⟩

/-- **A machine serves a session in one way.** -/
theorem Serves.unique {exchanges others : List Exchange}
    (hworlds : world.Similar SameMachine p p world') (h : world.Serves exchanges last)
    (h' : world'.Serves others last')
    (hrequests : exchanges.map Exchange.request = others.map Exchange.request) :
    exchanges = others ∧ last.Similar SameMachine p p last' := by
  induction h generalizing world' others with
  | done world =>
      cases h' with
      | done => exact ⟨rfl, hworlds⟩
      | next hanswer' hrest' => cases hrequests
  | next hanswer hrest ih =>
      cases h' with
      | done => cases hrequests
      | next hanswer' hrest' =>
          obtain ⟨hrequest, hothers⟩ := List.cons.inj hrequests
          obtain ⟨rfl, hlater⟩ := hanswer.unique hworlds hanswer' hrequest
          obtain ⟨rfl, hlast⟩ := ih hlater hrest' hothers
          exact ⟨rfl, hlast⟩

end Unique

end World

namespace Registry

variable {registry : Registry} {config : Config} {program : Program} {side : Side}
  {p q : Array Event} {depth depth' : Nat}

theorem Twins.resetFree {interpreter : Interpreter} {machine : Machine}
    (mirrored : registry.Mirrored config program)
    (twins : registry.Twins program interpreter machine) : machine.ResetFree where
  catalog := by
    rw [twins.catalog]
    exact mirrored.catalog
  decorators := by
    rw [twins.program_eq, mirrored.compiled.routines_eq]
    intro routine hroutine
    obtain ⟨id, hid, rfl⟩ := List.mem_map.mp hroutine
    obtain ⟨definition, hfound⟩ :=
      Option.isSome_iff_exists.mp ((Plan.mem_ids_iff registry config.maxDepth).mp hid)
    rw [linked_eq hfound]
    exact mirrored.decorators hfound

theorem similar_twin (mirrored : registry.Mirrored config program) {world other : World}
    (h : world.Similar (Container.Twins registry program) p q other) :
    other.Similar SameMachine q q other where
  store := by
    obtain ⟨events, events', hjournal, hstore, hperm⟩ := h.store
    exact ⟨events', events', by rw [hstore], by rw [hstore], .refl _⟩
  containers c := by
    rcases h.alike.cases_container c with ⟨-, hright⟩ | ⟨a, b, -, hright, hrelated⟩
    · rw [hright]
      exact .none
    · obtain ⟨interpreter, machine, -, rfl, twins⟩ := hrelated
      rw [hright]
      exact .some ⟨rfl, machine, rfl, twins.resetFree mirrored⟩
  code := by
    obtain ⟨events, events', -, hstore, -⟩ := h.store
    rw [hstore]
    exact h.code

/-- Two resets of twins go through the same services, whatever the order. -/
theorem reset_matches (mirrored : registry.Mirrored config program)
    (commute : registry.catalog.TeardownsCommute) (hroom : side.Room depth depth')
    (c : ContainerRef) :
    Matches side (World.Similar (Container.Twins registry program) p q)
      (Call.run depth (.reset c)) (Call.run depth' (.reset c)) := by
  rcases hroom.cases with ⟨rfl, rfl⟩ | ⟨rfl, rfl⟩ | ⟨less, less', rfl, rfl, hless⟩
  · exact .unfinished_left _
  · exact .unfinished_right _
  · refine Matches.bind ?_ fun _ => .pure _
    rw [Call.resetContainer_eq, Call.resetContainer_eq]
    refine Matches.container_of (fun _ _ hworlds => hworlds.alike.cases_container c) ?_
    intro a b hrelated
    have congruent := congruent_twins mirrored
    have hcatalog : a.catalog = b.catalog := congruent.catalog hrelated
    obtain ⟨interpreter, machine, rfl, rfl, twins⟩ := hrelated
    have hregistry : (Container.running machine).catalog = registry.catalog := twins.catalog
    rw [hcatalog, hregistry]
    -- the machine first sweeps in the interpreter's order, then in its own
    have hthere : Matches .left (World.Similar SameMachine q q)
        (Call.sweep (Call.run less') c registry.catalog (Container.interpreting interpreter).cached)
        (Call.sweep (Call.run less') c registry.catalog (Container.running machine).cached) :=
      Call.sweep_perm mirrored.catalog commute c twins.cached_perm
    have hback : Matches .left (World.Similar SameMachine q q)
        (Call.sweep (Call.run less') c registry.catalog (Container.running machine).cached)
        (Call.sweep (Call.run less') c registry.catalog
          (Container.interpreting interpreter).cached) :=
      Call.sweep_perm mirrored.catalog commute c twins.cached_perm.symm
    refine Matches.through (.similar fun p q => ?_) hthere hback fun _ _ => similar_twin mirrored
    exact Call.matches_sweep congruent (inStep mirrored p q less less' hless).asked
      mirrored.catalog c _

/-- Twins that are asked for the same do the same, and a reset leaves the same in some order. -/
theorem perform_matches (mirrored : registry.Mirrored config program) {request : Request}
    (commute : request.Resets → registry.catalog.TeardownsCommute) (hroom : side.Room depth depth')
    {world world' : World} (hworlds : world.Alike (Container.Twins registry program) p q world')
    (hends : side.Ends (request.perform (Call.run depth)) (request.perform (Call.run depth'))
      world world') :
    (request.perform (Call.run depth) world).1 = (request.perform (Call.run depth') world').1 ∧
      (request.perform (Call.run depth) world).2.Similar (Container.Twins registry program) p q
        (request.perform (Call.run depth') world').2 ∧
      (¬ request.Resets →
        (request.perform (Call.run depth) world).2.Alike (Container.Twins registry program) p q
          (request.perform (Call.run depth') world').2) := by
  by_cases hresets : request.Resets
  · obtain ⟨c, rfl⟩ := hresets.eq_reset
    have hreset := reset_matches (p := p) (q := q) mirrored (commute hresets) hroom c
    obtain ⟨hsame, hlater⟩ := (Matches.bind hreset.outcome fun _ => .pure _) world world'
      hworlds.similar hends
    exact ⟨hsame, hlater, fun hkept => absurd hresets hkept⟩
  · have hcalls := (inStep mirrored p q depth depth' hroom).asked
    obtain ⟨hsame, hlater⟩ := request.perform_matches (congruent_twins mirrored) hcalls hresets
      world world' hworlds hends
    exact ⟨hsame, hlater.similar, fun _ => hlater⟩

/-- Twins answer alike, and are twins again. -/
theorem answers_match (mirrored : registry.Mirrored config program) {request : Request}
    (commute : request.Resets → registry.catalog.TeardownsCommute) (hroom : side.Room depth depth')
    {world world' : World} (hworlds : world.Similar (Container.Twins registry program) p q world')
    (hends : side.Ends (request.perform (Call.run depth)) (request.perform (Call.run depth'))
      world world') :
    (request.perform (Call.run depth) world).1 = (request.perform (Call.run depth') world').1 ∧
      ∀ reply, (request.perform (Call.run depth) world).1 = .ok reply → ∃ events others,
        world.Answers ⟨request, reply, events⟩ (request.perform (Call.run depth) world).2 ∧
        world'.Answers ⟨request, reply, others⟩ (request.perform (Call.run depth') world').2 ∧
        Exchange.Agrees ⟨request, reply, events⟩ ⟨request, reply, others⟩ ∧
        (request.perform (Call.run depth) world).2.Similar (Container.Twins registry program) p q
          (request.perform (Call.run depth') world').2 := by
  obtain ⟨hsame, hlater, hkept⟩ := perform_matches mirrored commute hroom hworlds.alike hends
  refine ⟨hsame, fun reply hreply => ?_⟩
  obtain ⟨events, others, hjournal, hstore, hperm⟩ := hlater.store
  have hjournal' : (request.perform (Call.run depth') world').2.store.journal =
      world'.store.journal ++ others := by
    rw [hstore]
  refine ⟨events.toList, others.toList, ⟨⟨depth, Prod.ext hreply rfl⟩, ?_⟩,
    ⟨⟨depth', Prod.ext (hsame.symm.trans hreply) rfl⟩, ?_⟩, .intro request reply hperm ?_,
    hworlds.after hlater⟩
  · rw [hjournal, Array.toList_append]
  · rw [hjournal', Array.toList_append]
  · intro hresets
    obtain ⟨more, hmore, hstore'⟩ := (hkept hresets).store
    have hmore' : (request.perform (Call.run depth') world').2.store.journal =
        world'.store.journal ++ more := by
      rw [hstore']
    have hleft : events = more := (Array.append_right_inj _).mp (hjournal.symm.trans hmore)
    have hright : others = more := (Array.append_right_inj _).mp (hjournal'.symm.trans hmore')
    rw [hleft, hright]

theorem machine_answers (mirrored : registry.Mirrored config program) {e : Exchange}
    (commute : e.request.Resets → registry.catalog.TeardownsCommute) {world world' later : World}
    (hworlds : world.Similar (Container.Twins registry program) p q world')
    (hanswer : world.Answers e later) :
    ∃ other later', world'.Answers other later' ∧ e.Agrees other ∧
      later.Similar (Container.Twins registry program) p q later' := by
  obtain ⟨request, reply, events⟩ := e
  obtain ⟨depth, hrun⟩ := hanswer.ends
  have hends : (request.perform (Call.run depth)).Ends world := .of_ok hrun
  have hroom : Side.Room .left depth depth := Nat.le_refl depth
  obtain ⟨-, hreplies⟩ := answers_match mirrored commute hroom hworlds hends
  obtain ⟨found, others, hhere, hthere, hagree, hlater⟩ := hreplies reply (congrArg Prod.fst hrun)
  rw [hrun] at hhere hlater
  obtain rfl := hanswer.events_eq hhere
  exact ⟨_, _, hthere, hagree, hlater⟩

theorem interpreter_answers (mirrored : registry.Mirrored config program) {e : Exchange}
    (commute : e.request.Resets → registry.catalog.TeardownsCommute) {world world' later' : World}
    (hworlds : world.Similar (Container.Twins registry program) p q world')
    (hanswer : world'.Answers e later') :
    ∃ other later, world.Answers other later ∧ e.Agrees other ∧
      later.Similar (Container.Twins registry program) p q later' := by
  obtain ⟨request, reply, events⟩ := e
  obtain ⟨depth, hrun⟩ := hanswer.ends
  have hends : (request.perform (Call.run depth)).Ends world' := .of_ok hrun
  have hroom : Side.Room .right (2 * depth) depth := Nat.le_refl (2 * depth)
  obtain ⟨hsame, hreplies⟩ := answers_match mirrored commute hroom hworlds hends
  rw [hrun] at hsame
  obtain ⟨others, found, hthere, hhere, hagree, hlater⟩ := hreplies reply hsame
  rw [hrun] at hhere hlater
  obtain rfl := hanswer.events_eq hhere
  exact ⟨_, _, hthere, hagree.symm, hlater⟩

theorem alike_fresh (mirrored : registry.Mirrored config program) (store : Store)
    (hfree : registry.ResetFree store.code) (handler : NoticeHandler) :
    (World.alone store (.interpreting (.ofRegistry registry config handler))).Alike
      (Container.Twins registry program) store.journal store.journal
      (World.alone store (.running (.load program registry.catalog config.maxDepth handler))) where
  store := ⟨#[], by rw [Array.append_empty]; rfl, by rw [Array.append_empty]; rfl⟩
  containers
    | ⟨0⟩ => .some (twins_fresh mirrored handler)
    | ⟨_ + 1⟩ => .none
  code := hfree.code

/-- **Interpreter and machine serve the same sessions.** Each reply is the same, and so is what each
request leaves in the journal, a reset's in some order; for that teardowns have to commute. User
code may note what it is called with, so that the same calls are made with the same arguments. -/
theorem sessions_agree {registry : Registry} (reachable : registry.Reachable) {config : Config}
    {program : Program} (hcompile : registry.compile config = .ok program)
    (orderly : registry.Orderly) (store : Store) (hfree : registry.ResetFree store.code)
    (handler : NoticeHandler) {exchanges : List Exchange}
    (commute : ∀ e ∈ exchanges, e.request.Resets → registry.catalog.TeardownsCommute) :
    let interpreting := World.alone store (.interpreting (.ofRegistry registry config handler))
    let running :=
      World.alone store (.running (.load program registry.catalog config.maxDepth handler))
    (∀ last, interpreting.Serves exchanges last → ∃ others last', running.Serves others last' ∧
        List.Forall₂ Exchange.Agrees exchanges others ∧ last.store.Shuffled last'.store) ∧
      ∀ last', running.Serves exchanges last' → ∃ others last, interpreting.Serves others last ∧
        List.Forall₂ Exchange.Agrees exchanges others ∧ last.store.Shuffled last'.store := by
  have mirrored := Mirrored.ofReachable reachable hcompile orderly hfree
  have hfresh := (alike_fresh mirrored store hfree handler).similar
  refine ⟨fun last hserves => ?_, fun last' hserves => ?_⟩
  · obtain ⟨others, last', hserves', hagrees, hlast⟩ :=
      hserves.follow (fun e hmem _ _ _ hworlds hanswer =>
        machine_answers mirrored (commute e hmem) hworlds hanswer) hfresh
    exact ⟨others, last', hserves', hagrees, hlast.shuffled⟩
  · obtain ⟨others, last, hserves', hagrees, hlast⟩ :=
      hserves.follow (S := fun world' world =>
          world.Similar (Container.Twins registry program) store.journal store.journal world')
        (fun e hmem _ _ _ hworlds hanswer =>
          interpreter_answers mirrored (commute e hmem) hworlds hanswer) hfresh
    exact ⟨others, last, hserves', hagrees, hlast.shuffled⟩

/-- Two services of classes that are torn down by `teardown`. -/
def torn (teardown : ObjectRef → Behaviour Unit) : Registry :=
  let classA := Registration.registerClass { name := "A", teardown := some teardown }
  let classB := Registration.registerClass { name := "B", teardown := some teardown }
  let a := Registration.set "a" (.ofEntity (.construct "A"))
  let b := Registration.set "b" (.ofEntity (.construct "B"))
  b.after (a.after (classB.after (classA.after ∅ {}) {}) {}) {}

section Torn

variable (teardown : ObjectRef → Behaviour Unit)

theorem torn_reachable : (torn teardown).Reachable :=
  .step _ _ (.step _ _ (.step _ _ (.step _ _ .empty)))

theorem torn_definition {id : String} {definition : Definition}
    (hfound : (torn teardown).definition? id = some definition) :
    ∃ className, definition.decorators = [] ∧
      definition.demands (torn teardown).candidates = [.construct className 0] := by
  rcases mem_entries_of_definition hfound with _ | ⟨_, _ | ⟨_, hnone⟩⟩
  · exact ⟨"A", rfl, rfl⟩
  · exact ⟨"B", rfl, rfl⟩
  · cases hnone

theorem torn_orderly : (torn teardown).Orderly where
  free _ _ := rfl
  exposed name hname := Bool.noConfusion hname
  definitions := by
    change List.Pairwise (· < ·) ["a", "b"]
    decide
  tags := List.Pairwise.nil
  candidates _ := List.Pairwise.nil
  callees hfound name hname := by
    obtain ⟨className, -, hdemands⟩ := torn_definition teardown hfound
    rw [hdemands] at hname
    simp at hname

theorem torn_class {className : String} {spec : ClassSpec}
    (hspec : (torn teardown).catalog.class? className = some spec) :
    spec.construct = none ∧ spec.methods = ∅ ∧ spec.teardown = some teardown := by
  have hclasses : (torn teardown).catalog.class? className =
      if className = "B" then some { name := "B", teardown := some teardown }
      else if className = "A" then some { name := "A", teardown := some teardown }
      else none := by
    change (((∅ : Dict ClassSpec).insert "A" _).insert "B" _).get? className = _
    rw [Dict.get?_insert, Dict.get?_insert]
    rfl
  rw [hclasses] at hspec
  split at hspec
  · cases hspec
    exact ⟨rfl, rfl, rfl⟩
  · split at hspec
    · cases hspec
      exact ⟨rfl, rfl, rfl⟩
    · cases hspec

theorem torn_teardown {o : ObjectRef} {declared : Behaviour Unit}
    (hdeclared : (torn teardown).catalog.teardown? o = some declared) : declared = teardown o := by
  obtain ⟨spec, hspec, hmade⟩ := Option.bind_eq_some_iff.mp hdeclared
  rw [(torn_class teardown hspec).2.2] at hmade
  exact (Option.some.inj hmade).symm

theorem torn_resetFree (hfree : ∀ o, (teardown o).ResetFree) : (torn teardown).ResetFree #[] where
  catalog := {
    construct := fun {className spec construct} hspec hconstruct => by
      rw [(torn_class teardown hspec).1] at hconstruct
      cases hconstruct
    method := fun {o name method} hmethod => by
      obtain ⟨spec, hspec, hnamed⟩ := Option.bind_eq_some_iff.mp hmethod
      rw [(torn_class teardown hspec).2.1] at hnamed
      cases hnamed
    teardown := fun hdeclared => by
      rw [torn_teardown teardown hdeclared]
      exact hfree _ }
  decorators hfound := by
    obtain ⟨className, hplain, -⟩ := torn_definition teardown hfound
    rw [hplain]
    exact fun _ hmem => absurd hmem List.not_mem_nil
  code body hbody := by simp at hbody

end Torn

def tornProgram (teardown : ObjectRef → Behaviour Unit) : Program :=
  ((torn teardown).compile {}).toOption.getD default

def tornInterpreting (teardown : ObjectRef → Behaviour Unit) : World :=
  World.alone {} (.interpreting (.ofRegistry (torn teardown) {} .silent))

def tornRunning (teardown : ObjectRef → Behaviour Unit) : World :=
  World.alone {} (.running (.load (tornProgram teardown) (torn teardown).catalog 100 .silent))

/-- The second service is asked for, then the first, then a reset. -/
def tornSession (events : List Event) : List Exchange :=
  [⟨.get ⟨0⟩ "b" {}, .ok (.object ⟨0, "B"⟩), []⟩, ⟨.get ⟨0⟩ "a" {}, .ok (.object ⟨1, "A"⟩), []⟩,
    ⟨.reset ⟨0⟩, (), events⟩]

theorem serves_tornSession {world first second last : World} {events : List Event}
    (hfirst : (Request.get ⟨0⟩ "b" {}).perform (Call.run 2) world =
      (.ok (.ok (.object ⟨0, "B"⟩)), first))
    (hsecond : (Request.get ⟨0⟩ "a" {}).perform (Call.run 2) first =
      (.ok (.ok (.object ⟨1, "A"⟩)), second))
    (hlast : (Request.reset ⟨0⟩).perform (Call.run 2) second = (.ok (), last))
    (hquiet : first.store.journal.toList = world.store.journal.toList)
    (hquiet' : second.store.journal.toList = first.store.journal.toList)
    (hevents : last.store.journal.toList = second.store.journal.toList ++ events) :
    world.Serves (tornSession events) last := by
  refine .next ⟨⟨2, hfirst⟩, ?_⟩ (.next ⟨⟨2, hsecond⟩, ?_⟩ (.next ⟨⟨2, hlast⟩, hevents⟩ (.done _)))
  · rw [hquiet, List.append_nil]
  · rw [hquiet', List.append_nil]

theorem perm_of_tornSession {events others : List Event}
    (h : List.Forall₂ Exchange.Agrees (tornSession events) (tornSession others)) :
    events.Perm others := by
  rcases h with _ | ⟨-, _ | ⟨-, _ | ⟨hreset, -⟩⟩⟩
  obtain ⟨_, _, hperm, -⟩ := hreset
  exact hperm

/-- The interpreter tears down in the order of caching, `B` before `A`. -/
theorem sessions_agree_torn :
    ∃ last others last', (tornInterpreting (Script.teardown "torn")).Serves
        (tornSession [.noted (.teardown "torn" "B" .null), .noted (.teardown "torn" "A" .null)])
        last ∧
      (tornRunning (Script.teardown "torn")).Serves others last' ∧
      List.Forall₂ Exchange.Agrees
        (tornSession [.noted (.teardown "torn" "B" .null), .noted (.teardown "torn" "A" .null)])
        others := by
  have hserves : ∃ last, (tornInterpreting (Script.teardown "torn")).Serves
      (tornSession [.noted (.teardown "torn" "B" .null), .noted (.teardown "torn" "A" .null)])
      last := ⟨_, serves_tornSession rfl rfl rfl rfl rfl rfl⟩
  have hcompile : (torn (Script.teardown "torn")).compile {} =
      .ok (tornProgram (Script.teardown "torn")) := rfl
  have hscripted : (torn (Script.teardown "torn")).catalog.TeardownsScripted :=
    fun o declared hdeclared => ⟨"torn", torn_teardown _ hdeclared⟩
  obtain ⟨last, hlast⟩ := hserves
  obtain ⟨others, last', hserves', hagrees, -⟩ :=
    (sessions_agree (torn_reachable _) hcompile (torn_orderly _) {}
      (torn_resetFree _ (Script.resetFree_teardown "torn")) .silent
      fun _ _ _ => hscripted.commute).1 last hlast
  exact ⟨last, others, last', hlast, hserves', hagrees⟩

/-- The first teardown of all leaves the name of the class, the others leave none. -/
def noteFirst (o : ObjectRef) : Behaviour Unit := do
  let turn ← Behaviour.request (.count "torn")
  Behaviour.request (.note (.label (if turn = 1 then o.className else "")))

theorem resetFree_noteFirst (o : ObjectRef) : (noteFirst o).ResetFree :=
  ⟨fun h => h, fun _ => ⟨fun h => h, fun _ => trivial⟩⟩

/-- Where teardowns do not commute, the machine does not serve what the interpreter serves, nor the
same with the events of the reset in another order. -/
theorem order_of_teardowns :
    (torn noteFirst).Reachable ∧ (torn noteFirst).compile {} = .ok (tornProgram noteFirst) ∧
      (torn noteFirst).Orderly ∧ (torn noteFirst).ResetFree #[] ∧
      (∃ last, (tornInterpreting noteFirst).Serves
        (tornSession [.noted (.label "B"), .noted (.label "")]) last) ∧
      (¬ ∃ last', (tornRunning noteFirst).Serves
        (tornSession [.noted (.label "B"), .noted (.label "")]) last') ∧
      ¬ ∃ others last', (tornRunning noteFirst).Serves others last' ∧ List.Forall₂ Exchange.Agrees
        (tornSession [.noted (.label "B"), .noted (.label "")]) others := by
  have hcompile : (torn noteFirst).compile {} = .ok (tornProgram noteFirst) := rfl
  have hfree := torn_resetFree noteFirst resetFree_noteFirst
  have mirrored :=
    Mirrored.ofReachable (torn_reachable noteFirst) hcompile (torn_orderly noteFirst) hfree
  have hsame := similar_twin mirrored (alike_fresh mirrored {} hfree .silent).similar
  have hserves : ∃ last, (tornInterpreting noteFirst).Serves
      (tornSession [.noted (.label "B"), .noted (.label "")]) last :=
    ⟨_, serves_tornSession rfl rfl rfl rfl rfl rfl⟩
  have hserves' : ∃ last', (tornRunning noteFirst).Serves
      (tornSession [.noted (.label "A"), .noted (.label "")]) last' :=
    ⟨_, serves_tornSession rfl rfl rfl rfl rfl rfl⟩
  obtain ⟨last', hlast'⟩ := hserves'
  have hnever : ¬ ∃ others last', (tornRunning noteFirst).Serves others last' ∧
      List.Forall₂ Exchange.Agrees (tornSession [.noted (.label "B"), .noted (.label "")])
        others := by
    rintro ⟨others, last, hserves, hagrees⟩
    have hrequests := Exchange.requests_eq hagrees
    obtain ⟨rfl, -⟩ := hlast'.unique hsame hserves hrequests
    have hperm := perm_of_tornSession hagrees
    have hmem : Event.noted (.label "B") ∈ [Event.noted (.label "A"), .noted (.label "")] :=
      hperm.subset List.mem_cons_self
    simp at hmem
  refine ⟨torn_reachable noteFirst, hcompile, torn_orderly noteFirst, hfree, hserves, ?_, hnever⟩
  rintro ⟨last, hlast⟩
  exact hnever ⟨_, last, hlast, List.forall₂_same.mpr fun e _ => .refl e⟩

end Registry
end Wiring
