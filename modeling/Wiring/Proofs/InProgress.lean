import Wiring.Proofs.Threads
import Wiring.Proofs.TracedCalls
import Wiring.Proofs.Watching

/-!
# What is under construction

A construction writes its id at the end of the container's chain, and the chain is cut to its old
length when the construction ends, in whichever way. User code may call the container meanwhile, reset
it and survive the errors that it gets. The invariant behind the exactness of chains: no id of a chain
is cached. An id in the chain can only leave the chain by the end of its own construction, and it is
cached nowhere else, so whatever asks for it again begins a second construction and is refused.
-/

namespace Wiring

open Run

namespace Container

/-- What is under construction in the container, from the outermost id to the innermost. -/
structure Constructs (ids : List String) (container : Container) : Prop where
  loading : container.loading = ids
  nodup : ids.Nodup
  bounded : ids.length ≤ container.maxDepth
  fresh : ∀ id ∈ ids, container.cached? id = none

variable {container b : Container} {ids longer : List String} {id : String}

theorem maxDepth_setLoading (container : Container) (chain : List String) :
    (container.setLoading chain).maxDepth = container.maxDepth := by
  cases container <;> rfl

theorem cached?_clearRuntimeState (container : Container) (id : String) :
    container.clearRuntimeState.cached? id = container.cached? id := by
  cases container <;> rfl

namespace Constructs

/-- A construction begins. -/
theorem enter (h : container.Constructs ids) (hcached : container.cached? id = none)
    (henter : Chain.enter container.maxDepth container.loading id = .ok longer) :
    (container.setLoading longer).Constructs (ids ++ [id]) := by
  rw [h.loading] at henter
  obtain ⟨hentered, hroom, rfl⟩ := Chain.enter_eq_ok_iff.mp henter
  refine ⟨loading_setLoading .., ?_, ?_, fun other hother => ?_⟩
  · exact List.nodup_append.mpr ⟨h.nodup, List.nodup_singleton id, by grind⟩
  · rw [maxDepth_setLoading, List.length_append]
    exact hroom
  · rw [cached?_setLoading]
    rcases List.mem_append.mp hother with hold | hnew
    · exact h.fresh other hold
    · rw [List.mem_singleton.mp hnew]
      exact hcached

theorem not_mem (h : b.Constructs (ids ++ [id])) : id ∉ ids := fun hmem =>
  (List.nodup_append.mp h.nodup).2.2 id hmem id List.mem_cons_self rfl

/-- A construction ends, and its service may have been cached. -/
theorem leave (h : b.Constructs (ids ++ [id])) {kept : Container}
    (hdepth : kept.maxDepth = b.maxDepth)
    (hfresh : ∀ other, other ≠ id → kept.cached? other = b.cached? other) :
    (kept.setLoading (b.loading.take ids.length)).Constructs ids where
  loading := by rw [loading_setLoading, h.loading, List.take_left]
  nodup := (List.nodup_append.mp h.nodup).1
  bounded := by
    have hbounded := h.bounded
    rw [List.length_append] at hbounded
    rw [maxDepth_setLoading, hdepth]
    omega
  fresh other hother := by
    have hne : other ≠ id := fun hsame => h.not_mem (hsame ▸ hother)
    rw [cached?_setLoading, hfresh other hne]
    exact h.fresh other (List.mem_append_left _ hother)

end Constructs

end Container

namespace World

/-- The containers construct what the book says. -/
def Exact (book : Book) (world : World) : Prop :=
  ∀ (c : ContainerRef) (container : Container), world.container? c = some container →
    container.Constructs (book.ids c)

/-- Nothing is under construction. -/
def Idle (world : World) : Prop :=
  ∀ (c : ContainerRef) (container : Container), world.container? c = some container →
    container.loading = []

variable {world inner : World} {book : Book} {c : ContainerRef} {container b : Container}
  {id : String} {longer : List String}

theorem exact_nil : world.Exact [] ↔ world.Idle := by
  constructor
  · exact fun h c container hat => (h c container hat).loading
  · exact fun h c container hat =>
      ⟨h c container hat, List.nodup_nil, Nat.zero_le _, fun id hid => absurd hid List.not_mem_nil⟩

theorem Exact.put (h : world.Exact book) (hat : world.container? c = some container)
    {more : Book} (hids : ∀ d, d ≠ c → more.ids d = book.ids d)
    (hput : b.Constructs (more.ids c)) : (world.put c b).Exact more := by
  intro d found hfound
  rw [container?_put hat] at hfound
  split at hfound
  · next hsame =>
      cases hfound
      exact hsame ▸ hput
  · next hother => exact hids d hother ▸ h d found hfound

theorem Exact.enter (h : world.Exact book) (hat : world.container? c = some container)
    (hcached : container.cached? id = none)
    (henter : Chain.enter container.maxDepth container.loading id = .ok longer) :
    (world.put c (container.setLoading longer)).Exact (book ++ [(c, id)]) := by
  refine h.put hat (fun d hother => book.ids_append_other hother id) ?_
  rw [book.ids_append_self]
  exact (h _ _ hat).enter hcached henter

theorem Exact.leave (h : inner.Exact (book ++ [(c, id)])) (hb : inner.container? c = some b)
    {kept : Container} (hdepth : kept.maxDepth = b.maxDepth)
    (hfresh : ∀ other, other ≠ id → kept.cached? other = b.cached? other) :
    (inner.put c (kept.setLoading (b.loading.take (book.ids c).length))).Exact book := by
  refine h.put hb (fun d hother => (book.ids_append_other hother id).symm) ?_
  have hconstructs := h c b hb
  rw [book.ids_append_self] at hconstructs
  exact hconstructs.leave hdepth hfresh

theorem exact_invariant (book : Book) : Invariant (Exact book) where
  store h := h
  clearCache {world c container} hat h := by
    refine h.put hat (fun _ _ => rfl) ⟨?_, (h _ _ hat).nodup, ?_, fun id _ => ?_⟩
    · rw [← (h _ _ hat).loading]
      cases container <;> rfl
    · have hdepth : container.clearCache.maxDepth = container.maxDepth := by
        cases container <;> rfl
      rw [hdepth]
      exact (h _ _ hat).bounded
    · exact container.cached?_clearCache id
  clearRuntimeState {world c container} hat h := by
    refine h.put hat (fun _ _ => rfl) ⟨?_, (h _ _ hat).nodup, ?_, fun id hid => ?_⟩
    · rw [← (h _ _ hat).loading]
      cases container <;> rfl
    · have hdepth : container.clearRuntimeState.maxDepth = container.maxDepth := by
        cases container <;> rfl
      rw [hdepth]
      exact (h _ _ hat).bounded
    · rw [container.cached?_clearRuntimeState]
      exact (h _ _ hat).fresh id hid

end World

/-- Runs that keep chains exact. -/
def Run.tracking (book : Book) : Congruence := keeping (World.Exact book) (World.exact_invariant book)

section Tracking

variable {world : World} {book : Book} {c : ContainerRef} {container : Container} {id : String}
  {recur recur' : Caller}

/-- **A construction** begins and ends with the same chain, whatever is called on the way. -/
theorem Container.obtain_tracked (h : (tracking (book ++ [(c, id)])).Callers recur recur')
    (hat : world.container? c = some container) (hdefined : container.defines id)
    (hcached : container.cached? id = none) (options : ResolveOptions) :
    (tracking book).HoldsAt world (container.obtain recur c id options)
      (container.obtain recur' c id options) := by
  intro compiled hexact
  cases henter : Chain.enter container.maxDepth container.loading id with
  | error error =>
      rw [obtain_refused hat hdefined hcached henter, obtain_refused hat hdefined hcached henter]
      exact ⟨rfl, .refl world, hexact⟩
  | ok longer =>
      have hself := World.container?_put_self world c (container.setLoading longer) container hat
      have hentering : world.Stays (world.put c (container.setLoading longer)) :=
        .of_put hat (base_setLoading container longer)
      obtain ⟨hsame, hmaking, hinner⟩ := make_holds h container container.handler c id
        _ (compiled.later hentering) (hexact.enter hat hcached henter)
      rw [withHandler_self] at hsame
      rcases hmake : container.make recur' c id (world.put c (container.setLoading longer)) with
        ⟨result, inner⟩
      rw [hmake] at hsame hmaking hinner
      obtain ⟨b, hb, hbase⟩ := hmaking.container hself
      rw [base_setLoading] at hbase
      have hdefines : b.defines id := (defines_of_base hbase id).trans hdefined
      have hlength : container.loading.length = (book.ids c).length := by
        rw [(hexact _ _ hat).loading]
      cases result with
      | error halt =>
          rw [obtain_failed hat hdefined hcached henter hsame,
            obtain_failed hat hdefined hcached henter hmake, cut_apply hb, hlength]
          refine ⟨rfl, ?_, hinner.leave hb rfl fun _ _ => rfl⟩
          exact hentering.trans (hmaking.trans (.of_put hb (base_setLoading b _)))
      | ok service =>
          rw [obtain_completed hat hdefined hcached henter hsame hb hbase,
            obtain_completed hat hdefined hcached henter hmake hb hbase, World.completed, hlength]
          have hkept : (b.kept id options service).base = b.base := base_kept b id options service
          refine ⟨rfl, ?_, ?_⟩
          · refine hentering.trans (hmaking.trans (World.Stays.trans
              (.of_store (Store.code_announced ..)) (.of_put hb ?_)))
            rw [base_setLoading, hkept]
          · have hannounced : World.Exact (book ++ [(c, id)])
                { inner with store := inner.store.announced id (b.notice? id) b.handler } := hinner
            refine World.Exact.leave hannounced hb (maxDepth_of_base hkept) fun other hother => ?_
            rw [cached?_kept hdefines, if_neg fun h => hother h.1]

end Tracking

/-! ### Whatever reaches a construction -/

/-- The service that a call comes to: its own name leads there, through types with a sole candidate
too, or it forces a handle that has no value yet. -/
inductive World.Reaches (world : World) : Call → ContainerRef → String → Prop
  | name {c : ContainerRef} {container : Container} (hat : world.container? c = some container)
      {isPublic : Bool} {name id : String} {options : ResolveOptions} {depth : Nat}
      (hselect : container.select options depth isPublic name = some (.definition id)) :
      Reaches world (.locate isPublic c name options) c id
  | routine {c : ContainerRef} {container : Container} (hat : world.container? c = some container)
      {position : Nat} {id : String} (hid : container.routineId? position = some id) :
      Reaches world (.routine c position) c id
  | handle {l : LazyRef} (hnew : (world.store.cell l).value = none) {c : ContainerRef}
      (hhome : (world.store.cell l).home = some c) {container : Container}
      (hat : world.container? c = some container) {id : String} {depth : Nat}
      (hselect : container.select {} depth false l.target = some (.definition id)) :
      Reaches world (.force l) c id

/-- The call is refused, and the path leads from the construction of `id` back to it. One that is
nested too deep to get there is given up. -/
def Answer.Refuses (answer : Answer) (book : Book) (world : World) (c : ContainerRef) (id : String) :
    Prop :=
  answer.1 = .error .unfinished ∨
    answer = (.error (.error (.circularReference id
      ((book.ids c).drop ((book.ids c).idxOf id) ++ [id]))), world)

section Reaching

variable {world : World} {book : Book} {c : ContainerRef} {container : Container} {id : String}

theorem Container.obtain_again (hexact : world.Exact book)
    (hat : world.container? c = some container) (hdefined : container.defines id)
    (hid : id ∈ book.ids c) (recur : Caller) (options : ResolveOptions) :
    Answer.Refuses (container.obtain recur c id options world) book world c id := by
  have hconstructs := hexact c container hat
  refine .inr (obtain_refused hat hdefined (hconstructs.fresh id hid) ?_)
  rw [hconstructs.loading]
  exact Chain.enter_eq_circular_iff.mpr ⟨rfl, hid, rfl⟩

/-- A name leads on to its definition, as deep as types are nested and however resets are done. -/
theorem Call.runWith_name (reset : Caller → ContainerRef → Run Unit)
    (hat : world.container? c = some container) {options : ResolveOptions}
    {levels : Nat} {isPublic : Bool} {name : String}
    (hselect : container.select options levels isPublic name = some (.definition id))
    (depth : Nat) :
    (runWith reset depth (.locate isPublic c name options) world).1 = .error .unfinished ∨
      container.defines id ∧ ∃ less,
        runWith reset depth (.locate isPublic c name options) world =
          container.obtain (runWith reset less) c id options world := by
  induction levels generalizing isPublic name depth with
  | zero => cases hselect
  | succ levels ih =>
      cases depth with
      | zero => exact .inl rfl
      | succ depth =>
          rw [Container.select] at hselect
          have hstep : runWith reset (depth + 1) (.locate isPublic c name options) =
              step (runWith reset depth) (.locate isPublic c name options) := by
            cases isPublic <;> rfl
          rw [hstep, step_locate hat]
          cases hlookup : container.lookup isPublic name with
          | definition other =>
              rw [hlookup] at hselect
              cases hselect
              exact .inr ⟨Container.defines_of_lookup hlookup, depth, rfl⟩
          | withheld =>
              rw [hlookup] at hselect
              cases hselect
          | services typeName ids =>
              rw [hlookup] at hselect
              dsimp only at hselect
              rcases ids with _ | ⟨only, _ | ⟨second, rest⟩⟩
              · cases hselect
              · exact ih hselect depth
              · rw [Selection.among_several] at hselect
                split at hselect
                · obtain ⟨members, -, hmembers⟩ := Option.map_eq_some_iff.mp hselect
                  cases hmembers
                · cases hselect

/-- **What reaches a construction that is in progress** is refused. -/
theorem Call.run_again (compiled : world.Compiled) (hexact : world.Exact book) {call : Call}
    (hreaches : world.Reaches call c id) (hid : id ∈ book.ids c) (depth : Nat) :
    Answer.Refuses (run depth call world) book world c id := by
  have hname : ∀ {container : Container} {isPublic : Bool} {name : String}
      {options : ResolveOptions} {levels : Nat}, world.container? c = some container →
      container.select options levels isPublic name = some (.definition id) →
        ∀ depth, Answer.Refuses (run depth (.locate isPublic c name options) world) book world c id := by
    intro container isPublic name options levels hat hselect depth
    rw [run_eq_runWith]
    rcases runWith_name resetContainer hat hselect depth with hgiven | ⟨hdefined, less, hrun⟩
    · exact .inl hgiven
    · rw [hrun]
      exact Container.obtain_again hexact hat hdefined hid _ options
  cases depth with
  | zero => exact .inl rfl
  | succ depth =>
      cases hreaches with
      | name hat hselect => exact hname hat hselect (depth + 1)
      | @routine _ container hat position _ hroutine =>
          have hwants : world.wants (.routine c position) = some (c, id) :=
            World.wants_eq_some.mpr ⟨rfl, container, hat, hroutine⟩
          obtain ⟨container, hat, hdefined, hstep⟩ := step_wanting compiled hwants
          rw [run, hstep]
          exact Container.obtain_again hexact hat hdefined hid (run depth) _
      | @handle l hnew _ hhome container hat _ levels hselect =>
          have hpresent : ((some c).filter fun c => (world.container? c).isSome) = some c := by
            rw [Option.filter_some, hat]
            rfl
          rw [run, step, forceHandle, Run.world, bind_of_ok (get_apply world)]
          simp only [hnew, hhome, hpresent]
          have hresolve : Answer.Refuses (run depth (.resolve c l.target {}) world) book world c id :=
            hname hat hselect depth
          rcases hresolve with hgiven | hrefused
          · refine .inl ?_
            rw [bind_of_error (Prod.ext hgiven rfl)]
          · exact .inr (bind_of_error hrefused _)

end Reaching

/-! ### Whole runs -/

/-- What holds whenever something is called: the chains are exact, and what reaches a construction in
progress is refused. -/
def World.Tells (book : Book) (call : Call) (world : World) (answer : Answer) : Prop :=
  world.Exact book ∧
    ∀ (c : ContainerRef) (id : String), world.Reaches call c id → id ∈ book.ids c →
      answer.Refuses book world c id

/-- **Every call** on the way is as it should be, and leaves the chains as it found them. -/
theorem Call.watched_tracked (alarm : Run Value) (depth : Nat) (book : Book) :
    (tracking book).Callers (watched World.Tells alarm depth book) (run depth) := by
  induction depth generalizing book with
  | zero => exact fun call world _ hexact => ⟨rfl, .refl world, hexact⟩
  | succ depth ih =>
      intro call world compiled hexact
      have hstep : (tracking book).HoldsAt world
          (step (watched World.Tells alarm depth (book ++ (world.opens call).toList)) call)
          (run (depth + 1) call) := by
        rw [run]
        rcases world.asks_cases call with hwants | ⟨c, id, service, hwants, hcached⟩ | ⟨c, id, hopens⟩
        · rw [World.opens_of_passing hwants, Option.toList_none, List.append_nil]
          exact step_passing (ih book) hwants fun c _ =>
            resetContainer_keeps (World.exact_invariant book) (ih book) c
        · exact (tracking book).still (.ok service) (step_given compiled hwants hcached _)
            (step_given compiled hwants hcached _)
        · obtain ⟨container, hat, hdefined, hcached, hobtain⟩ := step_opening compiled hopens
          rw [hopens, Option.toList_some]
          refine (tracking book).congr (hobtain _) (hobtain _) ?_
          exact Container.obtain_tracked (ih (book ++ [(c, id)])) hat hdefined hcached _
      obtain ⟨hsame, hlater⟩ := hstep compiled hexact
      refine ⟨watched_eq depth hsame ⟨hexact, fun c id hreaches hid => ?_⟩, hlater⟩
      exact run_again compiled hexact hreaches hid (depth + 1)

namespace World

variable {world : World}

/-- A request leaves nothing under construction, however it ends. -/
theorem Idle.perform (idle : world.Idle) (compiled : world.Compiled) (request : Request)
    (depth : Nat) :
    request.Throughout depth World.Tells world ∧
      world.Stays (request.perform (Call.run depth) world).2 ∧
      (request.perform (Call.run depth) world).2.Idle := by
  have hperform := fun alarm => request.perform_holds (C := tracking [])
    (Call.watched_tracked alarm depth []) world compiled (exact_nil.mpr idle)
  refine ⟨fun alarm => (hperform alarm).1, ?_⟩
  obtain ⟨-, hstays, hexact⟩ := hperform (throw .unfinished)
  exact ⟨hstays, exact_nil.mp hexact⟩

theorem Idle.serves {start : World} (idle : start.Idle) (compiled : start.Compiled)
    {exchanges : List Exchange} (hserves : start.Serves exchanges world) :
    start.Stays world ∧ world.Idle := by
  induction hserves with
  | done world => exact ⟨.refl world, idle⟩
  | @next world later last e exchanges hanswer hrest ih =>
      obtain ⟨depth, hrun⟩ := hanswer.ends
      obtain ⟨-, hstays, hidle⟩ := idle.perform compiled e.request depth
      rw [hrun] at hstays hidle
      obtain ⟨hstays', hlast⟩ := ih hidle (compiled.later hstays)
      exact ⟨hstays.trans hstays', hlast⟩

theorem idle_alone {registry : Registry} {config : Config} {container : Container}
    (hstart : registry.Starts config container) (store : Store) : (alone store container).Idle := by
  intro c found hat
  rw [container?_alone hat]
  cases hstart <;> rfl

/-- **Chains are exact and are always released.** Take containers of either kind with nothing under
construction, any user code, and any session with them. During the next request, whenever anything
is called, the chain of each container is the list of the constructions that are in progress there,
in the order of nesting, without repetition and no longer than the limit; and a call that reaches one
of them is refused with the path from it on. After each request, successful or not, nothing is under
construction. -/
theorem constructions_exact {start : World} (compiled : start.Compiled) (idle : start.Idle)
    {exchanges : List Exchange} (hserves : start.Serves exchanges world) (request : Request)
    (depth : Nat) :
    world.Idle ∧ request.Throughout depth World.Tells world ∧
      (request.perform (Call.run depth) world).2.Idle := by
  obtain ⟨hstays, hidle⟩ := idle.serves compiled hserves
  obtain ⟨htells, -, hlast⟩ := hidle.perform (compiled.later hstays) request depth
  exact ⟨hidle, htells, hlast⟩

/-- The service `a` is what a callable gives. -/
def looping : Registry :=
  (Registration.set "a" (.ofEntity (.invocable ⟨0, "again", []⟩))).after ∅ {}

/-- It asks for `a` again, and goes on when it is refused. -/
def askingAgain : Code := fun c _ => .ask (.get c "a" {}) fun
  | .ok service => .done (.ok service)
  | .error _ => .done (.ok (.str "refused"))

def loopingInterpreting : World :=
  alone { code := #[askingAgain] } (.interpreting (.ofRegistry looping { maxDepth := 1 } .silent))

theorem constructions_exact_looping : ∃ world : World,
    loopingInterpreting.Serves
        [⟨.get ⟨0⟩ "a" { ignoreFreezing := true }, .ok (.str "refused"), []⟩] world ∧
      world.Idle ∧ (Request.get ⟨0⟩ "a" {}).Throughout 4 World.Tells world ∧
      ((Request.get ⟨0⟩ "a" {}).perform (Call.run 4) world).2.Idle := by
  have hstart : looping.Starts { maxDepth := 1 }
      (.interpreting (.ofRegistry looping { maxDepth := 1 } .silent)) := .interpreting .silent
  obtain ⟨world, hserves⟩ : ∃ world : World, loopingInterpreting.Serves
      [⟨.get ⟨0⟩ "a" { ignoreFreezing := true }, .ok (.str "refused"), []⟩] world :=
    ⟨_, .next ⟨⟨4, rfl⟩, rfl⟩ (.done _)⟩
  exact ⟨world, hserves,
    constructions_exact (compiled_alone hstart _) (idle_alone hstart _) hserves _ 4⟩

end World

end Wiring
