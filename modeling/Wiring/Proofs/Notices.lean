import Wiring.Proofs.Watching

/-!
# Notices of deprecated services

Each construction that is completed gives the notice of its definition once, and nothing else gives
notices. To see it, silence all containers and let a watcher give the notices instead, one for each
call that began a construction and was answered with its service: nobody can tell the difference.
Resets may happen on the way.
-/

namespace Wiring

open Run

namespace Container

variable (container : Container) (handler : NoticeHandler)

@[simp]
theorem maxDepth_withHandler : (container.withHandler handler).maxDepth = container.maxDepth := by
  cases container <;> rfl

@[simp]
theorem loading_withHandler : (container.withHandler handler).loading = container.loading := by
  cases container <;> rfl

@[simp]
theorem handler_withHandler : (container.withHandler handler).handler = handler := by
  cases container <;> rfl

@[simp]
theorem setLoading_withHandler (chain : List String) :
    (container.withHandler handler).setLoading chain =
      (container.setLoading chain).withHandler handler := by
  cases container <;> rfl

@[simp]
theorem cached?_withHandler (id : String) :
    (container.withHandler handler).cached? id = container.cached? id := by
  cases container <;> rfl

@[simp]
theorem defines_withHandler (id : String) :
    (container.withHandler handler).defines id = container.defines id := by
  cases container <;> rfl

@[simp]
theorem notice?_withHandler (id : String) :
    (container.withHandler handler).notice? id = container.notice? id := by
  cases container <;> rfl

@[simp]
theorem base_withHandler :
    (container.withHandler handler).base = container.base.withHandler handler := by
  cases container <;> rfl

theorem storing_withHandler (id : String) (service : Value) (other : Container) :
    (container.withHandler handler).storing id service (other.withHandler handler) =
      (container.storing id service other).withHandler handler := by
  cases container with
  | interpreting interpreter => cases other <;> rfl
  | running machine =>
      dsimp only [withHandler, storing]
      cases (machine.program.routine? id).bind Routine.cache with
      | none => rfl
      | some table =>
          cases other with
          | interpreting interpreter => rfl
          | running other => cases table <;> rfl

@[simp]
theorem kept_withHandler (id : String) (options : ResolveOptions) (service : Value) :
    (container.withHandler handler).kept id options service =
      (container.kept id options service).withHandler handler := by
  unfold kept
  have hfactory : (container.withHandler handler).isFactory id = container.isFactory id := by
    cases container <;> rfl
  rw [hfactory, storing_withHandler]
  split <;> rfl

end Container

namespace World

/-- No container gives notices. -/
def silence (world : World) : World :=
  { world with
    containers := world.containers.map fun place => place.map (Container.withHandler .silent) }

def handler (world : World) (c : ContainerRef) : NoticeHandler :=
  ((world.container? c).map Container.handler).getD .silent

variable (world : World) (c : ContainerRef)

theorem container?_silence :
    world.silence.container? c = (world.container? c).map (Container.withHandler .silent) := by
  unfold container? silence
  rw [Array.getElem?_map]
  cases world.containers[c.index]? with
  | none => rfl
  | some place => cases place <;> rfl

theorem redirects_silence : world.Redirects (fun _ => .silent) world.silence where
  store := rfl
  container := world.container?_silence

theorem silence_put (container : Container) :
    (world.put c container).silence = world.silence.put c (container.withHandler .silent) := by
  unfold put silence
  simp

@[simp]
theorem cached?_silence (id : String) : world.silence.cached? c id = world.cached? c id := by
  unfold cached?
  rw [container?_silence]
  cases world.container? c <;> simp

@[simp]
theorem wants_silence (call : Call) : world.silence.wants call = world.wants call := by
  unfold wants
  cases call.home? with
  | none => rfl
  | some c =>
      simp only [Option.bind_eq_bind, Option.bind_some, container?_silence]
      cases world.container? c <;> simp [Container.wants_withHandler]

@[simp]
theorem opens_silence (call : Call) : world.silence.opens call = world.opens call := by
  unfold opens
  rw [wants_silence]
  simp

variable {world} in
theorem Compiled.silence (compiled : world.Compiled) : world.silence.Compiled := by
  intro c machine hat
  rw [container?_silence, Option.map_eq_some_iff] at hat
  obtain ⟨container, hat, hsilent⟩ := hat
  cases container with
  | interpreting interpreter => cases hsilent
  | running before =>
      cases hsilent
      obtain ⟨registry, config, hcompile⟩ := compiled hat
      exact ⟨registry, config, hcompile⟩

/-- A construction that is completed in silence lacks its notice and nothing else. -/
theorem completed_silence (inner : World) (c : ContainerRef) (id : String)
    (options : ResolveOptions) (depth : Nat) (b : Container) (service : Value) :
    { inner.silence.completed c id options depth (b.withHandler .silent) service with
      store := (inner.silence.completed c id options depth (b.withHandler .silent) service).store.announced
        id (b.notice? id) b.handler } =
      (inner.completed c id options depth b service).silence := by
  have hquiet : ∀ notice : Option Deprecation,
      inner.store.announced id notice .silent = inner.store := by
    intro notice
    cases notice <;> rfl
  unfold completed
  rw [silence_put]
  simp only [Container.handler_withHandler, Container.kept_withHandler,
    Container.setLoading_withHandler, Container.loading_withHandler]
  have hstore : inner.silence.store = inner.store := rfl
  rw [hstore, hquiet]
  rfl

end World

/-- The notice of the construction that a call began, given as the handlers have it when the service
is there. -/
def Call.heralds (handlers : ContainerRef → NoticeHandler) : Watcher := fun _ call world answer =>
  match world.opens call, answer with
  | some (c, id), (.ok service, later) =>
      let notice := (world.container? c).bind (Container.notice? id)
      (.ok service, { later with store := later.store.announced id notice (handlers c) })
  | _, answer => answer

theorem Call.heralds_plain {world : World} {call : Call} (hopens : world.opens call = none)
    (handlers : ContainerRef → NoticeHandler) (book : Book) (answer : Answer) :
    heralds handlers book call world answer = answer := by
  unfold heralds
  rw [hopens]

namespace Run

variable {α : Type} {handlers : ContainerRef → NoticeHandler} {world : World} {c : ContainerRef}

/-- From the silenced world `act` does what `other` does. -/
def Mutes (handlers : ContainerRef → NoticeHandler) (world : World) (act other : Run α) : Prop :=
  world.Compiled → world.handler = handlers →
    act world.silence = ((other world).1, (other world).2.silence) ∧ world.Stays (other world).2

theorem handler_of_stays {later : World} (h : world.Stays later) : later.handler = world.handler := by
  funext c
  have hbase := h.base c
  unfold World.handler
  cases hat : world.container? c with
  | none =>
      rw [hat, Option.map_none, Option.map_eq_none_iff] at hbase
      rw [hbase]
  | some a =>
      obtain ⟨b, hb, hsame⟩ := h.container hat
      rw [hb, Option.map_some, Option.map_some, Container.handler_of_base hsame]

theorem Mutes.next {β : Type} {act other : Run α} {next next' : α → Run β}
    (hact : Mutes handlers world act other)
    (hnext : ∀ a later, other world = (.ok a, later) → Mutes handlers later (next a) (next' a)) :
    Mutes handlers world (act >>= next) (other >>= next') := by
  intro compiled hhandlers
  obtain ⟨hsame, hstays⟩ := hact compiled hhandlers
  rcases hrun : other world with ⟨_ | a, later⟩
  · rw [hrun] at hsame hstays
    rw [bind_of_error hsame, bind_of_error hrun]
    exact ⟨rfl, hstays⟩
  · rw [hrun] at hsame hstays
    rw [bind_of_ok hsame, bind_of_ok hrun]
    obtain ⟨hsame', hstays'⟩ := hnext a later hrun (compiled.later hstays)
      ((handler_of_stays hstays).trans hhandlers)
    exact ⟨hsame', hstays.trans hstays'⟩

def muting (handlers : ContainerRef → NoticeHandler) : Congruence where
  view := World.silence
  handler _ := .silent
  HoldsAt := Mutes handlers
  redirects := World.redirects_silence
  congr hact hother h compiled hhandlers := by
    rw [hact, hother]
    exact h compiled hhandlers
  still result hact hother _ _ := by
    rw [hact, hother]
    exact ⟨rfl, .refl _⟩
  changes h world _ _ := ⟨rfl, .of_store (h world.store).code_eq⟩
  next := Mutes.next
  answers {α world act other} h compiled hhandlers := by
    obtain ⟨hsame, hstays⟩ := h compiled hhandlers
    rw [outcome_snd]
    refine ⟨?_, hstays⟩
    rcases hrun : other world with ⟨halt | a, later⟩
    · rw [hrun] at hsame
      cases halt with
      | error error => rw [outcome_of_error hsame, outcome_of_error hrun]
      | unfinished => rw [outcome_of_unfinished hsame, outcome_of_unfinished hrun]
    · rw [hrun] at hsame
      rw [outcome_of_ok hsame, outcome_of_ok hrun]

theorem changeContainer_mutes (c : ContainerRef) {f : Container → Container}
    (hbase : ∀ container : Container, (f container).base = container.base)
    (hf : ∀ container : Container,
      f (container.withHandler .silent) = (f container).withHandler .silent) :
    (muting handlers).Holds (changeContainer c f) (changeContainer c f) := by
  intro world _ _
  have hview := world.container?_silence c
  cases hat : world.container? c with
  | none =>
      rw [hat] at hview
      rw [changeContainer, bind_of_error (container_absent hview), bind_of_error (container_absent hat)]
      exact ⟨rfl, .refl world⟩
  | some container =>
      rw [hat] at hview
      rw [changeContainer_apply hview, changeContainer_apply hat, hf, ← World.silence_put]
      exact ⟨rfl, .of_put hat (hbase container)⟩

end Run

section Heralding

variable {handlers : ContainerRef → NoticeHandler} {world : World} {c : ContainerRef}
  {container : Container} {id : String} {recur recur' : Caller} {options : ResolveOptions}

/-- **A construction** gives its notice when it is completed, and else none. -/
theorem Container.obtain_heralded (h : (muting handlers).Callers recur recur')
    (hat : world.container? c = some container) (hdefined : container.defines id)
    (hcached : container.cached? id = none) {call : Call} (hopens : world.opens call = some (c, id))
    (book : Book) {act : Run Value}
    (hact : act world.silence = Call.heralds handlers book call world.silence
      ((container.withHandler .silent).obtain recur c id options world.silence)) :
    Mutes handlers world act (container.obtain recur' c id options) := by
  intro compiled hhandlers
  have hview := world.container?_silence c
  rw [hat, Option.map_some] at hview
  have hdefined' : (container.withHandler .silent).defines id := by
    rwa [defines_withHandler]
  have hcached' : (container.withHandler .silent).cached? id = none := by
    rwa [cached?_withHandler]
  rw [hact]
  unfold Call.heralds
  rw [World.opens_silence, hopens]
  cases henter : Chain.enter container.maxDepth container.loading id with
  | error error =>
      rw [obtain_refused hat hdefined hcached henter,
        obtain_refused hview hdefined' hcached' (by simpa using henter)]
      exact ⟨rfl, .refl world⟩
  | ok longer =>
      have henter' : Chain.enter (container.withHandler .silent).maxDepth
          (container.withHandler .silent).loading id = .ok longer := by simpa using henter
      have hentering : world.Stays (world.put c (container.setLoading longer)) :=
        .of_put hat (base_setLoading container longer)
      have hself := World.container?_put_self world c (container.setLoading longer) container hat
      obtain ⟨hsame, hmaking⟩ := make_holds h container .silent c id
        (world.put c (container.setLoading longer)) (compiled.later hentering)
        ((handler_of_stays hentering).trans hhandlers)
      change _ = ((container.make recur' c id _).1, (container.make recur' c id _).2.silence) at hsame
      rw [World.silence_put, ← setLoading_withHandler] at hsame
      rcases hmake : container.make recur' c id (world.put c (container.setLoading longer)) with
        ⟨result, inner⟩
      rw [hmake] at hsame hmaking
      obtain ⟨b, hb, hbase⟩ := hmaking.container hself
      rw [base_setLoading] at hbase
      cases result with
      | error halt =>
          rw [obtain_failed hat hdefined hcached henter hmake,
            obtain_failed hview hdefined' hcached' henter' hsame, loading_withHandler, cut_apply hb]
          have hb' := inner.container?_silence c
          rw [hb, Option.map_some] at hb'
          rw [cut_apply hb', World.silence_put, setLoading_withHandler, loading_withHandler]
          exact ⟨rfl, hentering.trans (hmaking.trans (.of_put hb (base_setLoading b _)))⟩
      | ok service =>
          have hb' := inner.container?_silence c
          rw [hb, Option.map_some] at hb'
          rw [obtain_completed hat hdefined hcached henter hmake hb hbase,
            obtain_completed hview hdefined' hcached' henter' hsame hb' (by simp [hbase])]
          have hnotice : (world.silence.container? c).bind (notice? id) = b.notice? id := by
            rw [hview, Option.bind_some, notice?_withHandler, notice?_of_base hbase]
          have hhandler : handlers c = b.handler := by
            rw [← hhandlers, World.handler, hat, Option.map_some, Option.getD_some,
              handler_of_base hbase]
          dsimp only
          rw [hnotice, hhandler, loading_withHandler]
          refine ⟨congrArg (Prod.mk _) (inner.completed_silence ..), ?_⟩
          refine hentering.trans (hmaking.trans (World.Stays.trans
            (.of_store (Store.code_announced ..)) (.of_put hb ?_)))
          rw [base_setLoading, base_kept]

/-- **Every call** in silence, with the notices of what it completed, is the call itself. -/
theorem Call.attended_heralds (handlers : ContainerRef → NoticeHandler) (depth : Nat) (book : Book) :
    (muting handlers).Callers (attended (heralds handlers) depth book) (run depth) := by
  induction depth generalizing book with
  | zero => exact fun call world _ _ => ⟨rfl, .refl world⟩
  | succ depth ih =>
      intro call world compiled hhandlers
      have hplain : world.opens call = none →
          attended (heralds handlers) (depth + 1) book call world.silence =
            step (attended (heralds handlers) depth book) call world.silence := by
        intro hopens
        have hopens' : world.silence.opens call = none := by rw [World.opens_silence, hopens]
        rw [attended_plain hopens', heralds_plain hopens']
      rcases world.asks_cases call with hwants | ⟨c, id, service, hwants, hcached⟩ | ⟨c, id, hopens⟩
      · have hpassing := step_passing (ih book) hwants fun c _ =>
          resetContainer_holds (ih book) c
            (changeContainer_mutes c Container.base_clearCache fun container => by
              cases container <;> rfl)
            (changeContainer_mutes c Container.base_clearRuntimeState fun container => by
              cases container <;> rfl) world
        rw [hplain (World.opens_of_passing hwants)]
        exact hpassing compiled hhandlers
      · have hgiven : attended (heralds handlers) (depth + 1) book call world.silence =
            (.ok service, world.silence) := by
          rw [hplain (World.opens_of_cached hwants hcached)]
          exact step_given compiled.silence (by rwa [World.wants_silence])
            (by rwa [World.cached?_silence]) _
        exact (muting handlers).still (.ok service) hgiven (step_given compiled hwants hcached _)
          compiled hhandlers
      · obtain ⟨container, hat, hdefined, hcached, hobtain⟩ := step_opening compiled hopens
        have hopens' : world.silence.opens call = some (c, id) := by
          rw [World.opens_silence, hopens]
        obtain ⟨silent, hsilent, -, -, hobtain'⟩ := step_opening compiled.silence hopens'
        rw [World.container?_silence, hat, Option.map_some, Option.some.injEq] at hsilent
        subst hsilent
        refine (muting handlers).congr rfl (hobtain _) ?_ compiled hhandlers
        refine Container.obtain_heralded (ih (book ++ [(c, id)])) hat hdefined hcached hopens book ?_
        rw [attended_opening hopens', hobtain']

end Heralding

/-- **Each completed construction gives its notice**, and nothing else does: with all containers
silenced and the notices given from outside, a request ends in the same way and with the same
journal. -/
theorem World.notices_given {world : World} (compiled : world.Compiled) (request : Request)
    (depth : Nat) :
    request.perform (Call.attended (Call.heralds world.handler) depth []) world.silence =
      ((request.perform (Call.run depth) world).1, (request.perform (Call.run depth) world).2.silence) :=
  (request.perform_holds (Call.attended_heralds world.handler depth []) world compiled rfl).1

end Wiring
