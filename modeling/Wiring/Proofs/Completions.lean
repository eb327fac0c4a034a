import Wiring.Proofs.Gains
import Wiring.Proofs.InProgress
import Wiring.Proofs.Notices

/-!
# Completed constructions

A query adds a service to a cache by completing a construction of it with the usual options, and in
no other way. Two runs of the query are compared: the one that gives up where it would reset a
container, and the same with an alarm where a construction of a certain service is completed. As long
as that service is not cached the two do the same, since it stays cached once it is. And if it comes to
be cached, there was an alarm, since only the end of its construction caches it.
-/

namespace Wiring

open Run

namespace World

/-- The call constructs a service of the definition, which is cached then. -/
structure Completes (c : ContainerRef) (id : String) (_ : Book) (call : Call) (world : World)
    (answer : Answer) : Prop where
  opens : world.opens call = some (c, id)
  usual : call.options.ignoreFreezing = false
  shared : ∀ container, world.container? c = some container → container.isFactory id = false
  succeeds : ∃ service, answer.1 = .ok service

end World

/-! ### Runs without resets -/

namespace Call

/-- The call, given up where it would reset a container. -/
def unreset : Nat → Call → Run Value := runWith fun _ _ => throw .unfinished

theorem unreset_reset (depth : Nat) (c : ContainerRef) (world : World) :
    (unreset depth (.reset c) world).1 = .error .unfinished := by
  cases depth <;> rfl

theorem unreset_succ {call : Call} (hquiet : ¬ call.Resets) (depth : Nat) :
    unreset (depth + 1) call = step (unreset depth) call := by
  cases call with
  | reset c => exact absurd trivial hquiet
  | _ => rfl

end Call

/-- Nothing is reset on the way: giving up there makes no difference. -/
def Request.Quiet (request : Request) (depth : Nat) (world : World) : Prop :=
  request.perform (Call.unreset depth) world = request.perform (Call.run depth) world

/-- User code that does not reset is quiet. -/
theorem World.Calm.unreset_shares {base : World} (calm : base.Calm) (depth : Nat) :
    Caller.Shares base (Call.unreset depth) (Call.run depth) := by
  induction depth with
  | zero => exact fun call _ k => .of_eq fun _ => ⟨rfl, .refl k⟩
  | succ depth ih =>
      intro call hquiet k
      rw [Call.unreset_succ hquiet, Call.run]
      refine .of_eq fun hretains => ?_
      exact (Call.step_shares ih (calm.later hretains) call hquiet).eq hretains

theorem World.Calm.quiet {world : World} (calm : world.Calm) {request : Request}
    (hquiet : ¬ request.Resets) (depth : Nat) : request.Quiet depth world :=
  ((request.perform_shares (calm.unreset_shares depth) hquiet).eq (.refl world)).1

/-! ### Runs with an alarm -/

namespace Run

variable {α : Type} {world : World} {c : ContainerRef} {id : String} {alarm : Run Value}

/-- The run `other` makes nothing but gains, and `act` is the same with an alarm where the service
becomes cached. -/
structure Alarms (alarm : Run Value) (c : ContainerRef) (id : String) (world : World)
    (act other : Run α) : Prop where
  gains : world.Gains (other world).2
  silent : (other world).2.cached? c id = none → act world = other world
  raised : alarm = throw .unfinished → world.cached? c id = none →
    (other world).2.cached? c id ≠ none → (act world).1 = .error .unfinished

/-- The same of runs that may be given up. -/
def AlarmsAt (alarm : Run Value) (c : ContainerRef) (id : String) (world : World)
    (act other : Run α) : Prop :=
  (other world).1 = .error .unfinished ∨ (world.Compiled → Alarms alarm c id world act other)

theorem Alarms.of_eq {act other : Run α} (hgains : world.Gains (other world).2)
    (hsame : act world = other world)
    (hkept : (other world).2.cached? c id = world.cached? c id) :
    Alarms alarm c id world act other where
  gains := hgains
  silent _ := hsame
  raised _ hnew hcached := absurd (hkept.trans hnew) hcached

theorem AlarmsAt.next {β : Type} {act other : Run α} {next next' : α → Run β}
    (hact : AlarmsAt alarm c id world act other)
    (hnext : ∀ a later, other world = (.ok a, later) →
      AlarmsAt alarm c id later (next a) (next' a)) :
    AlarmsAt alarm c id world (act >>= next) (other >>= next') := by
  have hgiven : ∀ {halt : Halt}, (act world).1 = .error halt →
      ((act >>= next) world).1 = .error halt := by
    intro halt hhalt
    rw [bind_of_error (Prod.ext hhalt rfl)]
  unfold AlarmsAt at hact ⊢
  rcases hrun : other world with ⟨halt | a, later⟩
  · rw [bind_of_error hrun]
    rw [hrun] at hact
    rcases hact with hhalt | h
    · exact .inl (by rw [Except.error.inj hhalt])
    · refine .inr fun compiled => ?_
      obtain ⟨hgains, hsilent, hraised⟩ := h compiled
      rw [hrun] at hgains hsilent hraised
      refine ⟨?_, fun hnew => ?_, fun halarm hnew hcached => ?_⟩
      · rwa [bind_of_error hrun]
      · rw [bind_of_error hrun] at hnew ⊢
        exact bind_of_error (hsilent hnew) next
      · rw [bind_of_error hrun] at hcached
        exact hgiven (hraised halarm hnew hcached)
  · rw [bind_of_ok hrun]
    have h := hact.resolve_left (by rw [hrun]; nofun)
    refine (hnext a later hrun).imp_right fun h' compiled => ?_
    obtain ⟨hgains, hsilent, hraised⟩ := h compiled
    rw [hrun] at hgains hsilent hraised
    obtain ⟨hgains', hsilent', hraised'⟩ := h' (compiled.later hgains.retains.stays)
    rw [← bind_of_ok hrun next'] at hgains' hsilent' hraised'
    refine ⟨hgains.trans hgains', fun hnew => ?_, fun halarm hnew hcached => ?_⟩
    · rw [bind_of_ok (hsilent (hgains'.uncached hnew))]
      exact hsilent' hnew
    · by_cases hlater : later.cached? c id = none
      · rw [bind_of_ok (hsilent hlater)]
        exact hraised' halarm hlater hcached
      · exact hgiven (hraised halarm hnew hlater)

def alarming (alarm : Run Value) (c : ContainerRef) (id : String) : Congruence where
  view world := world
  handler := Container.handler
  HoldsAt := AlarmsAt alarm c id
  redirects := World.redirects_self
  congr hact hother h := by
    refine h.imp (fun hgiven => by rw [hother, hgiven]) fun h compiled => ?_
    obtain ⟨hgains, hsilent, hraised⟩ := h compiled
    rw [← hother] at hgains hsilent hraised
    rw [← hact] at hsilent hraised
    exact ⟨hgains, hsilent, hraised⟩
  still result hact hother := by
    refine .inr fun _ => .of_eq ?_ (hact.trans hother.symm) ?_ <;> rw [hother]
    exact .refl _
  changes h world := .inr fun _ => .of_eq (.of_store (h world.store).retains) rfl rfl
  next := AlarmsAt.next
  answers {α world act other} h := by
    unfold AlarmsAt at h ⊢
    refine h.imp (fun hgiven => ?_) fun h compiled => ?_
    · rw [outcome_of_unfinished (Prod.ext hgiven rfl)]
    · obtain ⟨hgains, hsilent, hraised⟩ := h compiled
      refine ⟨?_, fun hnew => ?_, fun halarm hnew hcached => ?_⟩
      · rwa [outcome_snd]
      · rw [outcome_snd] at hnew
        exact outcome_congr (hsilent hnew)
      · rw [outcome_snd] at hcached
        rw [outcome_of_unfinished (Prod.ext (hraised halarm hnew hcached) rfl)]

end Run

section Obtaining

variable {world : World} {c d : ContainerRef} {container : Container} {id other : String}
  {recur recur' : Caller} {alarm : Run Value}

/-- A service is obtained, as `held` stands in the cache when it was made. -/
structure Obtains (alarm : Run Value) (c : ContainerRef) (id : String) (world : World)
    (act other : Run Value) (keeps : Prop) (held : Option Value) : Prop where
  gains : world.Gains (other world).2
  silent : held = none → act world = other world
  raised : alarm = throw .unfinished → world.cached? c id = none → held ≠ none →
    (act world).1 = .error .unfinished
  failed : ∀ halt, (other world).1 = .error halt → (other world).2.cached? c id = held
  kept : ∀ service, (other world).1 = .ok service → keeps →
    (other world).2.cached? c id = some service
  passed : ¬ keeps → (other world).2.cached? c id = held

/-- A construction that is refused changes nothing. -/
theorem Obtains.refused {act other : Run Value} {halt : Halt} {keeps : Prop}
    (hact : act world = (.error halt, world)) (hother : other world = (.error halt, world)) :
    Obtains alarm c id world act other keeps (world.cached? c id) where
  gains := by
    rw [hother]
    exact .refl world
  silent _ := hact.trans hother.symm
  raised _ hnew hheld := absurd hnew hheld
  failed _ _ := by rw [hother]
  kept service hok _ := by
    rw [hother] at hok
    cases hok
  passed _ := by rw [hother]

namespace Container

section Making

variable {longer : List String} {inner : World} {b : Container} {keeps : Prop}
  (hat : world.container? d = some container) (hdefined : container.defines other)
  (hcached : container.cached? other = none)
  (henter : Chain.enter container.maxDepth container.loading other = .ok longer)
  (hmaking : Alarms alarm c id (world.put d (container.setLoading longer))
    (container.make recur d other) (container.make recur' d other))

include hat hdefined hcached henter hmaking

/-- An alarm while the service is made ends the construction. -/
theorem obtain_raised (options : ResolveOptions) (halarm : alarm = throw .unfinished)
    (hnew : world.cached? c id = none)
    (hheld : (container.make recur' d other
      (world.put d (container.setLoading longer))).2.cached? c id ≠ none) :
    (container.obtain recur d other options world).1 = .error .unfinished := by
  rw [← World.cached?_entering hat longer] at hnew
  rw [obtain_failed hat hdefined hcached henter (Prod.ext (hmaking.raised halarm hnew hheld) rfl)]

theorem obtains_failed {halt : Halt} (hb : inner.container? d = some b)
    (hmake : container.make recur' d other (world.put d (container.setLoading longer)) =
      (.error halt, inner)) (options : ResolveOptions) :
    Obtains alarm c id world (container.obtain recur d other options)
      (container.obtain recur' d other options) keeps (inner.cached? c id) := by
  have hother : container.obtain recur' d other options world = _ :=
    obtain_failed hat hdefined hcached henter hmake
  have hlast : (container.obtain recur' d other options world).2.cached? c id =
      inner.cached? c id := by
    rw [hother, World.cached?_cut]
  have hraised := obtain_raised hat hdefined hcached henter hmaking options
  obtain ⟨hgains, hsilent, -⟩ := hmaking
  rw [hmake] at hgains hsilent hraised
  refine ⟨?_, fun hnew => ?_, hraised, fun _ _ => hlast, fun service hok => ?_, fun _ => hlast⟩
  · -- a construction that fails leaves what one leaves that keeps nothing
    obtain ⟨hentered, -, rfl⟩ := Chain.enter_eq_ok_iff.mp henter
    have hnothing := World.Gains.leave hat hgains hb hdefined hcached hentered
      { ignoreFreezing := true } default (.refl inner.store)
    rw [Container.kept, Bool.not_true, Bool.and_false, if_neg Bool.false_ne_true] at hnothing
    rw [hother, cut_apply hb]
    exact hnothing
  · rw [hother]
    exact obtain_failed hat hdefined hcached henter (hsilent hnew)
  · rw [hother] at hok
    cases hok

theorem obtains_completed {service : Value} (hb : inner.container? d = some b)
    (hbare : b.bare = container.bare)
    (hmake : container.make recur' d other (world.put d (container.setLoading longer)) =
      (.ok service, inner)) (options : ResolveOptions) :
    Obtains alarm c id world (container.obtain recur d other options)
      (container.obtain recur' d other options)
      (c = d ∧ id = other ∧ container.isFactory other = false ∧ options.ignoreFreezing = false)
      (inner.cached? c id) := by
  have hbase : b.base = container.base := base_of_bare hbare
  have hother : container.obtain recur' d other options world = _ :=
    obtain_completed hat hdefined hcached henter hmake hb hbase
  have hlast := World.cached?_completed hb ((defines_of_bare hbare other).trans hdefined)
    options container.loading.length service c id
  rw [isFactory_of_bare hbare] at hlast
  have hraised := obtain_raised hat hdefined hcached henter hmaking options
  obtain ⟨hgains, hsilent, -⟩ := hmaking
  rw [hmake] at hgains hsilent hraised
  refine ⟨?_, fun hnew => ?_, hraised, fun halt herror => ?_, fun held hok hkeeps => ?_,
    fun hpasses => ?_⟩
  · obtain ⟨hentered, -, rfl⟩ := Chain.enter_eq_ok_iff.mp henter
    rw [hother]
    exact World.Gains.leave hat hgains hb hdefined hcached hentered options service
      (inner.store.retains_announced ..)
  · rw [hother]
    exact obtain_completed hat hdefined hcached henter (hsilent hnew) hb hbase
  · rw [hother] at herror
    cases herror
  · rw [hother] at hok ⊢
    obtain rfl : service = held := Except.ok.inj hok
    rw [hlast, if_pos hkeeps]
  · rw [hother, hlast, if_neg hpasses]

end Making

/-- **A construction** makes gains, and caches its service at its end only. -/
theorem obtain_alarms (h : (alarming alarm c id).Callers recur recur')
    (compiled : world.Compiled) (hat : world.container? d = some container)
    (hdefined : container.defines other) (hcached : container.cached? other = none)
    (options : ResolveOptions) :
    (container.obtain recur' d other options world).1 = .error .unfinished ∨
      ∃ held, Obtains alarm c id world (container.obtain recur d other options)
          (container.obtain recur' d other options)
          (c = d ∧ id = other ∧ container.isFactory other = false ∧
            options.ignoreFreezing = false) held ∧
        (c = d → id = other → held = none) := by
  cases henter : Chain.enter container.maxDepth container.loading other with
  | error error =>
      refine .inr ⟨_, .refused (obtain_refused hat hdefined hcached henter)
        (obtain_refused hat hdefined hcached henter), ?_⟩
      rintro rfl rfl
      rw [World.cached?_eq hat, hcached]
  | ok longer =>
      have hentering : world.Stays (world.put d (container.setLoading longer)) :=
        .of_put hat (base_setLoading container longer)
      have hmaking := make_holds h container container.handler d other
        (world.put d (container.setLoading longer))
      rw [withHandler_self] at hmaking
      rcases hmake : container.make recur' d other (world.put d (container.setLoading longer)) with
        ⟨result, inner⟩
      rcases hmaking with hgiven | hmaking
      · rw [hmake] at hgiven
        obtain rfl : result = .error .unfinished := hgiven
        rw [obtain_failed hat hdefined hcached henter hmake]
        exact .inl rfl
      have hmaking := hmaking (compiled.later hentering)
      have hgains := hmaking.gains
      rw [hmake] at hgains
      obtain ⟨b, hb, hmade⟩ := hgains.container (World.container?_put_self world d _ container hat)
      have hfresh : c = d → id = other → inner.cached? c id = none := by
        rintro rfl rfl
        have hloading : id ∈ (container.setLoading longer).loading := by
          obtain ⟨-, -, rfl⟩ := Chain.enter_eq_ok_iff.mp henter
          rw [loading_setLoading]
          exact List.mem_append_right _ List.mem_cons_self
        rw [World.cached?_eq hb, hmade.fresh hloading, cached?_setLoading, hcached]
      refine .inr ⟨inner.cached? c id, ?_, hfresh⟩
      cases result with
      | error halt => exact obtains_failed hat hdefined hcached henter hmaking hb hmake options
      | ok service =>
          have hbare : b.bare = container.bare := by rw [hmade.bare, bare_setLoading]
          exact obtains_completed hat hdefined hcached henter hmaking hb hbare hmake options

end Container

/-- The construction of the service itself, with the alarm at its end. -/
theorem Obtains.alarmed {book : Book} {call : Call} {act other answering : Run Value}
    (hopens : world.opens call = some (c, id)) (hat : world.container? c = some container)
    (h : Obtains alarm c id world act other
      (container.isFactory id = false ∧ call.options.ignoreFreezing = false) none)
    (hquiet : ¬ World.Completes c id book call world (other world) → answering world = other world)
    (halarm : World.Completes c id book call world (other world) → answering world = alarm world) :
    Alarms alarm c id world answering other := by
  by_cases hcompletes : World.Completes c id book call world (other world)
  · have hcached : (other world).2.cached? c id ≠ none := by
      obtain ⟨service, hservice⟩ := hcompletes.succeeds
      rw [h.kept service hservice ⟨hcompletes.shared container hat, hcompletes.usual⟩]
      exact Option.some_ne_none service
    refine ⟨h.gains, fun hnew => absurd hnew hcached, fun hends _ _ => ?_⟩
    rw [halarm hcompletes, hends]
    rfl
  · refine .of_eq h.gains (hquiet hcompletes) ?_
    rw [(World.opens_eq_some.mp hopens).2]
    by_cases hkeeps : container.isFactory id = false ∧ call.options.ignoreFreezing = false
    · cases hresult : (other world).1 with
      | error halt => exact h.failed halt hresult
      | ok service =>
          refine absurd ⟨hopens, hkeeps.2, fun found hfound => ?_, service, hresult⟩ hcompletes
          rw [hat] at hfound
          cases hfound
          exact hkeeps.1
    · exact h.passed hkeeps

/-- A call that begins no construction of the service goes without an alarm for it. -/
theorem Call.alarmed_other (alarm : Run Value) {call : Call}
    (hother : world.opens call ≠ some (c, id)) (depth : Nat) (book : Book) :
    alarmed (World.Completes c id) alarm (depth + 1) book call world =
      step (alarmed (World.Completes c id) alarm depth (book ++ (world.opens call).toList)) call
        world :=
  alarmed_eq depth rfl fun hcompletes => hother hcompletes.opens

theorem Call.alarmed_opening {depth : Nat} {book : Book}
    (h : (alarming alarm c id).Callers
      (alarmed (World.Completes c id) alarm depth (book ++ [(d, other)])) recur)
    (compiled : world.Compiled) {call : Call} (hopens : world.opens call = some (d, other)) :
    AlarmsAt alarm c id world (alarmed (World.Completes c id) alarm (depth + 1) book call)
      (step recur call) := by
  obtain ⟨container, hat, hdefined, hcached, hobtain⟩ := step_opening compiled hopens
  refine (alarming alarm c id).congr rfl (hobtain recur) ?_
  have hstep : step (alarmed (World.Completes c id) alarm depth
      (book ++ (world.opens call).toList)) call world =
        container.obtain (alarmed (World.Completes c id) alarm depth (book ++ [(d, other)])) d other
          call.options world := by
    rw [hopens, Option.toList_some, hobtain]
  rcases Container.obtain_alarms h compiled hat hdefined hcached call.options with
    hgiven | ⟨held, hobtains, hfresh⟩
  · exact .inl hgiven
  refine .inr fun _ => ?_
  by_cases hself : c = d ∧ id = other
  · obtain ⟨rfl, rfl⟩ := hself
    obtain rfl := hfresh rfl rfl
    simp only [true_and] at hobtains
    rw [hobtains.silent rfl] at hstep
    exact hobtains.alarmed hopens hat (alarmed_eq depth hstep) (alarmed_alarm depth hstep)
  · have hother : world.opens call ≠ some (c, id) := by
      rw [hopens]
      rintro ⟨⟩
      exact hself ⟨rfl, rfl⟩
    have hleft := (alarmed_other alarm hother depth book).trans hstep
    have hlast := hobtains.passed fun hkeeps => hself ⟨hkeeps.1, hkeeps.2.1⟩
    refine ⟨hobtains.gains, fun hnew => ?_, fun hends hnew hheld => ?_⟩
    · exact hleft.trans (hobtains.silent (hlast.symm.trans hnew))
    · rw [hleft]
      exact hobtains.raised hends hnew (hlast ▸ hheld)

end Obtaining

/-- **Every call** that is not given up makes gains, and there is an alarm where the service becomes
cached. -/
theorem Call.unreset_alarms (alarm : Run Value) (c : ContainerRef) (id : String) (depth : Nat)
    (book : Book) :
    (alarming alarm c id).Callers (alarmed (World.Completes c id) alarm depth book)
      (unreset depth) := by
  induction depth generalizing book with
  | zero => exact fun call world => .inl rfl
  | succ depth ih =>
      intro call world
      by_cases hreset : call.Resets
      · cases call with
        | reset d => exact .inl (unreset_reset (depth + 1) d world)
        | _ => exact hreset.elim
      rw [unreset_succ hreset]
      by_cases compiled : world.Compiled
      swap
      · exact .inr fun h => absurd @h compiled
      rcases world.asks_cases call with hwants | ⟨d, other, service, hwants, hcached⟩ |
        ⟨d, other, hopens⟩
      · have hopens := World.opens_of_passing hwants
        have hother : world.opens call ≠ some (c, id) := by
          rw [hopens]
          nofun
        have hleft := alarmed_other alarm hother depth book
        rw [hopens, Option.toList_none, List.append_nil] at hleft
        refine (alarming alarm c id).congr hleft rfl ?_
        exact step_passing (ih book) hwants fun d hcall => absurd (hcall ▸ trivial) hreset
      · have hopens := World.opens_of_cached hwants hcached
        have hother : world.opens call ≠ some (c, id) := by
          rw [hopens]
          nofun
        exact (alarming alarm c id).still (.ok service)
          ((alarmed_other alarm hother depth book).trans (step_given compiled hwants hcached _))
          (step_given compiled hwants hcached _)
      · exact alarmed_opening (ih (book ++ [(d, other)])) compiled hopens

/-! ### Queries -/

/-- The name that is asked for selects the one definition. -/
inductive Request.Selects (world : World) :
    Request → ContainerRef → String → ResolveOptions → Prop
  | get {c : ContainerRef} {container : Container} (hat : world.container? c = some container)
      {name id : String} {options : ResolveOptions} {levels : Nat}
      (hselect : container.select options levels true name = some (.definition id)) :
      Selects world (.get c name options) c id options
  | reference {c : ContainerRef} {container : Container} (hat : world.container? c = some container)
      {name id : String} {levels : Nat}
      (hselect : container.select {} levels false name = some (.definition id)) :
      Selects world (.reference c name) c id {}

/-- The request is answered with an error. -/
def Request.Failed : (request : Request) → request.Reply → Prop
  | .get .., reply => ∃ error, reply = .error error
  | .reference .., reply => ∃ error, reply = .error error
  | _, _ => False

namespace World

variable {world later : World} {c : ContainerRef} {id : String}

def isFrozen (world : World) (c : ContainerRef) (id : String) : Bool :=
  (world.container? c).any (Container.isFrozen id)

/-- What becomes neither cached nor frozen. -/
theorem Gains.isFrozen_eq (h : world.Gains later) (hnew : later.cached? c id = none) :
    later.isFrozen c id = world.isFrozen c id := by
  unfold isFrozen
  have hrel := h.containers c
  cases hat : world.container? c with
  | none =>
      rw [hat] at hrel
      generalize later.container? c = place at hrel
      cases hrel
      rfl
  | some a =>
      obtain ⟨b, hb, hgains⟩ := h.container hat
      rw [hb, Option.any_some, Option.any_some]
      have hkind := Container.isInterpreting_of_bare hgains.bare
      cases a with
      | interpreting interpreter =>
          rw [cached?_eq hb] at hnew
          have hfrozen := hgains.frozen rfl id
          have hkept : ¬ (Container.interpreting interpreter).Adds b id := by
            rintro ⟨-, hcached⟩
            rw [hnew] at hcached
            cases hcached
          exact Bool.eq_iff_iff.mpr (hfrozen.trans (or_iff_left hkept))
      | running machine =>
          cases b with
          | interpreting interpreter => cases hkind
          | running other => rfl

/-- **A query for one definition** that fails, or does not freeze it, leaves it uncached. -/
theorem uncached_of_select (compiled : world.Compiled) {container : Container}
    (hat : world.container? c = some container) {isPublic : Bool} {name : String}
    {options : ResolveOptions} {levels : Nat}
    (hselect : container.select options levels isPublic name = some (.definition id))
    (hnew : world.cached? c id = none) {depth : Nat} {reply : Except Error Value}
    (hrun : outcome (Call.unreset depth (.locate isPublic c name options)) world =
      (.ok reply, later))
    (hfailed : (∃ error, reply = .error error) ∨ options.ignoreFreezing = true) :
    later.cached? c id = none := by
  have hended : ∀ {act : Run Value}, outcome act world = (.ok reply, later) →
      (act world).1 ≠ .error .unfinished := by
    intro act hact hgiven
    rw [outcome_of_unfinished (Prod.ext hgiven rfl)] at hact
    cases hact
  obtain ⟨hdefined, less, hobtain⟩ :=
    (Call.runWith_name (fun _ _ => throw Halt.unfinished) hat hselect depth).resolve_left (hended hrun)
  have hrun : outcome (container.obtain (Call.unreset less) c id options) world =
      (.ok reply, later) := (outcome_congr hobtain).symm.trans hrun
  rw [cached?_eq hat] at hnew
  obtain ⟨held, hobtains, hfresh⟩ :=
    (Container.obtain_alarms (Call.unreset_alarms (throw .unfinished) c id less []) compiled hat
      hdefined hnew options).resolve_left (hended hrun)
  obtain rfl := hfresh rfl rfl
  rcases hresult : container.obtain (Call.unreset less) c id options world with ⟨halt | service, last⟩
  · have hlast := hobtains.failed halt (by rw [hresult])
    cases halt with
    | unfinished => exact absurd (by rw [hresult]) (hended hrun)
    | error error =>
        rw [outcome_of_error hresult] at hrun
        rw [hresult] at hlast
        cases hrun
        exact hlast
  · rw [outcome_of_ok hresult] at hrun
    cases hrun
    have hignores := hfailed.resolve_left nofun
    have hlast := hobtains.passed fun hkeeps => by
      rw [hignores] at hkeeps
      cases hkeeps.2.2.2
    rwa [hresult] at hlast

theorem uncached_of_selects (compiled : world.Compiled) {request : Request}
    {options : ResolveOptions} (hselects : request.Selects world c id options)
    (hnew : world.cached? c id = none) {depth : Nat} {reply : request.Reply}
    (hrun : request.perform (Call.unreset depth) world = (.ok reply, later))
    (hfailed : request.Failed reply ∨ options.ignoreFreezing = true) :
    later.cached? c id = none := by
  cases hselects with
  | get hat hselect => exact uncached_of_select compiled hat hselect hnew hrun hfailed
  | reference hat hselect => exact uncached_of_select compiled hat hselect hnew hrun hfailed

/-- **Queries add what they complete.** Take containers of either kind in any state, any user code,
and a query that ends, in an answer or in an error, with nothing reset on the way; nothing is if user
code never resets (`Calm.quiet`). All that it changes in the containers are gains. A service that was
not cached is cached afterwards if and only if a construction of it was completed on the way, with the
usual options and of a definition whose services are shared. If the name that is asked for selects one
definition, whose service is not cached, and the query fails or ignores freezing, then the definition
becomes neither cached nor frozen. And the notices in the journal are those of the constructions that
were completed, each given once when the service was there. -/
theorem queries_gain (compiled : world.Compiled) {request : Request} {depth : Nat}
    (quiet : request.Quiet depth world) {reply : request.Reply}
    (hrun : request.perform (Call.run depth) world = (.ok reply, later)) :
    world.Gains later ∧
      (∀ c id, world.cached? c id = none →
        ((later.cached? c id).isSome ↔ request.Sometimes depth (Completes c id) world)) ∧
      (∀ c id options, request.Selects world c id options → world.cached? c id = none →
        request.Failed reply ∨ options.ignoreFreezing = true →
          later.cached? c id = none ∧ later.isFrozen c id = world.isFrozen c id) ∧
      request.perform (Call.attended (Call.heralds world.handler) depth []) world.silence =
        (.ok reply, later.silence) := by
  have hunreset := quiet.trans hrun
  have halarms : ∀ (alarm : Run Value) (c : ContainerRef) (id : String),
      Alarms alarm c id world
        (request.perform (Call.alarmed (Completes c id) alarm depth []))
        (request.perform (Call.unreset depth)) := by
    intro alarm c id
    have h := request.perform_holds (Call.unreset_alarms alarm c id depth []) world
    exact h.resolve_left (by rw [hunreset]; nofun) compiled
  have hgains : world.Gains later := by
    have h := (halarms (throw .unfinished) ⟨0⟩ "").gains
    rwa [hunreset] at h
  refine ⟨hgains, fun c id hnew => ⟨fun hcached => ?_, fun hsometimes => ?_⟩, ?_, ?_⟩
  · refine ⟨throw .unfinished, fun hsame => ?_⟩
    have hraised := (halarms (throw .unfinished) c id).raised rfl hnew
    rw [hunreset, hsame, hrun] at hraised
    cases hraised (Option.isSome_iff_ne_none.mp hcached)
  · obtain ⟨alarm, hdifferent⟩ := hsometimes
    rw [Option.isSome_iff_ne_none]
    intro hlater
    have hsilent := (halarms alarm c id).silent
    rw [hunreset] at hsilent
    exact hdifferent ((hsilent hlater).trans hrun.symm)
  · intro c id options hselects hnew hfailed
    have hlater := uncached_of_selects compiled hselects hnew hunreset hfailed
    exact ⟨hlater, hgains.isFrozen_eq hlater⟩
  · rw [notices_given compiled, hrun]

/-- The service `a` fails, and `b`, which is deprecated, goes on without it. -/
def recovering : Registry :=
  let a := Registration.set "a" (.ofEntity (.invocable ⟨0, "failing", []⟩))
  let b := Registration.set "b" <|
    (Definition.ofEntity (.invocable ⟨1, "recovering", []⟩)).markDeprecated "wiring" "2" (some "gone")
  b.after (a.after ∅ {}) {}

def recoveringCode : Array Code :=
  #[fun _ _ => .done (.error (.notFound "nothing")),
    fun c _ => .ask (.get c "a" {}) fun _ => .done (.ok (.str "alone"))]

theorem recovering_resetFree : recovering.ResetFree recoveringCode where
  catalog := {
    construct := fun hspec => by cases hspec
    method := fun hmethod => by cases hmethod
    teardown := fun hdeclared => by cases hdeclared }
  decorators hfound := by
    rcases Registry.mem_entries_of_definition hfound with _ | ⟨_, _ | ⟨_, hnone⟩⟩
    · exact fun _ hmem => absurd hmem List.not_mem_nil
    · exact fun _ hmem => absurd hmem List.not_mem_nil
    · cases hnone
  code body hbody c args := by
    simp only [recoveringCode, List.mem_toArray, List.mem_cons, List.not_mem_nil, or_false] at hbody
    rcases hbody with rfl | rfl
    · trivial
    · exact ⟨id, fun _ => trivial⟩

def recoveringInterpreting : World :=
  alone { code := recoveringCode } (.interpreting (.ofRegistry recovering {} .journal))

/-- The service of `b` is cached and announced, and `a` is neither. -/
theorem queries_gain_recovering :
    ∃ later, (Request.get ⟨0⟩ "b" {}).perform (Call.run 4) recoveringInterpreting =
        (.ok (.ok (.str "alone")), later) ∧
      recoveringInterpreting.Gains later ∧
      (Request.get ⟨0⟩ "b" {}).Sometimes 4 (Completes ⟨0⟩ "b") recoveringInterpreting ∧
      ¬ (Request.get ⟨0⟩ "b" {}).Sometimes 4 (Completes ⟨0⟩ "a") recoveringInterpreting ∧
      later.store.journal.toList =
        [.deprecated "b" ⟨"wiring", "2", "gone"⟩] := by
  have hstart : recovering.Starts {} (.interpreting (.ofRegistry recovering {} .journal)) :=
    .interpreting .journal
  have calm : recoveringInterpreting.Calm := hstart.calm recovering_resetFree
  obtain ⟨later, hrun, ha, hb, hjournal⟩ : ∃ later,
      (Request.get ⟨0⟩ "b" {}).perform (Call.run 4) recoveringInterpreting =
        (.ok (.ok (.str "alone")), later) ∧ later.cached? ⟨0⟩ "a" = none ∧
      (later.cached? ⟨0⟩ "b").isSome ∧ later.store.journal.toList =
        [.deprecated "b" ⟨"wiring", "2", "gone"⟩] :=
    ⟨_, rfl, rfl, rfl, rfl⟩
  have hquiet : ¬ (Request.get ⟨0⟩ "b" {}).Resets := fun h => h
  obtain ⟨hgains, hadds, -, -⟩ :=
    queries_gain (compiled_alone hstart _) (calm.quiet hquiet 4) hrun
  refine ⟨later, hrun, hgains, (hadds ⟨0⟩ "b" rfl).mp hb, fun hsometimes => ?_, hjournal⟩
  have hcached := (hadds ⟨0⟩ "a" rfl).mpr hsometimes
  rw [ha] at hcached
  cases hcached

end World

end Wiring
