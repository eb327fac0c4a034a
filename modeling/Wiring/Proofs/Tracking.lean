import Wiring.Proofs.EagerGraph
import Wiring.Proofs.Isolation

/-!
# Runs that track a compilation

A run tracks a compiling step if the two end alike: both well, or both in the same error. Some errors
are exempt, because nothing that is compiled tells of them. A run that tracks the empty step ends
well or in an exempt error.
-/

namespace Wiring

/-- What is wrong with a value and not with what was asked for. -/
def Fault.AtRunTime : Fault → Prop
  | .noMethod .. | .notCallable _ | .notObject _ | .notBindable _ => True
  | _ => False

namespace Run

variable {α β : Type} {exempt : Error → Prop}

/-- From `world` the run ends as the step does from `finished`, unless its error is exempt. -/
def Tracks (exempt : Error → Prop) (act : Compiling Unit) (run : Run α)
    (post : α → Dict Routine → World → Prop) (finished : Dict Routine) (world : World) : Prop :=
  match run world with
  | (.ok a, later) => ∃ last, act finished = .ok ((), last) ∧ post a last later
  | (.error (.error error), _) =>
      exempt error ∨ ∃ found, act finished = .error found ∧ found.rootCause = error
  | (.error .unfinished, _) => False

section Tracks

variable {act : Compiling Unit} {run : Run α} {post : α → Dict Routine → World → Prop}
  {finished : Dict Routine} {world : World}

theorem Tracks.pure {a : α} (h : post a finished world) :
    Tracks exempt (pure ()) (pure a) post finished world :=
  ⟨finished, rfl, h⟩

theorem Tracks.fail_exempt {error : Error} (h : exempt error) :
    Tracks exempt act (fail error : Run α) post finished world := Or.inl h

theorem Tracks.fail {error cause : Error} (hcause : error.rootCause = cause) :
    Tracks exempt (Compiling.lift (.error error)) (fail cause : Run α) post finished world :=
  Or.inr ⟨error, rfl, hcause⟩

theorem Tracks.bind {next : α → Run β} {act' : Compiling Unit}
    {mid : α → Dict Routine → World → Prop} {post : β → Dict Routine → World → Prop}
    (hrun : Tracks exempt act run mid finished world)
    (hnext : ∀ a last later, run world = (.ok a, later) → mid a last later →
      Tracks exempt act' (next a) post last later) :
    Tracks exempt (act >>= fun _ => act') (run >>= next) post finished world := by
  unfold Tracks at hrun
  unfold Tracks
  rw [bind_apply]
  cases hends : run world with
  | mk result later =>
      rw [hends] at hrun
      cases result with
      | ok a =>
          obtain ⟨last, hact, hmid⟩ := hrun
          have hstep : (act >>= fun _ => act') finished = act' last := by
            change (act finished).bind (fun out => act' out.2) = _
            rw [hact]
            rfl
          rw [hstep]
          exact hnext a last later hends hmid
      | error halt =>
          cases halt with
          | unfinished => exact hrun
          | error error =>
              rcases hrun with hexempt | ⟨found, hact, hcause⟩
              · exact Or.inl hexempt
              · refine Or.inr ⟨found, ?_, hcause⟩
                change (act finished).bind (fun out => act' out.2) = _
                rw [hact]
                rfl

theorem Tracks.imp {post' : α → Dict Routine → World → Prop}
    (hrun : Tracks exempt act run post finished world)
    (hpost : ∀ a last later, post a last later → post' a last later) :
    Tracks exempt act run post' finished world := by
  unfold Tracks at *
  split at hrun
  · obtain ⟨last, hact, h⟩ := hrun
    exact ⟨last, hact, hpost _ _ _ h⟩
  · exact hrun
  · exact hrun

/-- What the step is known to end in holds too. -/
theorem Tracks.with_ends {good : Unit → Dict Routine → Prop} {fault : Error → Prop}
    (hends : Compiling.Ends act finished good fault)
    (hrun : Tracks exempt act run post finished world) :
    Tracks exempt act run (fun a last later => good () last ∧ post a last later) finished world := by
  unfold Tracks at *
  unfold Compiling.Ends at hends
  split at hrun
  · obtain ⟨last, hact, h⟩ := hrun
    rw [hact] at hends
    exact ⟨last, hact, hends, h⟩
  · exact hrun
  · exact hrun

/-- What a step does elsewhere does not matter. -/
theorem Tracks.of_act_eq {act' : Compiling Unit} (hact : act finished = act' finished)
    (hrun : Tracks exempt act run post finished world) :
    Tracks exempt act' run post finished world := by
  unfold Tracks at *
  rwa [hact] at hrun

/-- Nor does the rest of a run that does the same. -/
theorem Tracks.of_run_eq {run' : Run α} {world' : World} (hsame : run world = run' world')
    (hrun : Tracks exempt act run' post finished world') :
    Tracks exempt act run post finished world := by
  unfold Tracks at *
  rwa [hsame]

theorem Tracks.within {id : String} (hrun : Tracks exempt act run post finished world) :
    Tracks exempt (Compiling.within id act) run post finished world := by
  unfold Tracks at *
  unfold Compiling.within
  split
  · next hends =>
      rw [hends] at hrun
      obtain ⟨last, hact, h⟩ := hrun
      exact ⟨last, by rw [hact]; rfl, h⟩
  · next hends =>
      rw [hends] at hrun
      rcases hrun with hexempt | ⟨found, hact, rfl⟩
      · exact Or.inl hexempt
      · exact Or.inr ⟨found.within id, by rw [hact]; rfl, Error.rootCause_within id found⟩
  · next hends => rwa [hends] at hrun

/-- The chain is longer inside and as before outside. -/
theorem Tracks.entering {c : ContainerRef} {id : String} {container : Container}
    {longer : List String} (hat : world.container? c = some container)
    (henter : Chain.enter container.maxDepth container.loading id = .ok longer)
    (hrun : Tracks exempt act run
      (fun a last later => post a last (cut c container.loading.length later)) finished
        (world.put c (container.setLoading longer))) :
    Tracks exempt act (Run.entering c id run) post finished world := by
  unfold Tracks at *
  rw [entering_apply hat henter]
  cases hends : run (world.put c (container.setLoading longer)) with
  | mk result later =>
      rw [hends] at hrun
      cases result with
      | ok a => exact hrun
      | error halt =>
          cases halt with
          | error error => exact hrun
          | unfinished => exact hrun

end Tracks

/-- The run tracks the step from wherever `G` holds, and `G` holds again when they end well. -/
def Follows (exempt : Error → Prop) (G : Dict Routine → World → Prop) (act : Compiling Unit)
    (run : Run α) : Prop :=
  ∀ finished world, G finished world →
    Tracks exempt act run (fun _ last later => G last later) finished world

/-- What `G` says of a world does not depend on its store, the code apart. -/
def Storeless (G : Dict Routine → World → Prop) : Prop :=
  ∀ finished world store, G finished world → store.code = world.store.code →
    G finished { world with store }

section Follows

variable {G : Dict Routine → World → Prop} {act act' : Compiling Unit} {run : Run α}

theorem Follows.pure (a : α) : Follows exempt G (pure ()) (pure a : Run α) :=
  fun _ _ h => Tracks.pure h

theorem Follows.fail_exempt {error : Error} (h : exempt error) :
    Follows exempt G act (fail error : Run α) := fun _ _ _ => Tracks.fail_exempt h

theorem Follows.fail {error cause : Error} (hcause : error.rootCause = cause) :
    Follows exempt G (Compiling.lift (.error error)) (fail cause : Run α) := fun _ _ _ =>
  Tracks.fail hcause

theorem Follows.bind {next : α → Run β} (hrun : Follows exempt G act run)
    (hnext : ∀ a, run.Gives a → Follows exempt G act' (next a)) :
    Follows exempt G (act >>= fun _ => act') (run >>= next) :=
  fun finished world h => (hrun finished world h).bind fun a last later hends =>
    hnext a ⟨world, later, hends⟩ last later

theorem Follows.within (id : String) (hrun : Follows exempt G act run) :
    Follows exempt G (Compiling.within id act) run :=
  fun finished world h => (hrun finished world h).within

/-- The continuation of a run that tracks nothing. -/
theorem Follows.and_then {next : α → Run β} (hrun : Follows exempt G act run)
    (hnext : ∀ a, Follows exempt G (Pure.pure ()) (next a)) :
    Follows exempt G act (run >>= next) := by
  have h := hrun.bind fun a _ => hnext a
  rwa [show (act >>= fun _ => Pure.pure ()) = act from bind_pure_unit] at h

/-- Two runs that track nothing. -/
theorem Follows.bind_pure {next : α → Run β} (hrun : Follows exempt G (Pure.pure ()) run)
    (hnext : ∀ a, run.Gives a → Follows exempt G (Pure.pure ()) (next a)) :
    Follows exempt G (Pure.pure ()) (run >>= next) := by
  have h := hrun.bind hnext
  rwa [pure_bind] at h

/-- A run before the one that tracks. -/
theorem Follows.after {next : α → Run β} (hrun : Follows exempt G (Pure.pure ()) run)
    (hnext : ∀ a, Follows exempt G act (next a)) : Follows exempt G act (run >>= next) := by
  have h := hrun.bind fun a _ => hnext a
  rwa [pure_bind] at h

theorem Follows.foldlM {items : List β} {step : α → β → Run α}
    (hstep : ∀ item ∈ items, ∀ a, Follows exempt G (Pure.pure ()) (step a item)) (a : α) :
    Follows exempt G (Pure.pure ()) (items.foldlM step a) := by
  induction items generalizing a with
  | nil => exact Follows.pure a
  | cons item rest ih =>
      rw [List.foldlM_cons]
      apply Follows.after (hstep item List.mem_cons_self a)
      intro b
      exact ih (fun other hother => hstep other (List.mem_cons_of_mem _ hother)) b

theorem Follows.onStore (hG : Storeless G) {f : Store → α × Store}
    (hcode : ∀ store, (f store).2.code = store.code) :
    Follows exempt G (Pure.pure ()) (Run.onStore f) := by
  intro finished world h
  exact ⟨finished, rfl, hG finished world _ h (hcode world.store)⟩

theorem Follows.changeStore (hG : Storeless G) {f : Store → Store}
    (hcode : ∀ store, (f store).code = store.code) :
    Follows exempt G (Pure.pure ()) (Run.changeStore f) := by
  intro finished world h
  exact ⟨finished, rfl, hG finished world _ h (hcode world.store)⟩

variable {raises : Error → Prop} (hraises : ∀ error, raises error → exempt error)
  (hG : Storeless G) (recur : Caller)

include hraises hG

/-- Isolated code tracks nothing. -/
theorem Follows.isolated {b : Behaviour α} (h : b.Isolated raises) :
    Follows exempt G (Pure.pure ()) (b.run recur) := by
  intro finished world hholds
  obtain ⟨result, store, hrun, hcode, hraised⟩ := h.run_eq recur world
  apply Tracks.of_run_eq hrun
  cases result with
  | ok a => exact Tracks.pure (hG finished world store hholds hcode)
  | error error => exact Tracks.fail_exempt (hraises error (hraised error rfl))

theorem Follows.decorate {c : ContainerRef} {decorators : List Decorator}
    (h : ∀ decorator ∈ decorators, ∀ c service, (decorator.apply c service).Isolated raises)
    (service : Value) : Follows exempt G (Pure.pure ()) (Run.decorate recur c decorators service) :=
  Follows.foldlM (fun decorator hmem service => .isolated hraises hG recur (h decorator hmem c service))
    service

omit hraises hG in
theorem Follows.callService {c : ContainerRef}
    (hexempt : ∀ id fault, Fault.AtRunTime fault → exempt (.invalidEntity id fault))
    (hinvoke : ∀ f args, Follows exempt G (Pure.pure ()) (recur (.invoke c f args)))
    (id name : String) (service : Value) (args : CallArgs) :
    Follows exempt G (Pure.pure ()) (Run.callService recur c id name service args) := by
  unfold Run.callService
  split
  · exact hinvoke _ args
  · split
    · exact .pure _
    · exact .fail_exempt (hexempt _ _ trivial)

omit hraises hG in
theorem Follows.runExtra {c : ContainerRef}
    (hinvoke : ∀ f args, Follows exempt G (Pure.pure ()) (recur (.invoke c f args)))
    (service code : Value) : Follows exempt G (Pure.pure ()) (Run.runExtra recur c service code) := by
  unfold Run.runExtra
  split
  · exact Follows.and_then (hinvoke _ _) fun _ => .pure ()
  · exact .pure ()

theorem Follows.callMethod {catalog : Catalog} (hcatalog : catalog.Isolated raises)
    (hexempt : ∀ id fault, Fault.AtRunTime fault → exempt (.invalidEntity id fault)) (id name method : String)
    (service : Value) (args : CallArgs) :
    Follows exempt G (Pure.pure ()) (Run.callMethod recur catalog id name service method args) := by
  unfold Run.callMethod
  split
  · next o =>
      unfold Catalog.callMethod
      cases hmethod : catalog.method? o method with
      | some body => exact .isolated hraises hG recur (hcatalog.method hmethod args)
      | none => exact .fail_exempt (hexempt _ _ trivial)
  · exact .fail_exempt (hexempt _ _ trivial)

/-- A member that cannot be bound fails before its value is made. -/
theorem Follows.bindMember {catalog : Catalog} (hcatalog : catalog.Isolated raises)
    (hexempt : ∀ id fault, Fault.AtRunTime fault → exempt (.invalidEntity id fault))
    (id name : String) (service : Value) {value : Run Value} (hvalue : Follows exempt G act value) :
    Follows exempt G act (Run.bindMember recur catalog id service name value) := by
  unfold Run.bindMember
  split
  · next o =>
      exact Follows.and_then hvalue fun v =>
        .isolated hraises hG recur (hcatalog.applyMember o name v)
  · exact .fail_exempt (hexempt _ _ trivial)

end Follows

theorem Follows.announce {exempt : Error → Prop} {G : Dict Routine → World → Prop}
    (hG : Storeless G) {c : ContainerRef}
    (hat : ∀ finished world, G finished world → ∃ container, world.container? c = some container)
    (id : String) (notice : Option Deprecation) :
    Follows exempt G (Pure.pure ()) (Run.announce c id notice) := by
  intro finished world hholds
  obtain ⟨container, hcontainer⟩ := hat finished world hholds
  unfold Run.announce
  apply Tracks.of_run_eq (bind_of_ok (container_apply hcontainer) _)
  split
  · next notice _ =>
      exact Follows.changeStore hG (f := (·.record (.deprecated id notice))) (fun _ => rfl) finished
        world hholds
  · exact Follows.pure () finished world hholds

/-- Isolated code of callables may be invoked as soon as one more call may be nested. -/
theorem Follows.invoke {exempt raises : Error → Prop} {G : Dict Routine → World → Prop}
    (hG : Storeless G) (hraises : ∀ error, raises error → exempt error) {code : Array Code}
    (hcode : ∀ finished world, G finished world → world.store.code = code)
    (hisolated : ∀ {address : Nat} {body : Code}, code[address]? = some body →
      ∀ c args, (body c args).Isolated raises) {depth : Nat} (hdepth : 0 < depth)
    (c : ContainerRef) (f : CallableRef) (args : CallArgs) :
    Follows exempt G (Pure.pure ()) (Call.run depth (.invoke c f args)) := by
  obtain ⟨less, rfl⟩ : ∃ less, depth = less + 1 := ⟨depth - 1, by omega⟩
  intro finished world hholds
  cases hbody : world.store.codeOf? f with
  | none =>
      apply Tracks.of_run_eq (Call.run_invoke_uncoded hbody less c args)
      exact Follows.pure Value.null finished world hholds
  | some body =>
      apply Tracks.of_run_eq (Call.run_invoke hbody less c args)
      rw [Store.codeOf?, hcode finished world hholds] at hbody
      exact Follows.isolated hraises hG (Call.run less) (hisolated hbody c args) finished world
        hholds

end Run

/-- Two definitions without user code. -/
theorem Registry.callLoop_isolated (back : Argument) (raises : Error → Prop) :
    (callLoop back).Isolated raises #[] where
  catalog := {
    construct := fun {className _ _} hspec => by
      have hnone : (callLoop back).catalog.class? className = none := rfl
      rw [hnone] at hspec
      cases hspec
    method := fun {o name _} hmethod => by
      have hnone : (callLoop back).catalog.method? o name = none := rfl
      rw [hnone] at hmethod
      cases hmethod }
  decorators hfound := by
    rcases mem_entries_of_definition hfound with _ | ⟨_, _ | ⟨_, hnone⟩⟩
    · exact fun _ hmem => absurd hmem List.not_mem_nil
    · exact fun _ hmem => absurd hmem List.not_mem_nil
    · cases hnone
  code hbody := by simp at hbody

end Wiring
