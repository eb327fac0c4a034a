import Wiring.Proofs.Matching

/-!
# Running again

A machine that is run again, with another journal behind it and with room for deeper nesting, does
the same. Nothing reads the journal, and a run that ended does not change with the room that is left.
-/

namespace Wiring

/-- The user code that the machine can run does not reset. -/
structure Machine.ResetFree (machine : Machine) : Prop where
  catalog : machine.catalog.ResetFree
  decorators : ∀ routine ∈ machine.program.routines, ∀ decorator ∈ routine.decorators,
    ∀ c service, (decorator.apply c service).ResetFree

/-- The same machine twice. -/
def Container.SameMachine (a b : Container) : Prop :=
  a = b ∧ ∃ machine : Machine, a = .running machine ∧ machine.ResetFree

theorem Container.congruent_sameMachine : Congruent SameMachine where
  has h _ := congrArg _ h.1
  keys h := congrArg _ h.1
  parameter h _ := congrArg _ h.1
  tagged h _ := congrArg _ h.1
  initialized h _ := congrArg _ h.1
  catalog h := congrArg _ h.1
  maxDepth h := congrArg _ h.1
  handler h := congrArg _ h.1
  loading h := congrArg _ h.1
  setLoading := by
    rintro _ _ ⟨rfl, machine, rfl, hfree⟩ chain
    exact ⟨rfl, _, rfl, hfree.catalog, hfree.decorators⟩
  clearCache := by
    rintro _ _ ⟨rfl, machine, rfl, hfree⟩
    exact ⟨rfl, _, rfl, hfree.catalog, hfree.decorators⟩
  clearRuntimeState := by
    rintro _ _ ⟨rfl, machine, rfl, hfree⟩
    exact ⟨rfl, _, rfl, hfree.catalog, hfree.decorators⟩

namespace Machine

open Run Container

variable {side : Side} {p q : Array Event} {recur recur' : Caller} {c : ContainerRef}
  {machine : Machine} {id : String}

/-- Routines match as other calls do. -/
structure Reruns (side : Side) (p q : Array Event) (recur recur' : Caller) : Prop where
  asked : Caller.Matches side (World.Alike SameMachine p q) recur recur'
  routine : ∀ c position, Matches side (World.Alike SameMachine p q) (recur (.routine c position))
    (recur' (.routine c position))

theorem create_reruns (h : Reruns side p q recur recur') (hfree : machine.ResetFree)
    {routine : Routine} (hroutine : routine ∈ machine.program.routines) :
    Matches side (World.Alike SameMachine p q) (create recur c machine routine)
      (create recur' c machine routine) := by
  have hpieces : (Matches.concord side (World.Alike SameMachine p q) fun _ => True).Evaluates recur
      recur' c machine machine routine.id := {
    routine := h.routine c
    invoke := h.asked.invoke c
    construct := fun className args => Behaviour.run_matches congruent_sameMachine h.asked _
      (hfree.catalog.instantiate routine.id className args)
    callService := .callService h.asked c routine.id
    callMethod := .callMethod congruent_sameMachine h.asked hfree.catalog routine.id
    handle := fun target => .onStore (Store.silent_addHandle target (some c))
    parameter := fun _ => .ofExcept _
    member := fun service name _ _ hvalue =>
      .bindMember congruent_sameMachine h.asked hfree.catalog routine.id service name hvalue
    extra := .runExtra h.asked c }
  exact Concord.routine_holds hpieces
    (.decorate congruent_sameMachine h.asked c (hfree.decorators routine hroutine))

theorem keep_reruns (cache : Option CacheTable) (options : ResolveOptions) (service : Value) :
    Matches side (World.Alike SameMachine p q) (keep c id cache options service)
      (keep c id cache options service) := by
  have hstore : ∀ table (a b : Container), SameMachine a b →
      SameMachine (store table id service a) (store table id service b) := by
    rintro table _ _ ⟨rfl, machine, rfl, hfree⟩
    cases table with
    | services => exact ⟨rfl, _, rfl, hfree.catalog, hfree.decorators⟩
    | privates => exact ⟨rfl, _, rfl, hfree.catalog, hfree.decorators⟩
  unfold keep
  cases cache with
  | none => exact .pure service
  | some table =>
      cases options.ignoreFreezing with
      | true => exact .pure service
      | false => exact (Matches.changeContainer (hstore table)).bind fun _ => .pure service

theorem runRoutine_reruns (h : Reruns side p q recur recur') (hfree : machine.ResetFree)
    {routine : Routine} (hroutine : routine ∈ machine.program.routines) (options : ResolveOptions) :
    Matches side (World.Alike SameMachine p q) (runRoutine recur c machine routine options)
      (runRoutine recur' c machine routine options) := by
  cases hcached : machine.cached? routine with
  | some service =>
      rw [runRoutine_cached hcached, runRoutine_cached hcached]
      exact .pure service
  | none =>
      rw [runRoutine_made hcached, runRoutine_made hcached]
      apply Matches.entering congruent_sameMachine
      apply (create_reruns h hfree hroutine).bind
      intro service
      refine (Matches.announce congruent_sameMachine c routine.id routine.deprecation).bind
        fun _ => ?_
      exact keep_reruns routine.cache options service

theorem resolve_reruns (h : Reruns side p q recur recur') (hfree : machine.ResetFree)
    (name : String) (options : ResolveOptions) :
    Matches side (World.Alike SameMachine p q) (resolve recur c machine name options)
      (resolve recur' c machine name options) := by
  unfold resolve
  dsimp only
  split
  · next routine hroutine =>
      exact runRoutine_reruns h hfree (List.mem_of_find?_eq_some hroutine) options
  · exact .resolveType h.asked c _ _ options

theorem get_reruns (h : Reruns side p q recur recur') (hfree : machine.ResetFree)
    (name : String) (options : ResolveOptions) :
    Matches side (World.Alike SameMachine p q) (get recur c machine name options)
      (get recur' c machine name options) := by
  unfold get
  dsimp only
  split
  · exact resolve_reruns h hfree _ options
  · split
    · exact .fail _
    · exact .resolveType h.asked c _ _ options

theorem runAt_reruns (h : Reruns side p q recur recur') (hfree : machine.ResetFree)
    (position : Nat) :
    Matches side (World.Alike SameMachine p q) (runAt recur c machine position)
      (runAt recur' c machine position) := by
  unfold runAt
  split
  · next routine hroutine => exact runRoutine_reruns h hfree (List.mem_of_getElem? hroutine) {}
  · exact .fail _

theorem step_reruns (h : Reruns side p q recur recur') :
    Reruns side p q (Call.step recur) (Call.step recur') where
  asked := {
    get := fun c id options => Matches.container fun a b hsame => by
      obtain ⟨rfl, machine, rfl, hfree⟩ := hsame
      exact get_reruns h hfree id options
    resolve := fun c id options => Matches.container fun a b hsame => by
      obtain ⟨rfl, machine, rfl, hfree⟩ := hsame
      exact resolve_reruns h hfree id options
    invoke := Call.matches_invoke congruent_sameMachine h.asked
    force := Call.matches_forceHandle h.asked }
  routine c position := Matches.container fun a b hsame => by
    obtain ⟨rfl, machine, rfl, hfree⟩ := hsame
    exact runAt_reruns h hfree position

theorem Reruns.of_all
    (h : ∀ call, Matches side (World.Alike SameMachine p q) (recur call) (recur' call)) :
    Reruns side p q recur recur' :=
  ⟨⟨fun _ _ _ => h _, fun _ _ _ => h _, fun _ _ _ => h _, fun _ => h _⟩, fun _ _ => h _⟩

/-- **Machines run again alike.** What ended ends so wherever there is room for as deep a nesting, and
whatever the journal says. -/
theorem run_reruns (p q : Array Event) {depth deeper : Nat} (hle : depth ≤ deeper) :
    Reruns .left p q (Call.run depth) (Call.run deeper) := by
  induction depth generalizing deeper with
  | zero => exact .of_all fun _ => .unfinished_left _
  | succ depth ih =>
      obtain ⟨less, rfl⟩ : ∃ less, deeper = less + 1 := ⟨deeper - 1, by omega⟩
      exact step_reruns (ih (by omega))

theorem reset_reruns (p q : Array Event) {depth deeper : Nat} (hle : depth ≤ deeper)
    (c : ContainerRef) :
    Matches .left (World.Alike SameMachine p q) (Call.run depth (.reset c))
      (Call.run deeper (.reset c)) := by
  cases depth with
  | zero => exact .unfinished_left _
  | succ depth =>
      obtain ⟨less, rfl⟩ : ∃ less, deeper = less + 1 := ⟨deeper - 1, by omega⟩
      have hreruns := run_reruns p q (Nat.le_of_succ_le_succ hle)
      refine Matches.bind ?_ fun _ => .pure _
      rw [Call.resetContainer_eq, Call.resetContainer_eq]
      apply Matches.container
      intro a b hsame
      obtain ⟨rfl, machine, rfl, hfree⟩ := hsame
      exact Call.matches_sweep congruent_sameMachine hreruns.asked hfree.catalog c _

theorem perform_reruns (p q : Array Event) {depth deeper : Nat} (hle : depth ≤ deeper)
    (request : Request) :
    Matches .left (World.Alike SameMachine p q) (request.perform (Call.run depth))
      (request.perform (Call.run deeper)) := by
  by_cases hresets : request.Resets
  · obtain ⟨c, rfl⟩ := hresets.eq_reset
    exact (reset_reruns p q hle c).outcome.bind fun _ => .pure _
  · exact request.perform_matches congruent_sameMachine (run_reruns p q hle).asked hresets

end Machine
end Wiring
