import Wiring.Resolution

/-!
# Runs from a given world

A run is a function of the world it starts in. What its pieces give there is written out once, so
that a proof can go through a run step by step. An answer is compared with a number or an error by
evaluation, which decides a run from a fixed world.
-/

namespace Wiring

namespace World

@[simp]
theorem container?_put_self (world : World) (c : ContainerRef) (container other : Container)
    (hat : world.container? c = some other) :
    (world.put c container).container? c = some container := by
  unfold container? at hat
  unfold container? put
  dsimp only
  rcases Nat.lt_or_ge c.index world.containers.size with hlt | hge
  · rw [Array.getElem?_setIfInBounds_self_of_lt hlt]
    rfl
  · rw [Array.getElem?_eq_none hge] at hat
    simp at hat

@[simp]
theorem store_put (world : World) (c : ContainerRef) (container : Container) :
    (world.put c container).store = world.store := rfl

end World

instance (n : Int64) : (answer : Except Halt Value) → Decidable (answer = .ok (.int n))
  | .ok v => decidable_of_iff (v = .int n) (Except.ok.injEq v _).to_iff.symm
  | .error _ => .isFalse nofun

instance (halt : Halt) : (answer : Except Halt Value) → Decidable (answer = .error halt)
  | .ok _ => .isFalse nofun
  | .error found => decidable_of_iff (found = halt) (Except.error.injEq found _).to_iff.symm

namespace Run

variable {α β : Type}

theorem bind_apply (act : Run α) (next : α → Run β) (world : World) :
    (act >>= next) world = match act world with
      | (.ok a, later) => next a later
      | (.error halt, later) => (.error halt, later) := by
  simp only [bind, ExceptT.bind, ExceptT.mk, StateT.bind]
  cases act world with
  | mk result later =>
      cases result with
      | ok a => rfl
      | error halt => rfl

theorem bind_of_ok {act : Run α} {world later : World} {a : α} (hact : act world = (.ok a, later))
    (next : α → Run β) : (act >>= next) world = next a later := by
  rw [bind_apply, hact]

theorem bind_of_error {act : Run α} {world later : World} {halt : Halt}
    (hact : act world = (.error halt, later)) (next : α → Run β) :
    (act >>= next) world = (.error halt, later) := by
  rw [bind_apply, hact]

/-- The run can end well with `a`. -/
def Gives (run : Run α) (a : α) : Prop := ∃ world later, run world = (.ok a, later)

theorem Gives.of_bind {run : Run α} {next : α → Run β} {b : β} (h : (run >>= next).Gives b) :
    ∃ a, run.Gives a ∧ (next a).Gives b := by
  obtain ⟨world, later, hends⟩ := h
  rw [bind_apply] at hends
  split at hends
  · next a mid hrun => exact ⟨a, ⟨world, mid, hrun⟩, mid, later, hends⟩
  · cases hends

theorem Gives.of_pure {a b : α} (h : (pure a : Run α).Gives b) : b = a := by
  obtain ⟨world, later, hends⟩ := h
  exact (Except.ok.inj (congrArg Prod.fst hends)).symm

@[simp]
theorem ofExcept_ok (a : α) : ofExcept (.ok a) = (pure a : Run α) := rfl

@[simp]
theorem ofExcept_error (error : Error) : ofExcept (.error error) = (fail error : Run α) := rfl

theorem get_apply (world : World) : (get : Run World) world = (.ok world, world) := rfl

theorem outcome_of_ok {act : Run α} {world later : World} {a : α}
    (hact : act world = (.ok a, later)) : outcome act world = (.ok (.ok a), later) := by
  simp only [outcome, ExceptT.mk, ExceptT.run, bind, StateT.bind, hact]
  rfl

theorem outcome_of_error {act : Run α} {world later : World} {error : Error}
    (hact : act world = (.error (.error error), later)) :
    outcome act world = (.ok (.error error), later) := by
  simp only [outcome, ExceptT.mk, ExceptT.run, bind, StateT.bind, hact]
  rfl

theorem outcome_of_unfinished {act : Run α} {world later : World}
    (hact : act world = (.error .unfinished, later)) :
    outcome act world = (.error .unfinished, later) := by
  simp only [outcome, ExceptT.mk, ExceptT.run, bind, StateT.bind, hact]
  rfl

theorem container_apply {world : World} {c : ContainerRef} {container : Container}
    (hat : world.container? c = some container) :
    Run.container c world = (.ok container, world) := by
  unfold Run.container
  rw [bind_of_ok (get_apply world), hat]
  rfl

theorem container_absent {world : World} {c : ContainerRef} (hat : world.container? c = none) :
    Run.container c world = (.error (.error (.containerDropped "")), world) := by
  unfold Run.container
  rw [bind_of_ok (get_apply world), hat]
  rfl

theorem changeContainer_apply {world : World} {c : ContainerRef} {container : Container}
    (hat : world.container? c = some container) (f : Container → Container) :
    changeContainer c f world = (.ok (), world.put c (f container)) := by
  unfold changeContainer
  rw [bind_of_ok (container_apply hat)]
  rfl

theorem ensuring_apply (act : Run α) (after : World → World) (world : World) :
    ensuring act after world = ((act world).1, after (act world).2) := rfl

/-- Entering what may be entered: the body runs with the longer chain, which is cut afterwards. -/
theorem entering_apply {world : World} {c : ContainerRef} {container : Container} {id : String}
    {longer : List String} (hat : world.container? c = some container)
    (henter : Chain.enter container.maxDepth container.loading id = .ok longer) (act : Run α) :
    entering c id act world =
      ((act (world.put c (container.setLoading longer))).1,
        cut c container.loading.length (act (world.put c (container.setLoading longer))).2) := by
  unfold entering
  rw [bind_of_ok (container_apply hat), henter, ofExcept_ok, pure_bind,
    bind_of_ok (changeContainer_apply hat _), ensuring_apply]

theorem entering_refused {world : World} {c : ContainerRef} {container : Container} {id : String}
    {error : Error} (hat : world.container? c = some container)
    (henter : Chain.enter container.maxDepth container.loading id = .error error) (act : Run α) :
    entering c id act world = (fail error : Run α) world := by
  unfold entering
  rw [bind_of_ok (container_apply hat), henter, ofExcept_error]
  rfl

theorem cut_apply {world : World} {c : ContainerRef} {container : Container}
    (hat : world.container? c = some container) (depth : Nat) :
    cut c depth world = world.put c (container.setLoading (container.loading.take depth)) := by
  unfold cut
  rw [hat]

end Run

namespace Call

theorem run_invoke {world : World} {f : CallableRef} {code : Code}
    (hcode : world.store.codeOf? f = some code) (depth : Nat) (c : ContainerRef) (args : CallArgs) :
    run (depth + 1) (.invoke c f args) world = (code c args).run (run depth) world := by
  rw [run, step, Run.world, Run.bind_of_ok (Run.get_apply world), hcode]

theorem run_invoke_uncoded {world : World} {f : CallableRef}
    (hcode : world.store.codeOf? f = none) (depth : Nat) (c : ContainerRef) (args : CallArgs) :
    run (depth + 1) (.invoke c f args) world = (.ok .null, world) := by
  rw [run, step, Run.world, Run.bind_of_ok (Run.get_apply world), hcode]
  rfl

end Call

namespace Interpreter

/-- What is left to do with a new service. -/
def keep (c : ContainerRef) (id : String) (flags : Flags) (options : ResolveOptions)
    (service : Value) : Run Value := do
  if !flags.factory && !options.ignoreFreezing then
    Run.changeContainer c (store id service)
  return service

theorem resolveDefinition_cached {recur : Caller} {c : ContainerRef} {registry : Registry} {id : String}
    {definition : Definition} (hfactory : definition.flags.factory = false) (service : Value)
    (options : ResolveOptions) :
    resolveDefinition recur c registry (some service) id definition options = pure service := by
  unfold resolveDefinition
  rw [hfactory]

theorem resolveDefinition_made {recur : Caller} {c : ContainerRef} {registry : Registry}
    {cached : Option Value} {id : String} {definition : Definition}
    (hmade : definition.flags.factory = true ∨ cached = none) (options : ResolveOptions) :
    resolveDefinition recur c registry cached id definition options =
      Run.entering c id (do
        let service ← create recur c registry id definition
        Run.announce c id definition.deprecation
        keep c id definition.flags options service) := by
  unfold resolveDefinition keep
  rcases hmade with hfactory | rfl
  · rw [hfactory]
  · cases definition.flags.factory <;> rfl

end Interpreter

namespace Machine

theorem get?_cache (machine : Machine) (table held : CacheTable) (id other : String)
    (service : Value) :
    ((machine.cache table id service).table held).get? other =
      if held = table ∧ other = id then some service else (machine.table held).get? other := by
  cases table <;> cases held <;> simp [cache, Machine.table]

theorem cached?_cache (machine : Machine) (table : CacheTable) (id : String) (service : Value)
    (routine : Routine) :
    (machine.cache table id service).cached? routine =
      if routine.cache = some table ∧ routine.id = id then some service
      else machine.cached? routine := by
  rw [cached?, cached?]
  cases routine.cache with
  | none => exact (if_neg fun h => nomatch h.1).symm
  | some held =>
      simp only [Option.some.injEq]
      exact machine.get?_cache table held id routine.id service

/-- What is left to do with a new service. -/
def keep (c : ContainerRef) (id : String) (cache : Option CacheTable) (options : ResolveOptions)
    (service : Value) : Run Value := do
  match cache with
  | some table =>
      if !options.ignoreFreezing then
        Run.changeContainer c (store table id service)
  | none => pure ()
  return service

theorem runRoutine_cached {recur : Caller} {c : ContainerRef} {machine : Machine}
    {routine : Routine} {service : Value} (hcached : machine.cached? routine = some service)
    (options : ResolveOptions) : runRoutine recur c machine routine options = pure service := by
  unfold runRoutine
  rw [hcached]

theorem runRoutine_made {recur : Caller} {c : ContainerRef} {machine : Machine}
    {routine : Routine} (hmade : machine.cached? routine = none) (options : ResolveOptions) :
    runRoutine recur c machine routine options =
      Run.entering c routine.id (do
        let service ← create recur c machine routine
        Run.announce c routine.id routine.deprecation
        keep c routine.id routine.cache options service) := by
  unfold runRoutine
  rw [hmade]
  rfl

end Machine
end Wiring
