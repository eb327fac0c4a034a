import Wiring.Proofs.Traces

/-!
# Traces of calls

A call that ends leaves a trace of the changes that it made. It may also be run with resets that give
up in some cases: where such a run ends, it is the run of the call, and its trace has only the resets
that were let go.
-/

namespace Wiring

section Calls

open Run

variable {W : World.Ways} {recur : Caller} {depth : Nat} {c : ContainerRef}
  {world : World}

/-- A service is announced in the journal at most. -/
theorem Run.announce_leads (W : World.Ways) {container : Container}
    (hat : world.container? c = some container)
    (id : String) (notice : Option Deprecation) :
    ∃ later, announce c id notice world = (.ok (), later) ∧ W.Way world later ∧
      later.container? c = some container := by
  obtain ⟨store, hannounce, hrecord⟩ := announce_apply hat id notice
  refine ⟨_, hannounce, ?_, hat⟩
  rcases hrecord with rfl | ⟨event, rfl⟩
  · exact .refl world
  · exact W.store (.record world.store event)

theorem Interpreter.keep_apply {container : Interpreter}
    (hat : world.container? c = some (.interpreting container)) (id : String) (flags : Flags)
    (options : ResolveOptions) (service : Value) :
    keep c id flags options service world = (.ok service,
      if !flags.factory && !options.ignoreFreezing then
        world.put c (.interpreting (container.cache id service))
      else world) := by
  unfold keep
  split
  · rw [bind_of_ok (changeContainer_apply hat _)]
    rfl
  · rfl

theorem Interpreter.resolveDefinition_vouches (h : Caller.Vouches W recur (Call.run depth))
    {container : Interpreter} (hat : world.container? c = some (.interpreting container))
    {id : String} {definition : Definition}
    (hfound : container.registry.definition? id = some definition) (options : ResolveOptions) :
    VouchesAt W world
      (resolveDefinition recur c container.registry (container.services.get? id) id definition
        options)
      (resolveDefinition (Call.run depth) c container.registry (container.services.get? id) id
        definition options) := by
  by_cases hmade : definition.flags.factory = true ∨ container.services.get? id = none
  · rw [resolveDefinition_made hmade, resolveDefinition_made hmade]
    refine VouchesAt.entering hat fun longer => ?_
    refine (create_vouches h id definition _).bind fun service ended hcreate hended => ?_
    have hinner := World.container?_put_self world c
      ((Container.interpreting container).setLoading longer) _ hat
    obtain ⟨now, hnow, -⟩ := hended.interpreter hinner
    obtain ⟨later, hannounce, hlater, hnow'⟩ :=
      announce_leads W hnow id definition.deprecation
    rw [bind_of_ok hannounce, keep_apply hnow']
    refine .inr ⟨rfl, ?_⟩
    dsimp only
    split
    · next hkeep =>
        have hshared : definition.flags.factory = false := by
          simp only [Bool.and_eq_true, Bool.not_eq_true'] at hkeep
          exact hkeep.1
        have hnew := hmade.resolve_left (Bool.eq_false_iff.mp hshared)
        exact W.made ⟨hinner, hfound, depth, hcreate⟩ hshared hnew hended hlater hnow'
    · exact hended.trans hlater
  · obtain ⟨hshared, hcached⟩ := not_or.mp hmade
    obtain ⟨service, hservice⟩ := Option.ne_none_iff_exists'.mp hcached
    rw [hservice, resolveDefinition_cached (Bool.eq_false_iff.mpr hshared),
      resolveDefinition_cached (Bool.eq_false_iff.mpr hshared)]
    exact Vouches.pure service world

theorem Interpreter.resolve_vouches (h : Caller.Vouches W recur (Call.run depth))
    {container : Interpreter} (hat : world.container? c = some (.interpreting container))
    (isPublic : Bool) (name : String) (options : ResolveOptions) :
    VouchesAt W world (resolve recur c container isPublic name options)
      (resolve (Call.run depth) c container isPublic name options) := by
  unfold resolve
  dsimp only
  split
  · next definition hfound =>
      split
      · exact Vouches.fail _ world
      · exact resolveDefinition_vouches h hat hfound options
  · exact Vouches.resolveType h _ _ options world

theorem Machine.keep_apply (W : World.Ways) {machine : Machine}
    (hat : world.container? c = some (.running machine)) (id : String) (cache : Option CacheTable)
    (options : ResolveOptions) (service : Value) :
    ∃ later, keep c id cache options service world = (.ok service, later) ∧
      W.Way world later := by
  unfold keep
  cases cache with
  | none => exact ⟨world, rfl, .refl world⟩
  | some table =>
      dsimp only
      split
      · exact ⟨_, bind_of_ok (changeContainer_apply hat _) _, W.cached hat table id service⟩
      · exact ⟨world, rfl, .refl world⟩

theorem Machine.runRoutine_vouches (h : Caller.Vouches W recur (Call.run depth))
    {machine : Machine} (hat : world.container? c = some (.running machine)) (routine : Routine)
    (options : ResolveOptions) :
    VouchesAt W world (runRoutine recur c machine routine options)
      (runRoutine (Call.run depth) c machine routine options) := by
  cases hcached : machine.cached? routine with
  | some service =>
      rw [runRoutine_cached hcached, runRoutine_cached hcached]
      exact Vouches.pure service world
  | none =>
      rw [runRoutine_made hcached, runRoutine_made hcached]
      refine VouchesAt.entering hat fun longer => ?_
      refine (create_vouches h routine _).bind fun service ended _ hended => ?_
      have hinner := World.container?_put_self world c
        ((Container.running machine).setLoading longer) _ hat
      obtain ⟨found, hfound, hbase⟩ := hended.container hinner
      obtain ⟨now, rfl⟩ := Container.running_of_base hbase
      obtain ⟨later, hannounce, hlater, hfound'⟩ :=
        announce_leads W hfound routine.id routine.deprecation
      obtain ⟨last, hkeep, hlast⟩ :=
        keep_apply W hfound' routine.id routine.cache options service
      rw [bind_of_ok hannounce, hkeep]
      exact .inr ⟨rfl, hended.trans (hlater.trans hlast)⟩

theorem Machine.resolve_vouches (h : Caller.Vouches W recur (Call.run depth))
    {machine : Machine} (hat : world.container? c = some (.running machine)) (name : String)
    (options : ResolveOptions) :
    VouchesAt W world (resolve recur c machine name options)
      (resolve (Call.run depth) c machine name options) := by
  unfold resolve
  dsimp only
  split
  · exact runRoutine_vouches h hat _ options
  · exact Vouches.resolveType h _ _ options world

theorem Machine.get_vouches (h : Caller.Vouches W recur (Call.run depth))
    {machine : Machine} (hat : world.container? c = some (.running machine)) (name : String)
    (options : ResolveOptions) :
    VouchesAt W world (get recur c machine name options)
      (get (Call.run depth) c machine name options) := by
  unfold get
  dsimp only
  split
  · exact resolve_vouches h hat _ options
  · split
    · exact Vouches.fail _ world
    · exact Vouches.resolveType h _ _ options world

theorem Machine.runAt_vouches (h : Caller.Vouches W recur (Call.run depth))
    {machine : Machine} (hat : world.container? c = some (.running machine)) (position : Nat) :
    VouchesAt W world (runAt recur c machine position)
      (runAt (Call.run depth) c machine position) := by
  unfold runAt
  split
  · exact runRoutine_vouches h hat _ {}
  · exact Vouches.fail _ world

theorem Call.forceHandle_vouches {recur' : Caller} (h : Caller.Vouches W recur recur')
    (l : LazyRef) : Vouches W (forceHandle recur l) (forceHandle recur' l) :=
  Call.forceHandle_holds (C := vouching W) h l

theorem Call.tearDown_vouches {recur' : Caller} (h : Caller.Vouches W recur recur')
    (catalog : Catalog) (services : List Value) :
    Vouches W (services.forM (tearDown recur catalog))
      (services.forM (tearDown recur' catalog)) :=
  Congruence.Holds.forM (Call.tearDown_holds (C := vouching W) h catalog) services

/-- A reset that ends in its own way. -/
def Call.resetThen (recur : Caller) (c : ContainerRef) (finish : Run Unit) : Run Unit := do
  let container ← Run.container c
  Run.changeContainer c Container.clearCache
  container.cached.forM (tearDown recur container.catalog)
  finish

theorem Call.resetThen_apply {container : Container} (hat : world.container? c = some container)
    (recur : Caller) (finish : Run Unit) :
    resetThen recur c finish world = (do
      container.cached.forM (tearDown recur container.catalog)
      finish : Run Unit) (world.put c container.clearCache) := by
  unfold resetThen
  rw [bind_of_ok (container_apply hat), bind_of_ok (changeContainer_apply hat _)]

/-- A reset goes through if the cache may be emptied and its end does. -/
theorem Call.resetThen_vouches {recur' : Caller} (h : Caller.Vouches W recur recur')
    {finish finish' : Run Unit}
    (hcache : ∀ container, world.container? c = some container →
      W.Way world (world.put c container.clearCache))
    (hfinish : ∀ later now, later.container? c = some now → VouchesAt W later finish finish') :
    VouchesAt W world (resetThen recur c finish) (resetThen recur' c finish') := by
  cases hat : world.container? c with
  | none =>
      unfold VouchesAt resetThen
      rw [bind_of_error (container_absent hat), bind_of_error (container_absent hat)]
      exact .inr ⟨rfl, .refl world⟩
  | some container =>
      have hcleared := hcache container hat
      have hself := World.container?_put_self world c container.clearCache container hat
      have hrest : VouchesAt W (world.put c container.clearCache)
          (do
            container.cached.forM (tearDown recur container.catalog)
            finish)
          (do
            container.cached.forM (tearDown recur' container.catalog)
            finish') := by
        refine (tearDown_vouches h _ _ _).bind fun _ later _ hleads => ?_
        obtain ⟨now, hnow, -⟩ := hleads.container hself
        exact (hfinish later now hnow).imp_right fun h => ⟨h.1, hleads.trans h.2⟩
      unfold VouchesAt
      rw [resetThen_apply hat, resetThen_apply hat]
      exact hrest.imp_right fun h => ⟨h.1, hcleared.trans h.2⟩

theorem Call.resetContainer_vouches {recur' : Caller} (h : Caller.Vouches W recur recur')
    (hresets : W.Resets c) :
    VouchesAt W world (resetContainer recur c) (resetContainer recur' c) := by
  refine resetThen_vouches h (fun container hat => hresets.clearCache hat) fun later now hnow => ?_
  refine .inr ⟨rfl, ?_⟩
  rw [changeContainer_apply hnow]
  exact hresets.clearRuntimeState hnow

/-- **One call.** What further calls are vouched for, this one is vouched for, its reset apart. -/
theorem Call.step_vouches (h : Caller.Vouches W recur (run depth)) (call : Call)
    (hreset : ∀ c, call = .reset c →
      VouchesAt W world (resetContainer recur c) (resetContainer (run depth) c)) :
    VouchesAt W world (step recur call) (run (depth + 1) call) := by
  rw [run]
  cases call with
  | get c id options =>
      refine VouchesAt.container fun container hat => ?_
      cases container with
      | interpreting container => exact Interpreter.resolve_vouches h hat true id options
      | running machine => exact Machine.get_vouches h hat id options
  | resolve c id options =>
      refine VouchesAt.container fun container hat => ?_
      cases container with
      | interpreting container => exact Interpreter.resolve_vouches h hat false id options
      | running machine => exact Machine.resolve_vouches h hat id options
  | routine c position =>
      refine VouchesAt.container fun container hat => ?_
      cases container with
      | interpreting container => exact Vouches.fail _ world
      | running machine => exact Machine.runAt_vouches h hat position
  | invoke c f args =>
      exact Call.invoke_holds (C := vouching W) h c f args world
  | force l => exact forceHandle_vouches h l world
  | reset c => exact (hreset c rfl).next fun _ later _ => Vouches.pure _ later

/-- A call that ends does the same wherever it may be nested deeper. -/
theorem Call.run_deeper {depth deeper : Nat} (hle : depth ≤ deeper) :
    Caller.Vouches (.tracing fun _ _ => True) (run depth) (run deeper) := by
  induction depth generalizing deeper with
  | zero => exact fun _ => .unfinished _
  | succ depth ih =>
      obtain ⟨less, rfl⟩ : ∃ less, deeper = less + 1 := ⟨deeper - 1, by omega⟩
      have h := ih (Nat.le_of_succ_le_succ hle)
      exact fun call world => step_vouches h call fun c _ =>
        resetContainer_vouches h (World.Ways.tracing_resets fun _ => trivial)

/-- **What calls do** is told by traces. -/
theorem Call.run_traced (depth : Nat) :
    Caller.Vouches (.tracing fun _ _ => True) (run depth) (run depth) :=
  run_deeper le_rfl

/-! ### Other resets -/

/-- The call, with resets that are done in another way. -/
def Call.runWith (reset : Caller → ContainerRef → Run Unit) : Nat → Call → Run Value
  | 0, _ => throw .unfinished
  | depth + 1, .reset c => do
      reset (runWith reset depth) c
      return .null
  | depth + 1, call => step (runWith reset depth) call

theorem Call.run_eq_runWith (depth : Nat) : run depth = runWith resetContainer depth := by
  induction depth with
  | zero => rfl
  | succ depth ih =>
      funext call
      rw [run, ih]
      cases call <;> rfl

/-- **Calls with other resets** do the same or are given up, if those resets do or are. -/
theorem Call.runWith_vouches {reset : Caller → ContainerRef → Run Unit}
    (hreset : ∀ {recur : Caller} {depth : Nat}, Caller.Vouches W recur (run depth) → ∀ c,
      Vouches W (reset recur c) (resetContainer (run depth) c)) (depth : Nat) :
    Caller.Vouches W (runWith reset depth) (run depth) := by
  induction depth with
  | zero => exact fun _ => .unfinished _
  | succ depth ih =>
      intro call
      cases call with
      | reset c => exact (hreset ih c).bind fun _ => .pure _
      | _ => exact fun world => step_vouches ih _ fun _ hcall => by cases hcall

/-- The call, given up where it would reset the container. -/
def Call.sparing (c : ContainerRef) : Nat → Call → Run Value :=
  runWith fun recur d => if d = c then throw .unfinished else resetContainer recur d

/-- **A spared run that ends is the run itself**, and on its way the container is not reset. -/
theorem Call.sparing_vouches (c : ContainerRef) (depth : Nat) :
    Caller.Vouches (.tracing fun d _ => d ≠ c) (sparing c depth) (run depth) := by
  refine runWith_vouches (fun ih d => ?_) depth
  split
  · exact .unfinished _
  · next hne => exact fun _ => resetContainer_vouches ih (World.Ways.tracing_resets fun _ => hne)

/-- What a caller vouches for is done in earnest. -/
theorem Request.perform_of_vouches {request : Request} {reply : request.Reply} {later : World}
    (h : Caller.Vouches W recur (Call.run depth))
    (hperform : request.perform recur world = (.ok reply, later)) :
    request.perform (Call.run depth) world = (.ok reply, later) ∧ W.Way world later := by
  rcases request.perform_vouches h world with hgiven | ⟨hsame, hleads⟩
  · rw [hperform] at hgiven
    cases hgiven
  · rw [hperform] at hsame hleads
    exact ⟨hsame.symm, hleads⟩

end Calls
end Wiring
