import Wiring.Proofs.Twins

/-!
# Twins in step

An interpreter resolves what a definition names while it makes the service; its twin runs the routine
that was linked when the definition was compiled. Step by step both ask user code for the same, keep
the same, and fail alike.
-/

namespace Wiring

open Run Container

/-- Worlds that are alike up to twins. -/
abbrev World.Paired (registry : Registry) (program : Program) (p q : Array Event) :
    World → World → Prop := World.Alike (Container.Twins registry program) p q

/-- Calls match, and resolving a name matches running the routine that the name was linked to. -/
structure Registry.InStep (registry : Registry) (config : Config) (program : Program) (side : Side)
    (p q : Array Event) (recur recur' : Caller) : Prop where
  asked : Caller.Matches side (World.Paired registry program p q) recur recur'
  routine : ∀ c name link, (registry.plan config).select name = .ok link →
    Matches side (World.Paired registry program p q) (recur (.resolve c name {}))
      (recur' (.routine c link.position))

/-- What the interpreter reads in its registry is what the machine was given. -/
structure Registry.Evaluates (registry : Registry) (config : Config) (reading : Registry)
    (machine : Machine) : Prop where
  catalog : reading.catalog = machine.catalog
  resetFree : reading.catalog.ResetFree
  parameter : ∀ name, reading.parameter name = machine.parameter name
  candidates : ∀ typeName,
    reading.candidates typeName = (registry.plan config).candidates typeName
  lazyTarget : ∀ name, reading.lazyTarget? name =
    ((registry.plan config).target name).toOption.filter registry.isLazy

/-- The demand was met when it was compiled, and a callee is called by its own id. -/
def Registry.Meets (registry : Registry) (config : Config) (id : String) (demand : Demand) : Prop :=
  (∃ found, (registry.plan config).settle id demand = .ok found) ∧
    ∀ name, demand = .callee name → registry.contains name

namespace Registry

variable {registry : Registry} {config : Config} {program : Program} {side : Side}
  {p q : Array Event} {recur recur' : Caller} {c : ContainerRef} {reading : Registry}
  {machine : Machine} {id : String}

theorem Twins.evaluates {interpreter : Interpreter} (mirrored : registry.Mirrored config program)
    (twins : registry.Twins program interpreter machine) :
    registry.Evaluates config interpreter.registry machine where
  catalog := by
    obtain ⟨frozen, tags, hregistry⟩ := twins.registry_eq
    rw [twins.catalog, hregistry]
  resetFree := by
    obtain ⟨frozen, tags, hregistry⟩ := twins.registry_eq
    rw [hregistry]
    exact mirrored.catalog
  parameter := twins.parameter mirrored
  candidates typeName := by
    obtain ⟨frozen, tags, hregistry⟩ := twins.registry_eq
    rw [← mirrored.unambiguous.candidates, hregistry]
    rfl
  lazyTarget name := by
    obtain ⟨frozen, tags, hregistry⟩ := twins.registry_eq
    rw [← Interpreter.lazyTarget_eq mirrored.unambiguous, hregistry]
    rfl

theorem Meets.reference {name : String} (h : registry.Meets config id (.reference name)) :
    ∃ link, (registry.plan config).select name = .ok link ∧
      (registry.plan config).linked name = link := by
  obtain ⟨⟨found, hsettle⟩, -⟩ := h
  obtain ⟨link, hselect, -⟩ := map_eq_ok hsettle
  exact ⟨link, hselect, Plan.linked_of_select hselect⟩

/-- A callee is followed by its link and called by its own id. -/
theorem Meets.callee (mirrored : registry.Mirrored config program) {name : String}
    (h : registry.Meets config id (.callee name)) (c : ContainerRef) (machine : Machine) :
    ∃ link, (registry.plan config).select name = .ok link ∧
      (Machine.reading c machine (registry.plan config)).follow name = .routine c link.position ∧
      (Machine.reading c machine (registry.plan config)).label name = name := by
  obtain ⟨⟨found, hsettle⟩, hown⟩ := h
  obtain ⟨link, hselect, -⟩ := map_eq_ok hsettle
  have hlinked := Plan.linked_of_select hselect
  have hcontains := hown name rfl
  have hname : registry.resolveAlias name = name :=
    AliasTable.resolve_of_free (mirrored.orderly.free name hcontains)
  have htarget : (registry.plan config).target name = .ok (registry.resolveAlias name) :=
    Plan.target_of_contains (hname.symm ▸ hcontains)
  rw [(Plan.select_eq_ok hselect).1, hname] at htarget
  refine ⟨link, hselect, ?_, (congrArg Link.id hlinked).trans (Except.ok.inj htarget)⟩
  rw [← hlinked]
  rfl

end Registry

namespace Interpreter

variable {registry : Registry} {config : Config} {program : Program} {side : Side}
  {p q : Array Event} {recur recur' : Caller} {c : ContainerRef} {reading : Registry}
  {machine : Machine} {id : String}

section Evaluates

variable (mirrored : registry.Mirrored config program)
  (hstep : registry.InStep config program side p q recur recur')
  (evaluates : registry.Evaluates config reading machine)

include evaluates hstep

/-- A lazy definition gives a handle to its id, any other is resolved. -/
theorem reference_matches {name : String} (h : registry.Meets config id (.reference name)) :
    Matches side (World.Paired registry program p q) (reference recur c reading name)
      (Reading.reference recur' (Machine.reading c machine (registry.plan config)) name) := by
  obtain ⟨link, hselect, hlinked⟩ := h.reference
  have htarget := (Plan.select_eq_ok hselect).1
  rw [reference, evaluates.lazyTarget, htarget,
    ← Machine.reference_reading recur' c machine (registry.plan config) id, Plan.linkedReference,
    hlinked]
  cases hlazy : registry.isLazy link.id with
  | true =>
      have hplan : (registry.plan config).registry.isLazy link.id = true := hlazy
      rw [if_pos hplan, Machine.eval]
      simp only [Except.toOption, Option.filter, hlazy, if_true]
      exact (Matches.onStore (Store.silent_addHandle _ _)).bind fun l => .pure _
  | false =>
      have hplan : ¬ (registry.plan config).registry.isLazy link.id = true := by
        rw [Bool.not_eq_true]
        exact hlazy
      rw [if_neg hplan, Machine.eval]
      simp only [Except.toOption, Option.filter, hlazy]
      exact hstep.routine c name link hselect

include mirrored

/-- A callee is handed the same values. -/
theorem callee_matches (target : Callee) (args : CallArgs)
    (h : ∀ demand ∈ target.demands args.positional.length, registry.Meets config id demand) :
    Matches side (World.Paired registry program p q)
      (Reading.callee recur (Interpreter.reading c reading) id target args)
      (Reading.callee recur' (Machine.reading c machine (registry.plan config)) id target
        args) := by
  have hcatalog : (Machine.reading c machine (registry.plan config)).catalog = reading.catalog :=
    evaluates.catalog.symm
  cases target with
  | invocable f => exact hstep.asked.invoke c f args
  | construct className =>
      rw [Reading.callee, Reading.callee, hcatalog]
      exact Behaviour.run_matches (congruent_twins mirrored) hstep.asked _
        (evaluates.resetFree.instantiate id className args)
  | service name =>
      obtain ⟨link, hselect, hfollow, hlabel⟩ := (h _ List.mem_cons_self).callee mirrored c machine
      rw [Reading.callee, Reading.callee, hfollow, hlabel]
      exact (hstep.routine c name link hselect).bind fun service =>
        .callService hstep.asked c id name service args
  | method name method =>
      obtain ⟨link, hselect, hfollow, hlabel⟩ := (h _ List.mem_cons_self).callee mirrored c machine
      rw [Reading.callee, Reading.callee, hfollow, hlabel, hcatalog]
      exact (hstep.routine c name link hselect).bind fun service =>
        .callMethod (congruent_twins mirrored) hstep.asked evaluates.resetFree id name service method
          args

end Evaluates

/-- **Definitions.** The routine of a definition makes the service that the definition makes. -/
theorem create_matches (mirrored : registry.Mirrored config program)
    (hstep : registry.InStep config program side p q recur recur')
    (evaluates : registry.Evaluates config reading machine) {definition : Definition}
    (hfound : registry.definition? id = some definition) :
    Matches side (World.Paired registry program p q) (create recur c reading id definition)
      (Machine.create recur' c machine (definition.linked (registry.plan config) id)) := by
  have hmeets : ∀ demand ∈ definition.demands (registry.plan config).candidates,
      registry.Meets config id demand := by
    intro demand hdemand
    refine ⟨mirrored.compiled.met hfound demand hdemand, ?_⟩
    rintro name rfl
    apply mirrored.orderly.callees hfound name
    rwa [funext mirrored.unambiguous.candidates]
  have hcatalog : (Machine.reading c machine (registry.plan config)).catalog = reading.catalog :=
    evaluates.catalog.symm
  have hpieces : (Matches.concord side (World.Paired registry program p q)
      (registry.Meets config id)).Pieces recur recur' (Interpreter.reading c reading)
        (Machine.reading c machine (registry.plan config)) id definition := {
    candidates := funext evaluates.candidates
    reference := fun name => reference_matches hstep evaluates
    parameter := fun name _ => by
      change Matches side _ (ofExcept (reading.parameter name)) (ofExcept (machine.parameter name))
      rw [evaluates.parameter]
      exact .ofExcept _
    callee := callee_matches mirrored hstep evaluates
    member := fun service name _ _ _ hvalue => by
      rw [hcatalog]
      exact .bindMember (congruent_twins mirrored) hstep.asked evaluates.resetFree id service name
        hvalue
    extra := .runExtra hstep.asked c
    decorate := .decorate (congruent_twins mirrored) hstep.asked c (mirrored.decorators hfound) }
  rw [create_reading, Machine.create_reading]
  exact Concord.create_holds hpieces hmeets

section Twins

variable (mirrored : registry.Mirrored config program)
  (hstep : registry.InStep config program side p q recur recur')
  {interpreter : Interpreter} (twins : registry.Twins program interpreter machine)

include mirrored hstep twins

omit mirrored hstep twins in
/-- What was made goes into the caches, unless it is made anew each time or must not be kept. -/
theorem keep_matches {definition : Definition}
    (hfound : registry.definition? id = some definition) (options : ResolveOptions)
    (service : Value) :
    Matches side (World.Paired registry program p q)
      (keep c id definition.flags options service)
      (Machine.keep c id (Compiling.cacheOf definition.flags) options service) := by
  unfold keep Machine.keep
  cases hfactory : definition.flags.factory with
  | true =>
      rw [Compiling.cacheOf_factory hfactory]
      exact .pure service
  | false =>
      have hcache := Compiling.cacheOf_kept hfactory
      rw [hcache]
      cases options.ignoreFreezing with
      | true => exact .pure service
      | false =>
          refine (Matches.changeContainer ?_).bind fun _ => .pure service
          rintro _ _ ⟨interpreter, machine, rfl, rfl, twins⟩
          exact ⟨_, _, rfl, rfl, twins.cache hfound hcache service⟩

/-- What is cached is given by both, and what is not is made by both. -/
theorem resolveDefinition_matches {definition : Definition}
    (hfound : registry.definition? id = some definition) (options : ResolveOptions) :
    Matches side (World.Paired registry program p q)
      (resolveDefinition recur c interpreter.registry (interpreter.services.get? id) id definition
        options)
      (Machine.runRoutine recur' c machine (definition.linked (registry.plan config) id)
        options) := by
  have hcached := twins.cached? hfound (registry.plan config)
  have hmake : definition.flags.factory = true ∨ interpreter.services.get? id = none →
      Matches side (World.Paired registry program p q)
        (resolveDefinition recur c interpreter.registry (interpreter.services.get? id) id definition
          options)
        (Machine.runRoutine recur' c machine (definition.linked (registry.plan config) id)
          options) := by
    intro hmade
    have hnone : machine.cached? (definition.linked (registry.plan config) id) = none := by
      rw [hcached]
      rcases hmade with hfactory | hservice
      · rw [if_pos hfactory]
      · rw [hservice, ite_self]
    rw [resolveDefinition_made hmade, Machine.runRoutine_made hnone]
    apply Matches.entering (congruent_twins mirrored)
    apply (create_matches mirrored hstep (twins.evaluates mirrored) hfound).bind
    intro service
    refine (Matches.announce (congruent_twins mirrored) c id definition.deprecation).bind
      fun _ => ?_
    exact keep_matches hfound options service
  cases hfactory : definition.flags.factory with
  | true => exact hmake (.inl hfactory)
  | false =>
      cases hservice : interpreter.services.get? id with
      | none => exact hservice ▸ hmake (.inr hservice)
      | some service =>
          rw [hfactory, hservice, if_neg Bool.false_ne_true] at hcached
          rw [resolveDefinition_cached hfactory, Machine.runRoutine_cached hcached]
          exact .pure service

/-- A definition is found by its id, and its routine by its position. -/
theorem resolve_runAt_matches {name : String} {position : Nat}
    (hposition : (registry.plan config).ids[position]? = some id)
    (hname : registry.resolveAlias name = id) :
    Matches side (World.Paired registry program p q)
      (resolve recur c interpreter false name {}) (Machine.runAt recur' c machine position) := by
  obtain ⟨definition, hfound, hroutine⟩ := mirrored.compiled.routine_at hposition
  have hreads := twins.reads name
  unfold resolve Machine.runAt
  dsimp only
  rw [hreads.canonical, hreads.definition?, hname, hfound, twins.program_eq, hroutine]
  simp only [Bool.false_and, Bool.false_eq_true, if_false]
  exact resolveDefinition_matches mirrored hstep twins hfound {}

theorem resolve_matches (name : String) (options : ResolveOptions) :
    Matches side (World.Paired registry program p q)
      (resolve recur c interpreter false name options)
      (Machine.resolve recur' c machine name options) := by
  have hreads := twins.reads name
  unfold resolve Machine.resolve
  dsimp only
  rw [hreads.canonical, hreads.definition?, hreads.candidates, twins.canonical mirrored,
    twins.program_eq, mirrored.compiled.routine?_eq, twins.candidates mirrored]
  cases hfound : registry.definition? (registry.resolveAlias name) with
  | some definition =>
      rw [if_pos (Registry.contains_of_definition hfound), Registry.linked_eq hfound]
      simp only [Bool.false_and, Bool.false_eq_true, if_false]
      exact resolveDefinition_matches mirrored hstep twins hfound options
  | none =>
      have habsent : ¬ registry.contains (registry.resolveAlias name) :=
        Option.not_isSome_iff_eq_none.mpr hfound
      rw [if_neg habsent]
      exact .resolveType hstep.asked c _ _ options

/-- The public is shown the same. -/
theorem get_matches (name : String) (options : ResolveOptions) :
    Matches side (World.Paired registry program p q)
      (resolve recur c interpreter true name options)
      (Machine.get recur' c machine name options) := by
  have hreads := twins.reads name
  unfold Machine.get
  dsimp only
  rw [twins.canonical mirrored, twins.program_eq, mirrored.compiled.contains_methods,
    mirrored.compiled.routine?_eq, twins.candidates mirrored]
  cases hfound : registry.definition? (registry.resolveAlias name) with
  | some definition =>
      have hcontains := Registry.contains_of_definition hfound
      cases hhidden : definition.flags.hidden with
      | true =>
          rw [hcontains, Registry.isHidden_of_definition hfound, hhidden]
          unfold resolve
          dsimp only
          rw [hreads.canonical, hreads.definition?, hfound]
          simp only [hhidden, Bool.not_true, Bool.and_false, Bool.false_eq_true, if_false, if_true,
            Option.isSome_some, Bool.and_self]
          exact .fail _
      | false =>
          have hown : registry.resolveAlias (registry.resolveAlias name) =
              registry.resolveAlias name :=
            AliasTable.resolve_of_free (mirrored.orderly.free _ hcontains)
          rw [hcontains, Registry.isHidden_of_definition hfound, hhidden]
          unfold resolve Machine.resolve
          dsimp only
          rw [hreads.canonical, hreads.definition?, hfound, twins.canonical mirrored, hown,
            twins.program_eq, mirrored.compiled.routine?_eq, if_pos hcontains,
            Registry.linked_eq hfound]
          simp only [hhidden, Bool.and_false, Bool.not_false, Bool.and_self, Bool.false_eq_true,
            if_false, if_true]
          exact resolveDefinition_matches mirrored hstep twins hfound options
  | none =>
      have habsent : registry.contains (registry.resolveAlias name) = false :=
        Bool.not_eq_true _ ▸ Option.not_isSome_iff_eq_none.mpr hfound
      rw [habsent]
      unfold resolve
      dsimp only
      rw [hreads.canonical, hreads.definition?, hreads.candidates, hfound]
      simp only [Bool.false_and, Bool.false_eq_true, if_false, Option.isSome_none]
      exact .resolveType hstep.asked c _ _ options

end Twins

end Interpreter

/-! ### One call and all calls -/

namespace Registry

variable {registry : Registry} {config : Config} {program : Program} {side : Side}
  {p q : Array Event} {recur recur' : Caller} {c : ContainerRef}

/-- **One call.** It leads to further calls, and where those match it matches. -/
theorem InStep.step (mirrored : registry.Mirrored config program)
    (hstep : registry.InStep config program side p q recur recur') :
    Caller.Matches side (World.Paired registry program p q) (Call.step recur)
      (Call.step recur') where
  get c id options := Matches.container fun a b hrelated => by
    obtain ⟨interpreter, machine, rfl, rfl, twins⟩ := hrelated
    exact Interpreter.get_matches mirrored hstep twins id options
  resolve c id options := Matches.container fun a b hrelated => by
    obtain ⟨interpreter, machine, rfl, rfl, twins⟩ := hrelated
    exact Interpreter.resolve_matches mirrored hstep twins id options
  invoke := Call.matches_invoke (congruent_twins mirrored) hstep.asked
  force := Call.matches_forceHandle hstep.asked

theorem InStep.routine_of_definition (mirrored : registry.Mirrored config program)
    (hstep : registry.InStep config program side p q recur recur') {name id : String}
    {position : Nat} (hposition : (registry.plan config).ids[position]? = some id)
    (hname : registry.resolveAlias name = id) :
    Matches side (World.Paired registry program p q) (Call.step recur (.resolve c name {}))
      (Call.step recur' (.routine c position)) :=
  Matches.container fun a b hrelated => by
    obtain ⟨interpreter, machine, rfl, rfl, twins⟩ := hrelated
    exact Interpreter.resolve_runAt_matches mirrored hstep twins hposition hname

/-- A name with a sole candidate is resolved one call later. -/
theorem step_resolve_candidate {name only : String}
    (hfound : registry.definition? (registry.resolveAlias name) = none)
    (hcandidates : registry.candidates (registry.resolveAlias name) = [only]) {world : World}
    {interpreter : Interpreter} {machine : Machine}
    (hat : world.container? c = some (.interpreting interpreter))
    (twins : registry.Twins program interpreter machine) (recur : Caller) :
    Call.step recur (.resolve c name {}) world = recur (.resolve c only {}) world := by
  have hreads := twins.reads name
  rw [Call.step, bind_of_ok (container_apply hat)]
  dsimp only
  unfold Interpreter.resolve
  rw [hreads.canonical, hreads.definition?, hreads.candidates, hfound, hcandidates]
  rfl

end Registry

/-- Room for nesting on the side that follows: the interpreter takes two calls where the machine
takes one. -/
def Side.Room (side : Side) (depth depth' : Nat) : Prop :=
  match side with
  | .left => depth ≤ depth'
  | .right => 2 * depth' ≤ depth

theorem Side.Room.cases {side : Side} {depth depth' : Nat} (hroom : side.Room depth depth') :
    side = .left ∧ depth = 0 ∨ side = .right ∧ depth' = 0 ∨
      ∃ less less', depth = less + 1 ∧ depth' = less' + 1 ∧ side.Room less less' := by
  cases side with
  | left =>
      have hle : depth ≤ depth' := hroom
      by_cases hzero : depth = 0
      · exact .inl ⟨rfl, hzero⟩
      · refine .inr (.inr ⟨depth - 1, depth' - 1, by omega, by omega, ?_⟩)
        change depth - 1 ≤ depth' - 1
        omega
  | right =>
      have hle : 2 * depth' ≤ depth := hroom
      by_cases hzero : depth' = 0
      · exact .inr (.inl ⟨rfl, hzero⟩)
      · refine .inr (.inr ⟨depth - 1, depth' - 1, by omega, by omega, ?_⟩)
        change 2 * (depth' - 1) ≤ depth - 1
        omega

namespace Registry

variable {registry : Registry} {config : Config} {program : Program} {side : Side}

/-- A name is resolved as the routine is run, although it takes a call more where it is a type. -/
theorem InStep.routine_of_type (mirrored : registry.Mirrored config program) {p q : Array Event}
    {depth : Nat} {recur' : Caller} (hlead : depth = 0 → side = .left)
    (hstep : ∀ less, depth = less + 1 →
      registry.InStep config program side p q (Call.run less) recur') {c : ContainerRef}
    {name : String} {link : Link} (hselect : (registry.plan config).select name = .ok link)
    (hfound : registry.definition? (registry.resolveAlias name) = none) :
    Matches side (World.Paired registry program p q) (Call.run (depth + 1) (.resolve c name {}))
      (Call.step recur' (.routine c link.position)) := by
  obtain ⟨htarget, hposition⟩ := Plan.select_eq_ok hselect
  have hcandidates : registry.candidates (registry.resolveAlias name) = [link.id] := by
    rw [Plan.target_of_absent hfound, ← mirrored.unambiguous.candidates] at htarget
    rcases hlisted : registry.candidates (registry.resolveAlias name) with
      _ | ⟨only, _ | ⟨second, rest⟩⟩
    · rw [hlisted] at htarget
      cases htarget
    · rw [hlisted] at htarget
      rw [Except.ok.inj htarget]
    · rw [hlisted] at htarget
      cases htarget
  have hown : registry.resolveAlias link.id = link.id :=
    AliasTable.resolve_of_free (mirrored.orderly.free _ (Plan.contains_of_target _ _ htarget))
  intro world world' hworlds hends
  rcases hworlds.cases_container c with ⟨hleft, hright⟩ | ⟨a, b, hleft, -, hrelated⟩
  · rw [Call.run, Call.step, Call.step, bind_of_error (container_absent hleft),
      bind_of_error (container_absent hright)]
    exact ⟨rfl, hworlds⟩
  · obtain ⟨interpreter, machine, rfl, rfl, twins⟩ := hrelated
    have hsame : Call.run (depth + 1) (.resolve c name {}) world =
        Call.run depth (.resolve c link.id {}) world :=
      step_resolve_candidate hfound hcandidates hleft twins (Call.run depth)
    cases depth with
    | zero =>
        obtain rfl := hlead rfl
        exact absurd (congrArg Prod.fst hsame) hends
    | succ less =>
        have hdirect := (hstep less rfl).routine_of_definition (c := c) mirrored hposition hown
        rw [hsame]
        refine hdirect world world' hworlds (hends.imp (fun h => ?_) id)
        rwa [Run.Ends, hsame] at h

theorem InStep.of_all {p q : Array Event} {recur recur' : Caller}
    (h : ∀ call call', Matches side (World.Paired registry program p q) (recur call) (recur' call')) :
    registry.InStep config program side p q recur recur' :=
  ⟨⟨fun _ _ _ => h _ _, fun _ _ _ => h _ _, fun _ _ _ => h _ _, fun _ => h _ _⟩,
    fun _ _ _ _ => h _ _⟩

/-- **All calls.** Twins are in step down to any depth of nesting, if there is room for it. -/
theorem inStep (mirrored : registry.Mirrored config program) (p q : Array Event)
    (depth depth' : Nat) (hroom : side.Room depth depth') :
    registry.InStep config program side p q (Call.run depth) (Call.run depth') := by
  induction depth using Nat.strong_induction_on generalizing depth' with
  | _ depth ih =>
      rcases hroom.cases with ⟨rfl, rfl⟩ | ⟨rfl, rfl⟩ | ⟨less, less', rfl, rfl, hless⟩
      · exact .of_all fun _ _ => .unfinished_left _
      · exact .of_all fun _ _ => .unfinished_right _
      · have hnext := ih less (Nat.lt_succ_self less) less' hless
        refine ⟨hnext.step mirrored, fun c name link hselect => ?_⟩
        cases hfound : registry.definition? (registry.resolveAlias name) with
        | some definition =>
            obtain ⟨htarget, hposition⟩ := Plan.select_eq_ok hselect
            rw [Plan.target_of_contains (contains_of_definition hfound)] at htarget
            exact hnext.routine_of_definition mirrored hposition (Except.ok.inj htarget)
        | none =>
            refine InStep.routine_of_type mirrored ?_ (fun least hleast => ?_) hselect hfound
            · rintro rfl
              cases side with
              | left => rfl
              | right =>
                  have hle : 2 * (less' + 1) ≤ 0 + 1 := hroom
                  omega
            · refine ih least (by omega) less' ?_
              cases side with
              | left =>
                  have hle : less ≤ less' := hless
                  change least ≤ less'
                  omega
              | right =>
                  have hle : 2 * (less' + 1) ≤ less + 1 := hroom
                  change 2 * less' ≤ least
                  omega

end Registry

end Wiring
