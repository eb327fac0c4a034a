import Wiring.Builder
import Wiring.Proofs.Accords
import Wiring.Proofs.Programs
import Wiring.Proofs.Tracking

/-!
# Compiled programs do not go wrong

What a routine asks for was checked when it was compiled, and the routines that it leads to were
finished before it. Running it can fail in user code, for want of depth, or because a value is not
what it is used as, and in no other way.
-/

namespace Wiring

namespace Machine

open Compiling Run

variable {exempt raises : Error → Prop} {G : Dict Routine → World → Prop} {plan : Plan}
  {recur : Caller} {c : ContainerRef} {machine : Machine} {id : String}

/-- The machine has what the plan was made from, and its user code is isolated. -/
structure Executes (exempt raises : Error → Prop) (G : Dict Routine → World → Prop)
    (plan : Plan) (recur : Caller) (c : ContainerRef) (machine : Machine) : Prop where
  storeless : Storeless G
  raised : ∀ error, raises error → exempt error
  faulty : ∀ id fault, Fault.AtRunTime fault → exempt (.invalidEntity id fault)
  isolated : machine.catalog.Isolated raises
  catalog : machine.catalog = plan.registry.catalog
  parameters : machine.program.parameters = plan.registry.parameters
  invoke : ∀ f args, Follows exempt G (pure ()) (recur (.invoke c f args))

/-- The demand passed its check, and the routine that it leads to runs well. -/
def Serves (exempt : Error → Prop) (G : Dict Routine → World → Prop) (plan : Plan)
    (recur : Caller) (c : ContainerRef) (id : String) (demand : Demand) : Prop :=
  ∃ found, plan.settle id demand = .ok found ∧ ∀ next position, found = some next →
    plan.ids[position]? = some next → Follows exempt G (pure ()) (recur (.routine c position))

theorem Serves.callee {name : String} (h : Serves exempt G plan recur c id (.callee name)) :
    Follows exempt G (pure ()) (recur (.routine c (plan.linked name).position)) := by
  obtain ⟨found, hsettle, hnext⟩ := h
  obtain ⟨link, hselect, rfl⟩ := map_eq_ok hsettle
  rw [Plan.linked_of_select hselect]
  exact hnext link.id link.position rfl (Plan.select_eq_ok hselect).2

theorem Serves.reference {name : String} (h : Serves exempt G plan recur c id (.reference name))
    (hG : Storeless G) :
    Follows exempt G (pure ()) (Reading.reference recur (reading c machine plan) name) := by
  obtain ⟨found, hsettle, hnext⟩ := h
  obtain ⟨link, hselect, rfl⟩ := map_eq_ok hsettle
  rw [← reference_reading recur c machine plan id, Plan.linkedReference,
    Plan.linked_of_select hselect]
  split
  · rw [eval]
    exact Follows.and_then (Follows.onStore hG fun store => rfl) fun l => .pure _
  · next hlazy =>
      rw [eval]
      exact hnext link.id link.position (if_neg hlazy) (Plan.select_eq_ok hselect).2

section Executes

variable (executes : Executes exempt raises G plan recur c machine)

include executes

theorem parameter_serves {name : String}
    (h : Serves exempt G plan recur c id (.parameter name)) :
    Follows exempt G (pure ()) (Run.ofExcept (machine.parameter name)) := by
  obtain ⟨found, hsettle, -⟩ := h
  obtain ⟨value, hfound, -⟩ := map_eq_ok hsettle
  have hsame : machine.parameter name = plan.registry.parameter name := by
    unfold Machine.parameter Registry.parameter
    cases hget : plan.registry.parameters.get? name with
    | none => simp only [executes.parameters, hget]
    | some value => simp only [executes.parameters, hget]
  rw [hsame, hfound]
  exact Follows.pure value

theorem instantiate_serves {className : String} {args : CallArgs}
    (h : Serves exempt G plan recur c id (.construct className args.positional.length)) :
    Follows exempt G (pure ()) ((machine.catalog.instantiate id className args).run recur) := by
  obtain ⟨found, hsettle, -⟩ := h
  obtain ⟨checked, hcheck, -⟩ := map_eq_ok hsettle
  rw [← executes.catalog] at hcheck
  exact Follows.isolated executes.raised executes.storeless recur
    (executes.isolated.instantiate hcheck)

theorem callee_serves (target : Callee) (args : CallArgs)
    (hserves : ∀ demand ∈ target.demands args.positional.length,
      Serves exempt G plan recur c id demand) :
    Follows exempt G (pure ())
      (Reading.callee recur (reading c machine plan) id target args) := by
  cases target with
  | invocable f => exact executes.invoke f args
  | construct className => exact instantiate_serves executes (hserves _ List.mem_cons_self)
  | service name =>
      exact Follows.after (hserves _ List.mem_cons_self).callee fun service =>
        Follows.callService recur executes.faulty executes.invoke id _ service args
  | method name method =>
      exact Follows.after (hserves _ List.mem_cons_self).callee fun service =>
        Follows.callMethod executes.raised executes.storeless recur executes.isolated
          executes.faulty id _ method service args

end Executes

/-- Running well where demands are served goes on from one step to the next. -/
def Serves.concord (exempt : Error → Prop) (G : Dict Routine → World → Prop) (plan : Plan)
    (recur : Caller) (c : ContainerRef) (id : String) : Concord where
  Known := Serves exempt G plan recur c id
  Holds _ _ run := Follows exempt G (pure ()) run
  pure a := .pure a
  bind h hnext := h.bind_pure hnext

/-- **Definitions.** A routine makes its service if its demands are served. -/
theorem create_serves (executes : Executes exempt raises G plan recur c machine)
    (definition : Definition)
    (hdecorators : ∀ decorator ∈ definition.decorators, ∀ c service,
      (decorator.apply c service).Isolated raises)
    (hserves : ∀ demand ∈ definition.demands plan.candidates,
      Serves exempt G plan recur c id demand) :
    Follows exempt G (pure ()) (create recur c machine (definition.linked plan id)) := by
  have hpieces : (Serves.concord exempt G plan recur c id).Pieces recur recur
      (reading c machine plan) (reading c machine plan) id definition := {
    candidates := rfl
    reference := fun name hserve => Serves.reference hserve executes.storeless
    parameter := fun name hserve => parameter_serves executes hserve
    callee := callee_serves executes
    member := fun service name _ _ _ hvalue =>
      .bindMember executes.raised executes.storeless recur executes.isolated executes.faulty id name
        service hvalue
    extra := Follows.runExtra recur executes.invoke
    decorate := Follows.decorate executes.raised executes.storeless recur hdecorators }
  rw [create_reading]
  exact Concord.create_holds hpieces hserves

/-! ### Running routines -/

/-- The machine is at `c` with whatever in its caches, is loading `chain`, and callables have the
code they were started with. -/
structure Running (machine : Machine) (c : ContainerRef) (code : Array Code) (chain : List String)
    (world : World) : Prop where
  code : world.store.code = code
  container : ∃ (services privates : Dict Value) (tags : Dict (Dict Value)),
    world.container? c =
      some (.running { machine with services, privates, tags, loading := chain })

section Running

variable {code : Array Code} {chain : List String} {world : World}

theorem Running.storeless :
    Storeless fun (_ : Dict Routine) world => Running machine c code chain world :=
  fun _ _ _ h hcode => ⟨hcode.trans h.code, h.container⟩

theorem Running.setLoading (h : Running machine c code chain world) {container : Container}
    (hat : world.container? c = some container) (longer : List String) :
    Running machine c code longer (world.put c (container.setLoading longer)) := by
  obtain ⟨services, privates, tags, hat'⟩ := h.container
  obtain rfl := Option.some.inj (hat.symm.trans hat')
  exact ⟨h.code, services, privates, tags, World.container?_put_self _ _ _ _ hat⟩

theorem Running.cut {id : String} (h : Running machine c code (chain ++ [id]) world) :
    Running machine c code chain (Run.cut c chain.length world) := by
  obtain ⟨services, privates, tags, hat⟩ := h.container
  have htake : (chain ++ [id]).take chain.length = chain := List.take_left
  have hcut := cut_apply hat chain.length
  dsimp only [Container.loading] at hcut
  rw [hcut, htake]
  exact h.setLoading hat chain

theorem Running.keep (h : Running machine c code chain world) (routine : Routine)
    (options : ResolveOptions) (service : Value) :
    ∃ later, Machine.keep c routine.id routine.cache options service world = (.ok service, later) ∧
      Running machine c code chain later := by
  obtain ⟨services, privates, tags, hat⟩ := h.container
  unfold Machine.keep
  cases routine.cache with
  | none => exact ⟨world, rfl, h⟩
  | some table =>
      cases options.ignoreFreezing with
      | true => exact ⟨world, rfl, h⟩
      | false =>
          refine ⟨_, bind_of_ok (changeContainer_apply hat _) _, h.code, ?_⟩
          cases table with
          | services => exact ⟨_, privates, tags, World.container?_put_self _ _ _ _ hat⟩
          | privates => exact ⟨services, _, tags, World.container?_put_self _ _ _ _ hat⟩

/-- Running a routine that is not in the chain goes well if making its service does. -/
theorem runRoutine_serves (routine : Routine) {machine' : Machine}
    (h : Running machine c code chain world)
    (hat : world.container? c = some (.running machine'))
    (hexceeded : machine.maxDepth ≤ chain.length →
      exempt (.resolutionDepthExceeded routine.id machine.maxDepth))
    (hfresh : routine.id ∉ chain) (options : ResolveOptions) (finished : Dict Routine)
    (hcreate : Follows exempt
      (fun _ world => Running machine c code (chain ++ [routine.id]) world) (pure ())
        (create recur c machine' routine)) :
    Tracks exempt (pure ()) (runRoutine recur c machine' routine options)
      (fun _ _ later => Running machine c code chain later) finished world := by
  obtain ⟨services, privates, tags, hat'⟩ := h.container
  obtain rfl := Container.running.inj (Option.some.inj (hat.symm.trans hat'))
  cases hcached : cached? { machine with services, privates, tags, loading := chain } routine with
  | some service =>
      rw [runRoutine_cached hcached]
      exact Tracks.pure h
  | none =>
      rw [runRoutine_made hcached]
      cases henter : Chain.enter machine.maxDepth chain routine.id with
      | error error =>
          refine Tracks.of_run_eq (entering_refused hat henter _) (Tracks.fail_exempt ?_)
          unfold Chain.enter at henter
          rw [if_neg hfresh] at henter
          split at henter
          · next hfull =>
              obtain rfl := Except.error.inj henter
              exact hexceeded hfull
          · cases henter
      | ok longer =>
          obtain ⟨-, -, rfl⟩ := Chain.enter_eq_ok_iff.mp henter
          apply Tracks.entering hat henter
          have hannounce : Follows exempt
              (fun _ world => Running machine c code (chain ++ [routine.id]) world) (pure ())
                (Run.announce c routine.id routine.deprecation) :=
            Follows.announce Running.storeless (fun _ _ hholds => by
              obtain ⟨services, privates, tags, hat⟩ := Running.container hholds
              exact ⟨_, hat⟩) routine.id routine.deprecation
          rw [← pure_bind () fun _ => (pure () : Compiling Unit)]
          refine Tracks.bind (hcreate finished _ (h.setLoading hat _))
            fun service made inner _ hinner => ?_
          rw [← pure_bind () fun _ => (pure () : Compiling Unit)]
          apply Tracks.bind (hannounce made inner hinner)
          intro _ last later _ hlater
          obtain ⟨end_, hkeep, hrunning⟩ := hlater.keep routine options service
          exact Tracks.of_run_eq (hkeep.trans rfl) (Tracks.pure (a := service) hrunning.cut)

/-- The machine runs what the registry was compiled to, and user code is isolated. The chains that are
entered are among those of `along`, and what can be refused for their length is exempt. -/
structure Sound (exempt raises : Error → Prop) (along : List String → Prop) (registry : Registry)
    (config : Config) (code : Array Code) (machine : Machine) : Prop where
  compiled : registry.Compiled config machine.program
  catalog : machine.catalog = registry.catalog
  isolated : registry.Isolated raises code
  raised : ∀ error, raises error → exempt error
  faulty : ∀ id fault, Fault.AtRunTime fault → exempt (.invalidEntity id fault)
  follow : ∀ {chain : List String} {id next : String}, along (chain ++ [id]) →
    (registry.plan config).Edge id next → along (chain ++ [id] ++ [next])
  exceeded : ∀ {chain : List String} {id : String}, along (chain ++ [id]) →
    machine.maxDepth ≤ chain.length → exempt (.resolutionDepthExceeded id machine.maxDepth)

variable {along : List String → Prop} {registry : Registry} {config : Config}

theorem Sound.executes (sound : Sound exempt raises along registry config code machine)
    (chain : List String) {depth : Nat} (hdepth : 0 < depth) {machine' : Machine}
    (hprogram : machine'.program = machine.program) (hcatalog : machine'.catalog = machine.catalog) :
    Executes exempt raises (fun _ world => Running machine c code chain world)
      (registry.plan config) (Call.run depth) c machine' where
  storeless := Running.storeless
  raised := sound.raised
  faulty := sound.faulty
  isolated := by
    rw [hcatalog, sound.catalog]
    exact sound.isolated.catalog
  catalog := hcatalog.trans sound.catalog
  parameters := by
    rw [hprogram]
    exact sound.compiled.parameters_eq
  invoke f args := Follows.invoke Running.storeless sound.raised (fun _ _ hholds => hholds.code)
    sound.isolated.code hdepth c f args

/-- **Routines.** Every routine makes its service, by induction on what it leads to. -/
theorem Sound.creates (sound : Sound exempt raises along registry config code machine) {id : String}
    (hacc : Acc (flip (registry.plan config).Edge) id) {definition : Definition}
    (hfound : registry.definition? id = some definition) (chain : List String) (depth : Nat)
    (hnodup : chain.Nodup) (hsubset : chain ⊆ (registry.plan config).ids)
    (hapart : ∀ name, Relation.ReflTransGen (registry.plan config).Edge id name → name ∉ chain)
    (halong : along (chain ++ [id]))
    (hdepth : (registry.plan config).ids.length ≤ chain.length + depth) (machine' : Machine)
    (hprogram : machine'.program = machine.program) (hcatalog : machine'.catalog = machine.catalog) :
    Follows exempt (fun _ world => Running machine c code (chain ++ [id]) world) (pure ())
      (create (Call.run depth) c machine' (definition.linked (registry.plan config) id)) := by
  induction hacc generalizing definition chain depth machine' with
  | intro id hacc ih =>
      have hid : id ∈ (registry.plan config).ids :=
        Plan.mem_ids_of_definition registry config.maxDepth hfound
      have hfresh : id ∉ chain := hapart id .refl
      have hlength := Chain.length_lt_of_fresh hnodup hsubset hfresh hid
      obtain ⟨less, rfl⟩ : ∃ less, depth = less + 1 := ⟨depth - 1, by omega⟩
      have hexecutes : Executes exempt raises
          (fun _ world => Running machine c code (chain ++ [id]) world) (registry.plan config)
          (Call.run (less + 1)) c machine' :=
        sound.executes (chain ++ [id]) (Nat.succ_pos less) hprogram hcatalog
      refine create_serves hexecutes definition (sound.isolated.decorators hfound)
        fun demand hdemand => ?_
      obtain ⟨found, hsettle⟩ := sound.compiled.met hfound demand hdemand
      refine ⟨found, hsettle, ?_⟩
      rintro next position rfl hposition finished world h
      have hedge : (registry.plan config).Edge id next :=
        ⟨definition, hfound, demand, hdemand, (Plan.settle_eq_ok hsettle next).mp rfl⟩
      obtain ⟨other, hother, hroutine⟩ := sound.compiled.routine_at hposition
      obtain ⟨services, privates, tags, hat⟩ := h.container
      have hrun : Call.run (less + 1) (.routine c position) world =
          runRoutine (Call.run less) c
            { machine with services, privates, tags, loading := chain ++ [id] }
            (other.linked (registry.plan config) next) {} world := by
        rw [Call.run, Call.step, bind_of_ok (container_apply hat)]
        dsimp only
        rw [runAt, hroutine]
      have hapart' := Plan.apart_of_edge (Acc.intro id hacc) hedge hapart
      have halong' := sound.follow halong hedge
      apply Tracks.of_run_eq hrun
      apply runRoutine_serves _ h hat (sound.exceeded halong') (hapart' next .refl) {} finished
      refine ih next hedge hother (chain ++ [id]) less (Chain.nodup_concat hnodup hfresh) ?_ hapart'
        halong' ?_ _ rfl rfl
      · exact Chain.concat_subset hsubset hid
      · rw [List.length_append, List.length_singleton]
        omega

end Running

end Machine

/-- **Compiled programs do not go wrong.** Whatever is cached, a routine that a query runs ends well,
or in an error of user code, in too deep a nesting, or in a value that is not what it is used as. -/
theorem Builder.programs_do_not_go_wrong {builder built : Builder} {store started : Store}
    {program : Program} (hbuild : builder.compile store = (.ok program, built, started))
    {raises : Error → Prop} (isolated : built.registry.Isolated raises started.code)
    (c : ContainerRef) (world : World)
    (running : Machine.Running (built.load program) c started.code [] world) (machine : Machine)
    (hat : world.container? c = some (.running machine)) (routine : Routine)
    (hroutine : routine ∈ program.routines) (options : ResolveOptions) (depth : Nat)
    (hdepth : program.routines.length ≤ depth) :
    match machine.runRoutine (Call.run depth) c routine options world with
    | (.ok _, later) => Machine.Running (built.load program) c started.code [] later
    | (.error (.error error), _) => raises error ∨
        (∃ id, error = .resolutionDepthExceeded id built.config.maxDepth) ∨
          ∃ id fault, Fault.AtRunTime fault ∧ error = .invalidEntity id fault
    | (.error .unfinished, _) => False := by
  have hcompiled : built.registry.Compiled built.config program := by
    obtain ⟨setup, -, rfl, hcompile⟩ := Builder.compile_eq_ok hbuild
    exact Registry.compiled_of_compile hcompile
  have hsound : Machine.Sound (fun error => raises error ∨
      (∃ id, error = .resolutionDepthExceeded id built.config.maxDepth) ∨
        ∃ id fault, Fault.AtRunTime fault ∧ error = .invalidEntity id fault) raises (fun _ => True)
      built.registry built.config started.code (built.load program) :=
    ⟨hcompiled, rfl, isolated, fun _ => Or.inl,
      fun id fault h => Or.inr (Or.inr ⟨id, fault, h, rfl⟩), fun _ _ => trivial,
      fun _ _ => Or.inr (Or.inl ⟨_, rfl⟩)⟩
  rw [hcompiled.routines_eq] at hroutine hdepth
  obtain ⟨id, hid, rfl⟩ := List.mem_map.mp hroutine
  have hcontains : built.registry.contains id :=
    (Plan.mem_ids_iff built.registry built.config.maxDepth).mp hid
  obtain ⟨definition, hfound⟩ : ∃ definition, built.registry.definition? id = some definition :=
    Option.isSome_iff_exists.mp hcontains
  obtain ⟨services, privates, tags, hat'⟩ := running.container
  have hmachine := Container.running.inj (Option.some.inj (hat.symm.trans hat'))
  rw [Registry.linked_eq hfound]
  have htracks := Machine.runRoutine_serves
    (definition.linked (built.registry.plan built.config) id) running hat
    (hsound.exceeded trivial) List.not_mem_nil options ∅
    (hsound.creates (hcompiled.grounded hcontains) hfound [] depth List.nodup_nil (List.nil_subset _)
      (fun _ _ => List.not_mem_nil) trivial (by simpa using hdepth) machine (by rw [hmachine])
      (by rw [hmachine]))
  unfold Run.Tracks at htracks
  split at htracks
  · next hruns =>
      rw [hruns]
      exact htracks.choose_spec.2
  · next hruns =>
      rw [hruns]
      apply htracks.resolve_right
      rintro ⟨found, hpure, -⟩
      cases hpure
  · exact htracks.elim

/-- Two definitions, compiled and loaded: either routine may be run at once. -/
theorem Builder.callLoop_does_not_go_wrong :
    ∃ program, Builder.compile { registry := .callLoop (.value .null) } {} =
        (.ok program, { registry := .callLoop (.value .null) }, {}) ∧ program.routines.length = 2 ∧
      ∀ routine ∈ program.routines,
        let machine := Builder.load { registry := .callLoop (.value .null) } program
        match machine.runRoutine (Call.run 2) ⟨0⟩ routine {}
          { containers := #[some (.running machine)] } with
        | (.ok _, later) => Machine.Running machine ⟨0⟩ #[] [] later
        | (.error (.error error), _) => False ∨
            (∃ id, error = .resolutionDepthExceeded id 100) ∨
              ∃ id fault, Fault.AtRunTime fault ∧ error = .invalidEntity id fault
        | (.error .unfinished, _) => False := by
  have hbuild : Builder.compile { registry := .callLoop (.value .null) } {} =
      ((Registry.callLoop (.value .null)).compile {}, { registry := .callLoop (.value .null) }, {}) :=
    rfl
  have hcompiles : ((Registry.callLoop (.value .null)).compile {}).toOption.map
      (·.routines.length) = some 2 := by
    decide +kernel
  cases hcompile : (Registry.callLoop (.value .null)).compile {} with
  | error error => simp [hcompile, Except.toOption] at hcompiles
  | ok program =>
      rw [hcompile] at hbuild hcompiles
      have hlength : program.routines.length = 2 := by
        simpa [Except.toOption] using hcompiles
      refine ⟨program, hbuild, hlength, fun routine hroutine => ?_⟩
      exact programs_do_not_go_wrong hbuild (Registry.callLoop_isolated _ _) ⟨0⟩ _
        ⟨rfl, ∅, ∅, program.tags, rfl⟩ _ rfl routine hroutine {} 2 hlength.le

end Wiring
