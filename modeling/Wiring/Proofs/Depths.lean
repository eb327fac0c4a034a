import Wiring.Proofs.InProgress
import Wiring.Proofs.Safety

/-!
# Depth limits

The compiler and a machine count the same thing, the definitions that are under construction one
inside the other, against the same limit. But the compiler makes each routine once: it does not enter
again what it has made before, and so it never sees a chain as a whole of which it made the end first.
A program can then be compiled whose services cannot be made, and whether it is compiled depends on how
the ids are sorted. Where no chain of definitions is longer than the limit, nothing is refused for its
depth by either.
-/

namespace Wiring

namespace Plan

variable {plan : Plan} {chain : List String} {id next : String} {source : Error}

theorem settle_ne_exceeded {demand : Demand} (hsettle : plan.settle id demand = .error source)
    (name : String) (limit : Nat) : source.rootCause ≠ .resolutionDepthExceeded name limit := by
  have hplain := plain_of_settle hsettle
  cases source with
  | resolutionDepthExceeded => exact hplain.elim
  | compilation => exact hplain.elim
  | _ => simp [Error.rootCause]

/-- What is refused for its depth could go on a chain that is full. -/
theorem Refused.exceeded (hrefused : plan.Refused chain next source) {name : String} {limit : Nat}
    (hcause : source.rootCause = .resolutionDepthExceeded name limit) :
    next ∉ chain ∧ plan.maxDepth ≤ chain.length := by
  rcases hrefused with ⟨-, rfl⟩ | henter
  · cases hcause
  · rw [Chain.rootCause_of_enter henter] at hcause
    rw [hcause] at henter
    exact (Chain.enter_eq_exceeded_iff.mp henter).2.2

end Plan

namespace Registry

/-- No chain of definitions, each demanding the next one eagerly, is longer than what may be under
construction. -/
def Shallow (registry : Registry) (config : Config) : Prop :=
  ∀ chain : List String, chain.Nodup → chain.IsChain (registry.plan config).Edge →
    (∀ id ∈ chain, registry.contains id) → chain.length ≤ config.maxDepth

variable {registry : Registry} {config : Config} {chain : List String} {id next : String}

/-- Each definition of the chain demands the next one. -/
structure Descends (registry : Registry) (config : Config) (chain : List String) : Prop where
  path : chain.IsChain (registry.plan config).Edge
  registered : ∀ id ∈ chain, registry.contains id

theorem Descends.single (hid : registry.contains id) : registry.Descends config [id] where
  path := List.isChain_singleton id
  registered _ hother := List.mem_singleton.mp hother ▸ hid

theorem Descends.follow (h : registry.Descends config (chain ++ [id]))
    (hedge : (registry.plan config).Edge id next) :
    registry.Descends config (chain ++ [id] ++ [next]) where
  path := by
    refine h.path.append (List.isChain_singleton next) fun last hlast other hother => ?_
    rw [List.getLast?_concat] at hlast
    cases hlast
    cases hother
    exact hedge
  registered other hother := by
    rcases List.mem_append.mp hother with hold | hnew
    · exact h.registered other hold
    · obtain ⟨definition, hfound, demand, hdemand, heager⟩ := hedge
      rw [List.mem_singleton.mp hnew]
      exact Plan.contains_of_eager heager

theorem Descends.nodup (h : registry.Descends config chain)
    (hacyclic : ∀ id, ¬ Relation.TransGen (registry.plan config).Edge id id) : chain.Nodup := by
  have hpath : chain.IsChain (Relation.TransGen (registry.plan config).Edge) :=
    h.path.imp fun _ _ => .single
  refine hpath.pairwise.imp fun hleads => ?_
  rintro rfl
  exact hacyclic _ hleads

/-- A chain that demands lead along and that ends in a definition. -/
theorem Descends.of_path {above : List String} {last : String}
    (hpath : (above ++ [last]).IsChain (registry.plan config).Edge)
    (hlast : registry.contains last) : registry.Descends config (above ++ [last]) where
  path := hpath
  registered := by
    induction above with
    | nil => exact fun id hid => List.mem_singleton.mp hid ▸ hlast
    | cons first rest ih =>
        rw [List.cons_append, List.isChain_cons] at hpath
        intro id hid
        rcases List.mem_cons.mp hid with rfl | hrest
        · obtain ⟨next, hnext⟩ : ∃ next, (rest ++ [last]).head? = some next := by
            cases rest <;> exact ⟨_, rfl⟩
          obtain ⟨definition, hfound, -⟩ := hpath.1 next hnext
          exact contains_of_definition hfound
        · exact ih hpath.2 id hrest

theorem Shallow.length_le (shallow : registry.Shallow config) (h : registry.Descends config chain)
    (hnodup : chain.Nodup) : chain.length ≤ config.maxDepth :=
  shallow chain hnodup h.path h.registered

/-- **Compiling** refuses nothing for its depth where no chain is too long. -/
theorem Shallow.compile_ne (shallow : registry.Shallow config) {error : Error}
    (hcompile : registry.compile config = .error error) (name : String) (limit : Nat) :
    error.rootCause ≠ .resolutionDepthExceeded name limit := by
  intro hcause
  obtain ⟨id, hid, hrefused | ⟨longer, hnodup, hpath, above, last, rfl, hstuck⟩⟩ :=
    compile_eq_error hcompile
  · have hfull : config.maxDepth ≤ 0 := (hrefused.exceeded hcause).2
    have hroom := shallow.length_le (.single hid) (List.nodup_singleton id)
    exact absurd (hroom.trans hfull) (Nat.not_succ_le_zero 0)
  · obtain ⟨definition, hfound, demand, hdemand, source, rfl, hsettle | ⟨next, hsettle, hrefused⟩⟩ :=
      hstuck
    · exact Plan.settle_ne_exceeded hsettle name limit hcause
    · obtain ⟨hfresh, hfull⟩ := hrefused.exceeded hcause
      have hedge : (registry.plan config).Edge last next :=
        ⟨definition, hfound, demand, hdemand, (Plan.settle_eq_ok hsettle next).mp rfl⟩
      have hdescends := Descends.of_path hpath (contains_of_definition hfound)
      have hroom := shallow.length_le (hdescends.follow hedge) (Chain.nodup_concat hnodup hfresh)
      rw [List.length_append, List.length_singleton] at hroom
      have hfull' : config.maxDepth ≤ (above ++ [last]).length := hfull
      omega

end Registry

/-- An error that user code raises, or one that is not about depth. -/
def Error.Shallow (raises : Error → Prop) (error : Error) : Prop :=
  raises error ∨ ∀ id limit, error ≠ .resolutionDepthExceeded id limit

section Running

open Run Machine

variable {registry : Registry} {config : Config} {program : Program} {raises : Error → Prop}
  {code : Array Code} {handler : NoticeHandler} {c : ContainerRef} {world : World} {α β : Type}

/-- The machine that runs the program of the registry. -/
abbrev Registry.machine (registry : Registry) (config : Config) (program : Program)
    (handler : NoticeHandler) : Machine :=
  .load program registry.catalog config.maxDepth handler

theorem Registry.Shallow.sound (shallow : registry.Shallow config)
    (hcompile : registry.compile config = .ok program) (isolated : registry.Isolated raises code)
    (handler : NoticeHandler) :
    Machine.Sound (Error.Shallow raises) raises (registry.Descends config) registry config code
      (registry.machine config program handler) where
  compiled := compiled_of_compile hcompile
  catalog := rfl
  isolated := isolated
  raised _ := .inl
  faulty _ _ _ := .inr nofun
  follow := Descends.follow
  exceeded {chain id} hdescends hfull := by
    have hnodup := hdescends.nodup ((compile_cycles registry config).1 program hcompile)
    have hroom := shallow.length_le hdescends hnodup
    rw [List.length_append, List.length_singleton] at hroom
    have hfull' : config.maxDepth ≤ chain.length := hfull
    omega

/-- The run fails in no other way for the depth, and leaves the machine with nothing under
construction. -/
def Run.Fits (raises : Error → Prop) (machine : Machine) (c : ContainerRef) (code : Array Code)
    (world : World) (act : Run α) : Prop :=
  match act world with
  | (.ok _, later) => Machine.Running machine c code [] later
  | (.error (.error error), _) => error.Shallow raises
  | (.error .unfinished, _) => True

variable {machine : Machine}

theorem Run.Fits.bind {act : Run α} {next : α → Run β} (hact : act.Fits raises machine c code world)
    (hnext : ∀ a later, Machine.Running machine c code [] later →
      (next a).Fits raises machine c code later) :
    (act >>= next).Fits raises machine c code world := by
  unfold Run.Fits at hact
  rcases hrun : act world with ⟨halt | a, later⟩
  · rw [hrun] at hact
    unfold Run.Fits
    rw [bind_of_error hrun]
    cases halt <;> exact hact
  · rw [hrun] at hact
    have hlater := hnext a later hact
    unfold Run.Fits at hlater ⊢
    rw [bind_of_ok hrun]
    exact hlater

theorem Run.Fits.mapM {visit : β → Run α}
    (h : ∀ item world, Machine.Running machine c code [] world →
      (visit item).Fits raises machine c code world)
    (items : List β) (world : World) (running : Machine.Running machine c code [] world) :
    (items.mapM visit).Fits raises machine c code world := by
  induction items generalizing world with
  | nil => exact running
  | cons item rest ih =>
      rw [List.mapM_cons]
      exact (h item world running).bind fun first later hlater =>
        (ih later hlater).bind fun others last hlast => hlast

theorem Run.Fits.of_vouches {W : World.Ways} {act other : Run α} (h : VouchesAt W world act other)
    (hother : other.Fits raises machine c code world) : act.Fits raises machine c code world := by
  unfold Run.Fits at hother ⊢
  rcases h with hgiven | ⟨hsame, -⟩
  · rw [show act world = (.error .unfinished, (act world).2) from Prod.ext hgiven rfl]
    trivial
  · rw [hsame]
    exact hother

theorem Run.Fits.of_eq {act other : Run α} (h : act world = other world)
    (hother : other.Fits raises machine c code world) : act.Fits raises machine c code world := by
  unfold Run.Fits at *
  rwa [h]

theorem Run.Fits.fail {error : Error} (h : ∀ id limit, error ≠ .resolutionDepthExceeded id limit) :
    (Run.fail error : Run α).Fits raises machine c code world := .inr h

section Sound

variable {along : List String → Prop}
  (sound : Machine.Sound (Error.Shallow raises) raises along registry config code machine)
  (halong : ∀ id, registry.contains id → along [id])

include sound halong

/-- **A service** is made without running out of depth, where the nesting suffices. -/
theorem Machine.Sound.obtain_fits (running : Machine.Running machine c code [] world)
    {container : Container} (hat : world.container? c = some container) {id : String}
    (hdefined : container.defines id) (options : ResolveOptions) {depth : Nat}
    (hdepth : (registry.plan config).ids.length ≤ depth) :
    (container.obtain (Call.run depth) c id options).Fits raises machine c code world := by
  obtain ⟨services, privates, tags, hat'⟩ := running.container
  obtain rfl := Option.some.inj (hat.symm.trans hat')
  have hroutine := sound.compiled.routine?_eq id
  have hcontains : registry.contains id := by
    by_contra hnot
    rw [if_neg hnot] at hroutine
    have hsome : (machine.program.routine? id).isSome := hdefined
    rw [hroutine] at hsome
    cases hsome
  obtain ⟨definition, hfound⟩ : ∃ definition, registry.definition? id = some definition :=
    Option.isSome_iff_exists.mp hcontains
  rw [if_pos hcontains, Registry.linked_eq hfound] at hroutine
  have hobtain : Container.obtain (Call.run depth) c id options
      (.running { machine with services, privates, tags, loading := [] }) =
        runRoutine (Call.run depth) c { machine with services, privates, tags, loading := [] }
          (definition.linked (registry.plan config) id) options := by
    rw [Container.obtain]
    dsimp only
    rw [hroutine]
  have htracks := runRoutine_serves (definition.linked (registry.plan config) id) running hat
    (sound.exceeded (halong id hcontains)) List.not_mem_nil options ∅
    (sound.creates (sound.compiled.grounded hcontains) hfound [] depth List.nodup_nil
      (List.nil_subset _) (fun _ _ => List.not_mem_nil) (halong id hcontains)
      (by simpa using hdepth) _ rfl rfl)
  rw [hobtain]
  unfold Run.Tracks at htracks
  unfold Run.Fits
  rcases hrun : runRoutine (Call.run depth) c
    { machine with services, privates, tags, loading := [] }
    (definition.linked (registry.plan config) id) options world with ⟨halt | service, later⟩
  · rw [hrun] at htracks
    cases halt with
    | unfinished => exact htracks.elim
    | error error =>
        refine htracks.resolve_right ?_
        rintro ⟨found, hpure, -⟩
        cases hpure
  · rw [hrun] at htracks
    exact htracks.choose_spec.2

/-- **A query** fails in no other way for the depth. -/
theorem Machine.Sound.locate_fits (depth : Nat) (isPublic : Bool) (name : String)
    (options : ResolveOptions) (world : World) (running : Machine.Running machine c code [] world) :
    (Call.run depth (.locate isPublic c name options)).Fits raises machine c code world := by
  induction depth generalizing isPublic name world with
  | zero => trivial
  | succ depth ih =>
      obtain ⟨services, privates, tags, hat⟩ := running.container
      have hstep : ∀ depth, Call.run (depth + 1) (.locate isPublic c name options) world = _ :=
        fun depth => Call.step_locate hat (Call.run depth) isPublic name options
      cases hlookup : Container.lookup isPublic name
          (.running { machine with services, privates, tags, loading := [] }) with
      | definition id =>
          -- a run that ends is the same with room for all definitions
          have hdefined := Container.defines_of_lookup hlookup
          let deep := depth + (registry.plan config).ids.length
          have hdeep : depth + 1 ≤ deep + 1 := Nat.succ_le_succ (Nat.le_add_right ..)
          refine .of_vouches (Call.run_deeper hdeep _ world) (.of_eq (hstep deep) ?_)
          rw [hlookup]
          exact obtain_fits sound halong running hat hdefined options (Nat.le_add_left ..)
      | withheld =>
          refine .of_eq (hstep depth) ?_
          rw [hlookup]
          exact .fail fun _ _ herror => by cases herror
      | services typeName ids =>
          refine .of_eq (hstep depth) ?_
          rw [hlookup, Lookup.run]
          rcases ids with _ | ⟨only, _ | ⟨second, rest⟩⟩
          · exact .fail fun _ _ herror => by cases herror
          · exact ih false only world running
          · rw [resolveType_several]
            split
            · refine (Run.Fits.mapM (fun id world running => ih false id world running) _ world
                running).bind fun services later hlater => ?_
              exact hlater
            · exact .fail fun _ _ herror => by cases herror

end Sound

/-- Whatever a new machine served, it is as new but for what it caches. -/
theorem Registry.running_of_serves (hcompile : registry.compile config = .ok program)
    {store : Store} {exchanges : List Exchange}
    (hserves : (World.alone store (.running (registry.machine config program handler))).Serves
      exchanges world) :
    Machine.Running (registry.machine config program handler) ⟨0⟩ store.code [] world := by
  have hstart : registry.Starts config (.running (registry.machine config program handler)) :=
    .running hcompile handler
  obtain ⟨hstays, hidle⟩ := (World.idle_alone hstart store).serves
    (World.compiled_alone hstart store) hserves
  obtain ⟨container, hat, hbase⟩ := hstays.container (c := ⟨0⟩) rfl
  obtain ⟨now, rfl⟩ := Container.running_of_base hbase
  have hloading : now.loading = [] := hidle _ _ hat
  have hsame := Container.running.inj hbase
  have hnow : now = { registry.machine config program handler with
      services := now.services, privates := now.privates, tags := now.tags, loading := [] } := by
    cases now
    simp_all [Machine.load]
  exact ⟨hstays.code, now.services, now.privates, now.tags, hat.trans (by rw [← hnow])⟩

end Running

namespace Registry

variable {registry : Registry} {config : Config}

/-- No chain is longer than the limit if no more services are defined than that. -/
theorem shallow_of_length_le (h : (registry.plan config).ids.length ≤ config.maxDepth) :
    registry.Shallow config := by
  intro chain hnodup _ hregistered
  have hsubset : chain ⊆ (registry.plan config).ids := fun id hid =>
    (Plan.mem_ids_iff registry config.maxDepth).mpr (hregistered id hid)
  exact (List.subperm_of_subset hnodup hsubset).length_le.trans h

/-- **Depth limits are settled when a registry is compiled**, as long as no chain of definitions is
longer than the limit. Then compiling refuses nothing for its depth; and of a machine that runs the
program, with user code that keeps to itself, whatever it served before, no query of any name fails for
the depth, unless user code raises such an error of its own. -/
theorem depth_settled (shallow : registry.Shallow config) :
    (∀ error, registry.compile config = .error error → ∀ id limit,
      error.rootCause ≠ .resolutionDepthExceeded id limit) ∧
    ∀ program, registry.compile config = .ok program →
      ∀ (handler : NoticeHandler) (store : Store) (raises : Error → Prop),
        registry.Isolated raises store.code →
      ∀ (exchanges : List Exchange) (world : World),
        (World.alone store (.running (.load program registry.catalog config.maxDepth handler))).Serves
          exchanges world →
      ∀ (isPublic : Bool) (name : String) (options : ResolveOptions) (depth : Nat) (error : Error),
        (Call.run depth (.locate isPublic ⟨0⟩ name options) world).1 = .error (.error error) →
          raises error ∨ ∀ id limit, error ≠ .resolutionDepthExceeded id limit := by
  refine ⟨fun error => shallow.compile_ne, ?_⟩
  intro program hcompile handler store raises isolated exchanges world hserves isPublic name options
    depth error herror
  have hfits := (shallow.sound hcompile isolated handler).locate_fits (fun id => Descends.single) depth
    isPublic name options world (running_of_serves hcompile hserves)
  unfold Run.Fits at hfits
  rw [show Call.run depth (.locate isPublic ⟨0⟩ name options) world = (.error (.error error), _) from
    Prod.ext herror rfl] at hfits
  exact hfits

/-- The service `b` is made with that of the name, which is a value. -/
def pairing (name : String) : Registry :=
  let value := Registration.set name (.ofValue (.int 1))
  let pair := Registration.set "b"
    ((Definition.ofEntity (.construct "B")).namedArg "next" (.reference name))
  pair.after (value.after ∅ {}) {}

theorem pairing_isolated : (pairing "a").Isolated (fun _ => False) #[] where
  catalog := {
    construct := fun hspec => by cases hspec
    method := fun hmethod => by cases hmethod }
  decorators hfound := by
    rcases Registry.mem_entries_of_definition hfound with _ | ⟨_, _ | ⟨_, hnone⟩⟩
    · exact fun _ hmem => absurd hmem List.not_mem_nil
    · exact fun _ hmem => absurd hmem List.not_mem_nil
    · cases hnone
  code hbody := by cases hbody

/-- With a limit of two, no query fails for the depth after the pair was made. -/
theorem depth_settled_pairing :
    ∃ program world, (pairing "a").compile { maxDepth := 2 } = .ok program ∧
      (World.alone {} (.running (.load program (pairing "a").catalog 2 .silent))).Serves
        [⟨.get ⟨0⟩ "b" {}, .ok (.object ⟨0, "B"⟩), []⟩] world ∧
      ∀ (isPublic : Bool) (name : String) (options : ResolveOptions) (depth : Nat) (error : Error),
        (Call.run depth (.locate isPublic ⟨0⟩ name options) world).1 = .error (.error error) →
          False ∨ ∀ id limit, error ≠ .resolutionDepthExceeded id limit := by
  have shallow : (pairing "a").Shallow { maxDepth := 2 } := shallow_of_length_le (Nat.le_refl 2)
  obtain ⟨program, world, hcompile, hserves⟩ : ∃ program world,
      (pairing "a").compile { maxDepth := 2 } = .ok program ∧
      (World.alone {} (.running (.load program (pairing "a").catalog 2 .silent))).Serves
        [⟨.get ⟨0⟩ "b" {}, .ok (.object ⟨0, "B"⟩), []⟩] world :=
    ⟨_, _, rfl, .next ⟨⟨4, rfl⟩, rfl⟩ (.done _)⟩
  exact ⟨program, world, hcompile, hserves,
    (depth_settled shallow).2 program hcompile .silent {} _ pairing_isolated _ world hserves⟩

/-- The limit is one. If the value comes first in the order of the ids, the pair is compiled when the
value is done, and cannot be made later; if it comes after the pair, nothing is compiled. -/
theorem depth_unsettled :
    Config.validate { maxDepth := 1 } = .ok () ∧ (pairing "a").Isolated (fun _ => False) #[] ∧
      (∃ program, (pairing "a").compile { maxDepth := 1 } = .ok program ∧
        (Call.run 3 (.get ⟨0⟩ "b" {}) (World.alone {}
          (.running (.load program (pairing "a").catalog 1 .silent)))).1 =
            .error (.error (.resolutionDepthExceeded "a" 1))) ∧
      (pairing "z").compile { maxDepth := 1 } =
        .error (.compilation "b" (.resolutionDepthExceeded "z" 1)) := by
  refine ⟨rfl, pairing_isolated, ⟨_, rfl, rfl⟩, rfl⟩

end Registry

end Wiring
