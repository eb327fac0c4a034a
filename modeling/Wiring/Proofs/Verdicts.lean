import Wiring.Proofs.Answers
import Wiring.Proofs.Names

/-!
# Verdicts on a graph

Compiling a registry and resolving its ids one after the other walk the same graph. The compiler
finishes a definition once; the interpreter caches what it made, and makes a factory's service anew
each time. Making it again goes through finished definitions alone, none of which is in the chain, so
that it cannot fail where it did not fail before.
-/

namespace Wiring

open Compiling Chain

namespace Interpreter

open Run

/-! ### Resolving by name -/

/-- The registry of the interpreter at `c`, frozen ids apart. -/
def Reads (registry : Registry) (c : ContainerRef) (world : World) : Prop :=
  ∃ (frozen : NameSet) (interpreter : Interpreter),
    world.container? c = some (.interpreting interpreter) ∧
      interpreter.registry = { registry with frozen }

section Resolve

variable {registry : Registry} {c : ContainerRef} {world : World}

/-- A name that stands for a definition is resolved by it. -/
theorem resolve_defined {interpreter : Interpreter} {frozen : NameSet} {definition : Definition}
    {name id : String} (hat : world.container? c = some (.interpreting interpreter))
    (hregistry : interpreter.registry = { registry with frozen })
    (halias : registry.resolveAlias name = id)
    (hfound : registry.definition? id = some definition) (depth : Nat) (options : ResolveOptions) :
    Call.run (depth + 1) (.resolve c name options) world =
      resolveDefinition (Call.run depth) c { registry with frozen } (interpreter.services.get? id) id
        definition options world := by
  rw [Call.run, Call.step, bind_of_ok (container_apply hat)]
  dsimp only
  rw [resolve, hregistry]
  have halias' : Registry.resolveAlias { registry with frozen } name = id := halias
  have hfound' : Registry.definition? { registry with frozen } id = some definition := hfound
  simp only [halias', hfound', Bool.false_and, Bool.false_eq_true, if_false]

/-- A name that stands for no definition is resolved as a type. -/
theorem resolve_undefined (hreads : Reads registry c world) {name : String}
    (hfound : registry.definition? (registry.resolveAlias name) = none) (depth : Nat) :
    Call.run (depth + 1) (.resolve c name {}) world =
      Run.resolveType (Call.run depth) c (registry.resolveAlias name)
        (registry.candidates (registry.resolveAlias name)) {} world := by
  obtain ⟨frozen, interpreter, hat, hregistry⟩ := hreads
  rw [Call.run, Call.step, bind_of_ok (container_apply hat)]
  dsimp only
  rw [resolve, hregistry]
  have halias : Registry.resolveAlias { registry with frozen } name = registry.resolveAlias name :=
    rfl
  have hfound' : Registry.definition? { registry with frozen } (registry.resolveAlias name) = none :=
    hfound
  simp only [halias, hfound']
  rfl

end Resolve

section Names

variable {exempt : Error → Prop} {G : Dict Routine → World → Prop} {registry : Registry}
  {maxDepth : Nat} {c : ContainerRef} {finish : String → Compiling Unit}

/-- The definition is found at once, or one call later where the name is a type. -/
theorem resolve_follows (unambiguous : Unambiguous registry maxDepth)
    (hreads : ∀ finished world, G finished world → Reads registry c world) {depth : Nat}
    (hdepth : 2 ≤ depth) (id name : String)
    (hnext : ∀ next, (Plan.ofRegistry registry maxDepth).target name = .ok next → ∀ less,
      depth ≤ less + 2 → Follows exempt G (finish next) (Call.run (less + 1) (.resolve c next {}))) :
    Follows exempt G (meet ⟨.ofRegistry registry maxDepth, finish⟩ id (.callee name))
      (Call.run depth (.resolve c name {})) := by
  obtain ⟨less, rfl⟩ : ∃ less, depth = less + 2 := ⟨depth - 2, by omega⟩
  have hok : ∀ next, (Plan.ofRegistry registry maxDepth).target name = .ok next →
      meet ⟨.ofRegistry registry maxDepth, finish⟩ id (.callee name) = finish next := by
    intro next htarget
    obtain ⟨position, hselect⟩ := Plan.select_of_target registry maxDepth htarget
    rw [meet, Plan.settle, hselect]
    rfl
  have herror : ∀ error, (Plan.ofRegistry registry maxDepth).target name = .error error →
      meet ⟨.ofRegistry registry maxDepth, finish⟩ id (.callee name) = lift (.error error) := by
    intro error htarget
    rw [meet, Plan.settle, Plan.select_of_target_error registry maxDepth htarget]
    rfl
  intro finished world hG
  cases hfound : registry.definition? (registry.resolveAlias name) with
  | some definition =>
      have hcontains : registry.contains (registry.resolveAlias name) := by
        exact Option.isSome_of_eq_some hfound
      have htarget : (Plan.ofRegistry registry maxDepth).target name = _ :=
        Plan.target_of_contains hcontains
      obtain ⟨frozen, interpreter, hat, hregistry⟩ := hreads finished world hG
      rw [hok _ htarget]
      refine Tracks.of_run_eq ?_ (hnext _ htarget (less + 1) (by omega) finished world hG)
      rw [resolve_defined hat hregistry rfl hfound]
      refine (resolve_defined hat hregistry ?_ hfound _ _).symm
      exact AliasTable.resolve_of_free (unambiguous.free _ hcontains)
  | none =>
      have htarget : (Plan.ofRegistry registry maxDepth).target name = _ :=
        Plan.target_of_absent hfound
      apply Tracks.of_run_eq (resolve_undefined (hreads finished world hG) hfound (less + 1))
      rw [unambiguous.candidates]
      rcases hcandidates : (Plan.ofRegistry registry maxDepth).candidates
        (registry.resolveAlias name) with _ | ⟨only, _ | ⟨second, rest⟩⟩
      · rw [hcandidates] at htarget
        rw [herror _ htarget]
        exact Tracks.fail rfl
      · rw [hcandidates] at htarget
        rw [hok _ htarget]
        exact hnext only htarget less (by omega) finished world hG
      · rw [hcandidates] at htarget
        rw [herror _ htarget]
        exact Tracks.fail rfl

/-- A lazy reference becomes a handle; any other is resolved as a callee is. -/
theorem reference_follows (unambiguous : Unambiguous registry maxDepth) (hG : Storeless G)
    (hreads : ∀ finished world, G finished world → Reads registry c world) {depth : Nat}
    (hdepth : 2 ≤ depth) (id name : String) (frozen : NameSet)
    (hnext : ∀ next, (Plan.ofRegistry registry maxDepth).target name = .ok next →
      registry.isLazy next = false → ∀ less, depth ≤ less + 2 →
        Follows exempt G (finish next) (Call.run (less + 1) (.resolve c next {}))) :
    Follows exempt G (meet ⟨.ofRegistry registry maxDepth, finish⟩ id (.reference name))
      (reference (Call.run depth) c { registry with frozen } name) := by
  have hlazy : Registry.lazyTarget? { registry with frozen } name = registry.lazyTarget? name := rfl
  unfold reference
  rw [hlazy, lazyTarget_eq unambiguous]
  cases htarget : (Plan.ofRegistry registry maxDepth).target name with
  | error error =>
      have hmeet : meet ⟨.ofRegistry registry maxDepth, finish⟩ id (.reference name) =
          meet ⟨.ofRegistry registry maxDepth, finish⟩ id (.callee name) := by
        rw [meet, meet, Plan.settle, Plan.settle,
          Plan.select_of_target_error registry maxDepth htarget]
        rfl
      rw [hmeet]
      apply resolve_follows unambiguous hreads hdepth id name
      intro next hok
      simp [htarget] at hok
  | ok target =>
      obtain ⟨position, hselect⟩ := Plan.select_of_target registry maxDepth htarget
      cases hflag : registry.isLazy target with
      | true =>
          have hmeet : meet ⟨.ofRegistry registry maxDepth, finish⟩ id (.reference name) =
              pure () := by
            rw [meet, Plan.settle, hselect]
            simp [Except.map, finishNext, Plan.ofRegistry, hflag]
          have hfilter : (Except.ok (ε := Error) target).toOption.filter registry.isLazy =
              some target := by
            simp [Except.toOption, hflag]
          rw [hmeet, hfilter]
          exact Follows.and_then (Follows.onStore hG fun store => rfl) fun l => .pure _
      | false =>
          have hmeet : meet ⟨.ofRegistry registry maxDepth, finish⟩ id (.reference name) =
              meet ⟨.ofRegistry registry maxDepth, finish⟩ id (.callee name) := by
            rw [meet, meet, Plan.settle, Plan.settle, hselect]
            simp [Except.map, finishNext, Plan.ofRegistry, hflag]
          have hfilter : (Except.ok (ε := Error) target).toOption.filter registry.isLazy = none := by
            simp [Except.toOption, hflag]
          rw [hmeet, hfilter]
          apply resolve_follows unambiguous hreads hdepth id name
          intro next hok
          obtain rfl : target = next := by simpa [htarget] using hok
          exact hnext target htarget hflag

/-- Every demand is answered, provided that what it is eager for is resolved. -/
theorem answers (unambiguous : Unambiguous registry maxDepth) (hG : Storeless G)
    (hreads : ∀ finished world, G finished world → Reads registry c world) {depth : Nat}
    (hdepth : 2 ≤ depth) (id : String) (demand : Demand) (frozen : NameSet)
    (hnext : ∀ next, (Plan.ofRegistry registry maxDepth).Eager next demand → ∀ less,
      depth ≤ less + 2 → Follows exempt G (finish next) (Call.run (less + 1) (.resolve c next {}))) :
    Answers exempt G ⟨.ofRegistry registry maxDepth, finish⟩ (Call.run depth) c
      { registry with frozen } id demand := by
  cases demand with
  | reference name =>
      exact reference_follows unambiguous hG hreads hdepth id name frozen fun next htarget hlazy =>
        hnext next ⟨htarget, hlazy⟩
  | callee name =>
      exact resolve_follows unambiguous hreads hdepth id name fun next htarget => hnext next htarget
  | parameter name => trivial
  | construct className positional => trivial

end Names

/-! ### Walking the graph -/

/-- The interpreter of `registry` is loading `chain`, and of what is finished it has cached all but
the services of factories. -/
structure Resolving (registry : Registry) (config : Config) (c : ContainerRef) (code : Array Code)
    (chain : List String) (finished : Dict Routine) (world : World) : Prop where
  code : world.store.code = code
  container : ∃ (frozen : NameSet) (services : Table Value) (handler : NoticeHandler),
    world.container? c = some (.interpreting
      { registry := { registry with frozen }, services, loading := chain, config, handler }) ∧
    ∀ id definition, registry.definition? id = some definition →
      (services.contains id ↔ finished.contains id ∧ definition.flags.factory = false)

section Walk

variable {registry : Registry} {config : Config} {c : ContainerRef} {code : Array Code}
  {chain : List String} {finished : Dict Routine} {world : World}

theorem Resolving.storeless : Storeless (Resolving registry config c code chain) :=
  fun _ _ _ h hcode => ⟨hcode.trans h.code, h.container⟩

theorem Resolving.reads (h : Resolving registry config c code chain finished world) :
    Reads registry c world := by
  obtain ⟨frozen, services, handler, hat, -⟩ := h.container
  exact ⟨frozen, _, hat, rfl⟩

theorem Resolving.setLoading (h : Resolving registry config c code chain finished world)
    {container : Container} (hat : world.container? c = some container) (longer : List String) :
    Resolving registry config c code longer finished (world.put c (container.setLoading longer)) := by
  obtain ⟨frozen, services, handler, hat', hcached⟩ := h.container
  obtain rfl := Option.some.inj (hat.symm.trans hat')
  exact ⟨h.code, frozen, services, handler, World.container?_put_self _ _ _ _ hat, hcached⟩

theorem Resolving.cut {id : String}
    (h : Resolving registry config c code (chain ++ [id]) finished world) :
    Resolving registry config c code chain finished (Run.cut c chain.length world) := by
  obtain ⟨frozen, services, handler, hat, -⟩ := h.container
  have htake : (chain ++ [id]).take chain.length = chain := List.take_left
  have hcut := cut_apply hat chain.length
  dsimp only [Container.loading] at hcut
  rw [hcut, htake]
  exact h.setLoading hat chain

/-- A factory's service is not cached, and any other is. -/
theorem Resolving.keep (h : Resolving registry config c code chain finished world) {id : String}
    {definition : Definition} (hfound : registry.definition? id = some definition)
    (routine : Routine) (service : Value) :
    ∃ later, keep c id definition.flags {} service world = (.ok service, later) ∧
      Resolving registry config c code chain (finished.insert id routine) later := by
  obtain ⟨frozen, services, handler, hat, hcached⟩ := h.container
  unfold Interpreter.keep
  cases hfactory : definition.flags.factory with
  | true =>
      refine ⟨world, rfl, h.code, frozen, services, handler, hat, fun name other hother => ?_⟩
      rw [hcached name other hother, Dict.contains_insert]
      constructor
      · exact fun hold => ⟨Or.inr hold.1, hold.2⟩
      · rintro ⟨rfl | hold, hflag⟩
        · obtain rfl : definition = other := by simpa [hfound] using hother
          simp [hfactory] at hflag
        · exact ⟨hold, hflag⟩
  | false =>
      refine ⟨_, bind_of_ok (changeContainer_apply hat _) _, h.code, frozen.add id,
        services.insert id service, handler, World.container?_put_self _ _ _ _ hat, ?_⟩
      intro name other hother
      have hcontains : (services.insert id service).contains name ↔
          name = id ∨ services.contains name := by
        unfold Table.contains
        rw [Table.get?_insert]
        split <;> simp [*]
      rw [hcontains, hcached name other hother, Dict.contains_insert]
      constructor
      · rintro (rfl | hold)
        · obtain rfl : definition = other := by simpa [hfound] using hother
          exact ⟨Or.inl rfl, hfactory⟩
        · exact ⟨Or.inr hold.1, hold.2⟩
      · rintro ⟨rfl | hold, hflag⟩
        · exact Or.inl rfl
        · exact Or.inr ⟨hold, hflag⟩

/-- What is asked of a registry, its user code and the errors that do not count. -/
structure Fair (exempt raises : Error → Prop) (registry : Registry) (config : Config)
    (code : Array Code) : Prop where
  unambiguous : Unambiguous registry config.maxDepth
  isolated : registry.Isolated raises code
  raised : ∀ error, raises error → exempt error
  faulty : ∀ id fault, Fault.AtRunTime fault → exempt (.invalidEntity id fault)

variable {exempt raises : Error → Prop}

theorem Fair.mirrors (fair : Fair exempt raises registry config code)
    {G : Dict Routine → World → Prop} (hG : Storeless G)
    (hcode : ∀ finished world, G finished world → world.store.code = code)
    (finish : String → Compiling Unit) {depth : Nat} (hdepth : 0 < depth) (frozen : NameSet) :
    Mirrors exempt raises G ⟨.ofRegistry registry config.maxDepth, finish⟩ (Call.run depth) c
      { registry with frozen } where
  storeless := hG
  raised := fair.raised
  faulty := fair.faulty
  isolated := fair.isolated.catalog
  catalog := rfl
  parameters := rfl
  candidates := fair.unambiguous.candidates
  invoke f args := Follows.invoke hG fair.raised hcode fair.isolated.code hdepth c f args

/-- Making a service tracks what finishing its definition does, if the body of both agree. -/
theorem make_tracks {G : Dict Routine → World → Prop} (hG : Storeless G) {act : Compiling Unit}
    {recur : Caller} {id : String} {definition : Definition} {frozen : NameSet}
    (hinside : ∀ finished world, G finished world →
      Resolving registry config c code (chain ++ [id]) finished world)
    (hfound : registry.definition? id = some definition) (routine : Routine)
    (hcreate : Follows exempt G act (create recur c { registry with frozen } id definition))
    (h : Resolving registry config c code chain finished world) {container : Container}
    (hat : world.container? c = some container) (hfresh : id ∉ chain)
    (hroom : chain.length < config.maxDepth)
    (hstart : G finished (world.put c (container.setLoading (chain ++ [id]))))
    {cached : Option Value} (hmade : definition.flags.factory = true ∨ cached = none) :
    Tracks exempt (do act; modify (·.insert id routine))
      (resolveDefinition recur c { registry with frozen } cached id definition {})
      (fun _ last later =>
        (∃ (before : Dict Routine) (inner : World), G before inner ∧
          last = before.insert id routine) ∧ Resolving registry config c code chain last later)
      finished world := by
  obtain ⟨frozen', services, handler, hat', -⟩ := h.container
  obtain rfl := Option.some.inj (hat.symm.trans hat')
  rw [resolveDefinition_made hmade]
  refine Tracks.entering hat (Chain.enter_eq_ok_iff.mpr ⟨hfresh, hroom, rfl⟩) ?_
  apply Tracks.bind (hcreate finished _ hstart)
  intro service before inner _ hbefore
  have hannounce : Follows exempt G (pure ()) (Run.announce c id definition.deprecation) :=
    Follows.announce hG (fun finished world hholds => by
      obtain ⟨frozen, services, handler, hat, -⟩ := (hinside finished world hholds).container
      exact ⟨_, hat⟩) id definition.deprecation
  rw [show (modify (·.insert id routine) : Compiling PUnit) =
    (pure () >>= fun _ => modify (·.insert id routine)) from (pure_bind _ _).symm]
  apply Tracks.bind (hannounce before inner hbefore)
  intro _ last later _ hlast
  obtain ⟨end_, hkeep, hresolving⟩ := (hinside last later hlast).keep hfound routine service
  unfold Tracks
  rw [hkeep]
  exact ⟨last.insert id routine, rfl, ⟨last, later, hlast, rfl⟩, hresolving.cut⟩

/-- A factory's service is made again, if what it is eager for can be resolved again. -/
theorem remake_tracks (fair : Fair exempt raises registry config code)
    (settled : (registry.plan config).Settled finished) {depth : Nat} (hdepth : 2 ≤ depth)
    {id : String} {routine : Routine} (hroutine : finished.get? id = some routine)
    {definition : Definition} (hfound : registry.definition? id = some definition)
    (hbelow : ∀ next, (registry.plan config).Edge id next → ∀ less, depth ≤ less + 2 →
      Follows exempt
        (fun before world => before = finished ∧
          Resolving registry config c code (chain ++ [id]) before world)
        (pure ()) (Call.run (less + 1) (.resolve c next {})))
    (h : Resolving registry config c code chain finished world) {container : Container}
    (hat : world.container? c = some container) (hfresh : id ∉ chain)
    (hroom : chain.length < config.maxDepth) (frozen : NameSet) {cached : Option Value}
    (hmade : definition.flags.factory = true ∨ cached = none) :
    Tracks exempt (pure ())
      (resolveDefinition (Call.run depth) c { registry with frozen } cached id definition {})
      (fun _ last later => last = finished ∧ Resolving registry config c code chain last later)
      finished world := by
  have hstoreless : Storeless fun before world => before = finished ∧
      Resolving registry config c code (chain ++ [id]) before world :=
    fun _ world store hholds hcode => ⟨hholds.1, Resolving.storeless _ _ _ hholds.2 hcode⟩
  have hcontains : finished.contains id := by
    rw [Dict.contains, hroutine]
    rfl
  have hmet := settled.met hcontains hfound
  have hanswers : ∀ demand ∈ definition.demands (registry.plan config).candidates,
      Answers exempt _ ⟨registry.plan config, fun _ => pure ()⟩ (Call.run depth) c
        { registry with frozen } id demand := fun demand hdemand =>
    answers fair.unambiguous hstoreless (fun _ _ hholds => hholds.2.reads) hdepth id demand frozen
      fun next heager => hbelow next ⟨definition, hfound, demand, hdemand, heager⟩
  have hpositive : 0 < depth := by omega
  have hcreate := create_follows (fair.mirrors hstoreless (fun _ _ hholds => hholds.2.code)
    (fun _ => pure ()) hpositive frozen) definition (fair.isolated.decorators hfound) hanswers
  rw [meetAll_of_settled fun demand hdemand => (hmet demand hdemand).imp fun _ => And.left]
    at hcreate
  have hmake := make_tracks hstoreless (fun _ _ hholds => hholds.2) hfound routine hcreate h hat
    hfresh hroom ⟨rfl, h.setLoading hat _⟩ hmade
  refine (Tracks.of_act_eq ?_ hmake).imp ?_
  · change Except.ok ((), finished.insert id routine) = Except.ok ((), finished)
    rw [Dict.insert_self hroutine]
  · rintro _ last later ⟨⟨before, inner, ⟨rfl, -⟩, rfl⟩, hlater⟩
    exact ⟨Dict.insert_self hroutine, hlater⟩

/-- A chain of distinct ids from which the depth that is left still leads to every other id, at two
calls for each. -/
structure Ample (ids chain : List String) (depth : Nat) : Prop where
  nodup : chain.Nodup
  subset : chain ⊆ ids
  room : 2 * ids.length ≤ 2 * chain.length + depth

namespace Ample

variable {ids : List String} {depth : Nat} {id : String}

theorem length_lt (ample : Ample ids chain depth) (hid : id ∈ ids) (hfresh : id ∉ chain) :
    chain.length < ids.length :=
  length_lt_of_fresh ample.nodup ample.subset hfresh hid

theorem two_le (ample : Ample ids chain depth) (hid : id ∈ ids) (hfresh : id ∉ chain) :
    2 ≤ depth := by
  have hlength := ample.length_lt hid hfresh
  have hroom := ample.room
  omega

theorem snoc (ample : Ample ids chain depth) (hid : id ∈ ids) (hfresh : id ∉ chain) {less : Nat}
    (hless : depth ≤ less + 2) : Ample ids (chain ++ [id]) less where
  nodup := nodup_concat ample.nodup hfresh
  subset := concat_subset ample.subset hid
  room := by
    have hroom := ample.room
    rw [List.length_append, List.length_singleton]
    omega

end Ample

/-- **Again.** What is finished can be resolved from any chain that it does not lead back to, and
nothing is finished anew. -/
theorem replay (fair : Fair exempt raises registry config code)
    (hdeep : (registry.plan config).ids.length ≤ config.maxDepth)
    (settled : (registry.plan config).Settled finished) {id : String}
    (hacc : Acc (flip (registry.plan config).Edge) id) (chain : List String)
    (depth : Nat) (ample : Ample (registry.plan config).ids chain depth)
    (hapart : ∀ name, Relation.ReflTransGen (registry.plan config).Edge id name →
      name ∉ chain)
    (hcontains : finished.contains id) :
    Follows exempt
      (fun before world => before = finished ∧
        Resolving registry config c code chain before world)
      (pure ()) (Call.run (depth + 1) (.resolve c id {})) := by
  induction hacc generalizing chain depth with
  | intro id hacc ih =>
      rintro before world ⟨hsame, h⟩
      obtain rfl := hsame.symm
      obtain ⟨routine, hroutine⟩ := Option.isSome_iff_exists.mp hcontains
      obtain ⟨definition, hfound, -⟩ := settled.linked hroutine
      have hid : id ∈ (registry.plan config).ids :=
        Plan.mem_ids_of_definition registry config.maxDepth hfound
      have hfree : registry.resolveAlias id = id := AliasTable.resolve_of_free
        (fair.unambiguous.free id ((Plan.mem_ids_iff registry config.maxDepth).mp hid))
      have hfresh : id ∉ chain := hapart id .refl
      obtain ⟨frozen, services, handler, hat, hcached⟩ := h.container
      apply Tracks.of_run_eq (resolve_defined hat rfl hfree hfound depth {})
      cases hfactory : definition.flags.factory with
      | false =>
          obtain ⟨service, hservice⟩ := Option.isSome_iff_exists.mp
            ((hcached id definition hfound).mpr ⟨hcontains, hfactory⟩)
          rw [hservice, resolveDefinition_cached hfactory]
          exact Tracks.pure ⟨rfl, h⟩
      | true =>
          refine remake_tracks fair settled (ample.two_le hid hfresh) hroutine hfound ?_ h hat hfresh
            ((ample.length_lt hid hfresh).trans_le hdeep) frozen (.inl hfactory)
          intro next hedge less hless
          exact ih next hedge (chain ++ [id]) less (ample.snoc hid hfresh hless)
            (Plan.apart_of_edge (Acc.intro id hacc) hedge hapart)
            (settled.reach hcontains (.single hedge))

/-- What holds while ids are resolved and finished side by side. -/
structure Pacing (registry : Registry) (config : Config) (c : ContainerRef) (code : Array Code)
    (chain : List String) (finished : Dict Routine) (world : World) : Prop where
  resolving : Resolving registry config c code chain finished world
  settled : (registry.plan config).Settled finished
  apart : ∀ name ∈ chain, ¬ finished.contains name

theorem Pacing.storeless : Storeless (Pacing registry config c code chain) :=
  fun _ _ _ h hcode => ⟨Resolving.storeless _ _ _ h.resolving hcode, h.settled, h.apart⟩

/-- The chain may grow by an id that is not finished. -/
theorem Pacing.setLoading (h : Pacing registry config c code chain finished world)
    {container : Container} (hat : world.container? c = some container) {id : String}
    (hnew : ¬ finished.contains id) :
    Pacing registry config c code (chain ++ [id]) finished
      (world.put c (container.setLoading (chain ++ [id]))) := by
  refine ⟨h.resolving.setLoading hat _, h.settled, fun name hname hdone => ?_⟩
  rcases List.mem_append.mp hname with hchain | hself
  · exact h.apart name hchain hdone
  · exact hnew (List.mem_singleton.mp hself ▸ hdone)

/-- A definition is made as it is finished, if that holds of what it is eager for. -/
theorem visit_tracks (fair : Fair exempt raises registry config code) {calls depth : Nat}
    (hdepth : 2 ≤ depth) {id : String} {definition : Definition}
    (hfound : registry.definition? id = some definition)
    (hbelow : ∀ next, (registry.plan config).Edge id next → ∀ less, depth ≤ less + 2 →
      Follows exempt (Pacing registry config c code (chain ++ [id]))
        (finish (registry.plan config) calls (chain ++ [id]) next)
        (Call.run (less + 1) (.resolve c next {})))
    (h : Pacing registry config c code chain finished world) {container : Container}
    (hat : world.container? c = some container) (hnew : ¬ finished.contains id)
    (hfresh : id ∉ chain) (hroom : chain.length < config.maxDepth) (frozen : NameSet)
    {cached : Option Value} (hmade : definition.flags.factory = true ∨ cached = none) :
    Tracks exempt (do
        within id (meetAll ⟨registry.plan config,
          finish (registry.plan config) calls (chain ++ [id])⟩ id
          (definition.demands (registry.plan config).candidates))
        modify (·.insert id (definition.linked (registry.plan config) id)))
      (resolveDefinition (Call.run depth) c { registry with frozen } cached id definition {})
      (fun _ last later => Resolving registry config c code chain last later) finished world := by
  have hnext : ∀ demand ∈ definition.demands (registry.plan config).candidates,
      Answers exempt (Pacing registry config c code (chain ++ [id]))
        ⟨registry.plan config, finish (registry.plan config) calls (chain ++ [id])⟩
        (Call.run depth) c { registry with frozen } id demand := fun demand hdemand =>
    answers fair.unambiguous Pacing.storeless (fun _ _ hholds => hholds.resolving.reads)
      hdepth id demand frozen fun next heager =>
        hbelow next ⟨definition, hfound, demand, hdemand, heager⟩
  have hpositive : 0 < depth := by omega
  have hcreate := create_follows (fair.mirrors Pacing.storeless
    (fun _ _ hholds => hholds.resolving.code) (finish (registry.plan config) calls (chain ++ [id]))
    hpositive frozen) definition (fair.isolated.decorators hfound) hnext
  have hmake := make_tracks Pacing.storeless (fun _ _ hholds => hholds.resolving) hfound
    (definition.linked (registry.plan config) id) (.within id hcreate) h.resolving hat hfresh hroom
    (h.setLoading hat hnew) hmade
  exact hmake.imp fun _ _ _ hlater => hlater.2

/-- **Side by side.** Resolving an id tracks finishing it. -/
theorem walk (fair : Fair exempt raises registry config code)
    (hdeep : (registry.plan config).ids.length ≤ config.maxDepth) (calls : Nat)
    (chain : List String) (depth : Nat)
    (hcalls : (registry.plan config).ids.length < calls + chain.length)
    (ample : Ample (registry.plan config).ids chain depth) {id : String}
    (hcontains : registry.contains id)
    (hpath : (chain ++ [id]).IsChain (registry.plan config).Edge) :
    Follows exempt (Pacing registry config c code chain) (finish (registry.plan config) calls chain id)
      (Call.run (depth + 1) (.resolve c id {})) := by
  induction calls generalizing chain depth id with
  | zero =>
      have hlength := (List.subperm_of_subset ample.nodup ample.subset).length_le
      omega
  | succ calls ih =>
      intro finished world h
      have hids : ∀ id definition, registry.definition? id = some definition →
          id ∈ (registry.plan config).ids := fun _ _ hfound =>
        Plan.mem_ids_of_definition registry config.maxDepth hfound
      have hends := finish_ends hids (calls + 1) chain hcalls ample.nodup ample.subset id finished
        h.settled hpath
      suffices htracks : Tracks exempt (finish (registry.plan config) (calls + 1) chain id)
          (Call.run (depth + 1) (.resolve c id {}))
          (fun _ last later => Resolving registry config c code chain last later) finished world by
        refine (htracks.with_ends hends).imp ?_
        rintro _ last later ⟨⟨hadvance, -⟩, hresolving⟩
        exact ⟨hresolving, hadvance.settled, fun name hname hlast =>
          h.apart name hname (hadvance.apart name hname hlast)⟩
      by_cases hdone : finished.contains id
      · refine Tracks.of_act_eq (finish_done hdone).symm ?_
        refine (replay fair hdeep h.settled (h.settled.grounded hdone) chain depth ample ?_ hdone
          finished world ⟨rfl, h.resolving⟩).imp fun _ _ _ hlater => hlater.2
        exact fun name hreach hname => h.apart name hname (h.settled.reach hdone hreach)
      · obtain ⟨definition, hfound⟩ : ∃ definition, registry.definition? id = some definition :=
          Option.isSome_iff_exists.mp hcontains
        have hplan : (registry.plan config).registry.definition? id = some definition := hfound
        have hid := hids id definition hfound
        have hfree : registry.resolveAlias id = id :=
          AliasTable.resolve_of_free (fair.unambiguous.free id hcontains)
        obtain ⟨frozen, services, handler, hat, hcached⟩ := h.resolving.container
        apply Tracks.of_run_eq (resolve_defined hat rfl hfree hfound depth {})
        have hmade : definition.flags.factory = true ∨ services.get? id = none := by
          cases hfactory : definition.flags.factory with
          | true => exact Or.inl rfl
          | false =>
              refine Or.inr (Option.not_isSome_iff_eq_none.mp fun hheld => hdone ?_)
              exact ((hcached id definition hfound).mp hheld).1
        cases henter : Chain.enter config.maxDepth chain id with
        | error error =>
            have hrefused : finish (registry.plan config) (calls + 1) chain id finished =
                (lift (.error error) : Compiling Unit) finished :=
              finish_refused hdone hplan henter
            apply Tracks.of_act_eq hrefused.symm
            rw [resolveDefinition_made hmade]
            apply Tracks.of_run_eq (entering_refused hat henter _)
            exact Tracks.fail (rootCause_of_enter henter)
        | ok longer =>
            obtain ⟨hfresh, hroom, rfl⟩ := Chain.enter_eq_ok_iff.mp henter
            have hbelow : ∀ next, (registry.plan config).Edge id next → ∀ less, depth ≤ less + 2 →
                Follows exempt (Pacing registry config c code (chain ++ [id]))
                  (finish (registry.plan config) calls (chain ++ [id]) next)
                  (Call.run (less + 1) (.resolve c next {})) := by
              intro next hedge less hless
              have hlonger := hpath.append (List.isChain_singleton next) (by simpa using hedge)
              refine ih (chain ++ [id]) less ?_ (ample.snoc hid hfresh hless) ?_ hlonger
              · rw [List.length_append, List.length_singleton]
                omega
              · obtain ⟨_, _, _, _, heager⟩ := hedge
                exact Plan.contains_of_eager heager
            have hnew : finish (registry.plan config) (calls + 1) chain id finished = _ :=
              finish_new hdone hid hplan henter
            apply Tracks.of_act_eq hnew.symm
            exact visit_tracks fair (ample.two_le hid hfresh) hfound hbelow h hat hdone hfresh hroom
              frozen hmade

theorem pacing_fresh {handler : NoticeHandler}
    (hat : world.container? c = some (.interpreting (.ofRegistry registry config handler))) :
    Pacing registry config c world.store.code [] ∅ world where
  resolving := ⟨rfl, registry.frozen, ∅, handler, hat, fun id definition hfound => by
    simp [Table.contains, Table.get?, Dict.contains, Dict.get?, EmptyCollection.emptyCollection]⟩
  settled := Plan.settled_empty
  apart := by simp

end Walk

end Interpreter

/-- Asks for one reference after the other, up to the first that fails. -/
def Run.resolveEach (depth : Nat) (c : ContainerRef) : List String → Run (Except Error Unit)
  | [] => return .ok ()
  | id :: rest => do
      match ← Request.perform (Call.run depth) (.reference c id) with
      | .ok _ => resolveEach depth c rest
      | .error error => return .error error

namespace Interpreter

variable {exempt raises : Error → Prop} {registry : Registry} {config : Config} {c : ContainerRef}
  {code : Array Code}

theorem resolveEach_agrees (fair : Fair exempt raises registry config code)
    (hdeep : (registry.plan config).ids.length ≤ config.maxDepth) (calls depth : Nat)
    (hcalls : (registry.plan config).ids.length < calls)
    (hdepth : 2 * (registry.plan config).ids.length ≤ depth) (names : List String)
    (hnames : ∀ name ∈ names, registry.contains name) (finished : Dict Routine) (world : World)
    (h : Pacing registry config c code [] finished world) :
    ∃ verdict later, Run.resolveEach (depth + 1) c names world = (.ok verdict, later) ∧
      match verdict with
      | .ok () => ∃ last, names.forM (finish (registry.plan config) calls []) finished = .ok ((), last)
      | .error error => exempt error ∨ ∃ found,
          names.forM (finish (registry.plan config) calls []) finished = .error found ∧
            found.rootCause = error := by
  induction names generalizing finished world with
  | nil => exact ⟨.ok (), world, rfl, finished, rfl⟩
  | cons id rest ih =>
      have ample : Ample (registry.plan config).ids [] depth :=
        ⟨List.nodup_nil, List.nil_subset _, by simpa using hdepth⟩
      have hwalk := walk fair hdeep calls [] depth (by simpa using hcalls) ample
        (hnames id List.mem_cons_self) (List.isChain_singleton id) finished world h
      have hcons : (id :: rest).forM (finish (registry.plan config) calls []) finished =
          (finish (registry.plan config) calls [] id finished).bind fun out =>
            rest.forM (finish (registry.plan config) calls []) out.2 := rfl
      unfold Run.Tracks at hwalk
      split at hwalk
      · next service later hrun =>
          obtain ⟨last, hfinish, hlast⟩ := hwalk
          have hask := Run.outcome_of_ok hrun
          obtain ⟨verdict, end_, hrest, hverdict⟩ := ih
            (fun name hname => hnames name (List.mem_cons_of_mem _ hname)) last later hlast
          refine ⟨verdict, end_, (Run.bind_of_ok hask _).trans hrest, ?_⟩
          rw [hcons, hfinish]
          exact hverdict
      · next error later hrun =>
          have hask := Run.outcome_of_error hrun
          refine ⟨.error error, later, Run.bind_of_ok hask _, hwalk.imp_right ?_⟩
          rintro ⟨found, hfinish, hcause⟩
          refine ⟨found, ?_, hcause⟩
          rw [hcons, hfinish]
          rfl
      · exact hwalk.elim

end Interpreter

/-- **Verdicts.** A fresh interpreter that is asked for every id in turn fails first in what compiling
fails in, unless that is an entity that no value can be made of. -/
theorem Registry.verdicts_agree {registry : Registry} (reachable : registry.Reachable)
    (config : Config) (handler : NoticeHandler)
    (free : ∀ id, registry.contains id → registry.aliases.target? id = none)
    (ascending : ∀ typeName, (registry.candidates typeName).Pairwise (· < ·))
    (deep : registry.definitions.size ≤ config.maxDepth) (c : ContainerRef) (world : World)
    (hat : world.container? c = some (.interpreting (.ofRegistry registry config handler)))
    (isolated : registry.Isolated (fun _ => False) world.store.code) (depth : Nat)
    (hdepth : 2 * registry.definitions.size < depth) :
    ∃ verdict later, Run.resolveEach depth c registry.sortedIds world = (.ok verdict, later) ∧
      match verdict with
      | .ok () => ∃ program, registry.compile config = .ok program
      | .error error => (∃ id fault, error = .invalidEntity id fault) ∨
          ∃ found, registry.compile config = .error found ∧ found.rootCause = error := by
  have hsize : (registry.plan config).ids.length = registry.definitions.size :=
    Plan.length_ids registry config.maxDepth
  obtain ⟨less, rfl⟩ : ∃ less, depth = less + 1 := ⟨depth - 1, by omega⟩
  have hfair : Interpreter.Fair (fun error => ∃ id fault, error = .invalidEntity id fault)
      (fun _ => False) registry config world.store.code :=
    ⟨.ofReachable reachable free ascending, isolated, fun _ h => h.elim, fun id fault _ => ⟨id, fault, rfl⟩⟩
  obtain ⟨verdict, later, hresolve, hverdict⟩ := Interpreter.resolveEach_agrees hfair
    (by omega) ((registry.plan config).ids.length + 1) less (by omega) (by omega) registry.sortedIds
    (fun name hname => (Plan.mem_ids_iff registry config.maxDepth).mp hname) ∅ world
    (Interpreter.pacing_fresh hat)
  refine ⟨verdict, later, hresolve, ?_⟩
  cases verdict with
  | ok _ =>
      obtain ⟨last, hlast⟩ := hverdict
      exact ⟨_, Registry.compile_of_finishAll hlast⟩
  | error error =>
      apply hverdict.imp_right
      rintro ⟨found, hfound, hcause⟩
      exact ⟨found, Registry.compile_of_finishAll_error hfound, hcause⟩

theorem Registry.verdicts_agree_callLoop :
    ∃ verdict later, Run.resolveEach 5 ⟨0⟩ (callLoop (.reference "a")).sortedIds
        { containers := #[some (.interpreting (.ofRegistry (callLoop (.reference "a")) {} .silent))] } =
          (.ok verdict, later) ∧
      match verdict with
      | .ok () => ∃ program, (callLoop (.reference "a")).compile {} = .ok program
      | .error error => (∃ id fault, error = .invalidEntity id fault) ∨
          ∃ found, (callLoop (.reference "a")).compile {} = .error found ∧ found.rootCause = error := by
  refine verdicts_agree (callLoop_reachable _) {} .silent ?_ ?_ ?_ ⟨0⟩ _ rfl (callLoop_isolated _ _) 5 ?_
  · intro id _
    rfl
  · intro typeName
    exact List.Pairwise.nil
  · decide
  · decide

end Wiring
