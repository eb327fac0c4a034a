import Wiring.Proofs.Coupling
import Wiring.Proofs.Growth
import Wiring.Proofs.Rerunning
import Wiring.Proofs.Sessions

/-!
# Services are shared

Once a service is cached, whatever leads to its definition gives that service and runs nothing. A run
does what it would do if it were answered from what was there when it began, at every depth of
nesting: the two are coupled, and between the beginning and the end of each call the world grows.
-/

namespace Wiring

open Run

/-! ### What is there already -/

def Call.Resets : Call → Prop
  | .reset _ => True
  | _ => False

namespace Container

/-- What a name gives at once. -/
def given? (isPublic : Bool) (name : String) (container : Container) : Option Value :=
  match container.lookup isPublic name with
  | .definition id => container.cached? id
  | _ => none

def routineId? (position : Nat) : Container → Option String
  | .interpreting _ => none
  | .running machine => (machine.program.routines[position]?).map Routine.id

end Container

namespace World

def cached? (world : World) (c : ContainerRef) (id : String) : Option Value :=
  (world.container? c).bind fun container => container.cached? id

/-- What a call gives at once: a service that its name leads to and that is cached, or the value that a
handle has. -/
def known (world : World) : Call → Option Value
  | .get c name _ => (world.container? c).bind fun container => container.given? true name
  | .resolve c name _ => (world.container? c).bind fun container => container.given? false name
  | .routine c position => (world.container? c).bind fun container =>
      (container.routineId? position).bind fun id => container.cached? id
  | .force l => (world.store.cell l).value
  | .invoke .. => none
  | .reset _ => none

end World

open Classical in
/-- Runs the call, but answers every call that it leads to from what was there in `base`, if it can
be answered so. In a world that lost anything of that it would give up. -/
noncomputable def Call.runFrom (base : World) : Nat → Caller
  | 0, _ => throw .unfinished
  | depth + 1, call => fun world =>
      if base.Retains world then
        match base.known call with
        | some service => (.ok service, world)
        | none => step (runFrom base depth) call world
      else (.error .unfinished, world)

namespace Container

variable {a b : Container}

theorem Retains.given? (h : a.Retains b) {isPublic : Bool} {name : String} {service : Value}
    (hgiven : a.given? isPublic name = some service) : b.given? isPublic name = some service := by
  unfold Container.given? at hgiven ⊢
  rw [lookup_of_bare h.bare]
  cases hlookup : a.lookup isPublic name with
  | definition id =>
      rw [hlookup] at hgiven
      exact h.kept hgiven
  | withheld =>
      rw [hlookup] at hgiven
      cases hgiven
  | services typeName ids =>
      rw [hlookup] at hgiven
      cases hgiven

theorem routineId?_of_bare (h : b.bare = a.bare) (position : Nat) :
    b.routineId? position = a.routineId? position :=
  eq_of_bare (fun container => by cases container <;> rfl) h

end Container

theorem World.Retains.known {world later : World} (h : world.Retains later) {call : Call}
    {service : Value} (hknown : world.known call = some service) :
    later.known call = some service := by
  cases call with
  | get c name options =>
      obtain ⟨a, hat, hgiven⟩ := Option.bind_eq_some_iff.mp hknown
      obtain ⟨b, hb, hretains⟩ := h.container hat
      exact Option.bind_eq_some_iff.mpr ⟨b, hb, hretains.given? hgiven⟩
  | resolve c name options =>
      obtain ⟨a, hat, hgiven⟩ := Option.bind_eq_some_iff.mp hknown
      obtain ⟨b, hb, hretains⟩ := h.container hat
      exact Option.bind_eq_some_iff.mpr ⟨b, hb, hretains.given? hgiven⟩
  | routine c position =>
      obtain ⟨a, hat, hgiven⟩ := Option.bind_eq_some_iff.mp hknown
      obtain ⟨id, hid, hcached⟩ := Option.bind_eq_some_iff.mp hgiven
      obtain ⟨b, hb, hretains⟩ := h.container hat
      refine Option.bind_eq_some_iff.mpr ⟨b, hb, Option.bind_eq_some_iff.mpr ⟨id, ?_, ?_⟩⟩
      · rwa [Container.routineId?_of_bare hretains.bare]
      · exact hretains.kept hcached
  | force l => exact h.store.kept hknown
  | invoke c f args => cases hknown
  | reset c => cases hknown

/-! ### Worlds that nobody resets -/

/-- Its containers are of registries, and no user code in it resets. -/
structure World.Calm (world : World) : Prop where
  hosted : ∀ {c : ContainerRef} {container : Container}, world.container? c = some container →
    ∃ registry config, Registry.Hosts registry config container ∧
      registry.ResetFree world.store.code
  code : ∀ body ∈ world.store.code, ∀ c args, (body c args).ResetFree

theorem World.Calm.later {world later : World} (calm : world.Calm) (h : world.Retains later) :
    later.Calm where
  hosted {c b} hb := by
    have hrel := h.containers c
    rw [hb] at hrel
    generalize hat : world.container? c = x at hrel
    cases hrel with
    | some hretains =>
        obtain ⟨registry, config, hosts, hfree⟩ := calm.hosted hat
        refine ⟨registry, config, hosts.of_bare hretains.bare, ?_⟩
        rw [h.store.code]
        exact hfree
  code := by
    rw [h.store.code]
    exact calm.code

theorem Machine.runAt_eq {machine : Machine} {registry : Registry} {config : Config}
    (compiled : registry.Compiled config machine.program) (recur : Caller) (c : ContainerRef)
    (position : Nat) :
    runAt recur c machine position =
      match (Container.running machine).routineId? position with
      | some id => (Container.running machine).obtain recur c id {}
      | none => Run.fail (.notFound "") := by
  rw [runAt, Container.routineId?]
  cases hroutine : machine.program.routines[position]? with
  | none => rfl
  | some routine =>
      have hfound := compiled.routine?_of_mem (List.mem_of_getElem? hroutine)
      rw [Option.map_some]
      dsimp only
      rw [Container.obtain, hfound]

/-- A routine is run for the service of its id. -/
theorem Call.step_routine {registry : Registry} {config : Config} {world : World} {c : ContainerRef}
    {container : Container} (hat : world.container? c = some container)
    (hosts : registry.Hosts config container) (recur : Caller) (position : Nat) :
    step recur (.routine c position) world =
      (match container.routineId? position with
        | some id => container.obtain recur c id {}
        | none => Run.fail (.notFound "")) world := by
  rw [step, bind_of_ok (container_apply hat)]
  rcases hosts.cases_kind with ⟨_, _, rfl, -⟩ | ⟨machine, rfl, compiled, -⟩
  · rfl
  · exact congrFun (Machine.runAt_eq compiled recur c position) world

/-- **What is known** is given at once. -/
theorem Call.step_known {world : World} (calm : world.Calm) {call : Call} {service : Value}
    (hknown : world.known call = some service) (recur : Caller) :
    step recur call world = (.ok service, world) := by
  have hlocate : ∀ isPublic c name options container, world.container? c = some container →
      container.given? isPublic name = some service →
        step recur (locate isPublic c name options) world = (.ok service, world) := by
    intro isPublic c name options container hat hgiven
    rw [step_locate hat]
    unfold Container.given? at hgiven
    cases hlookup : container.lookup isPublic name with
    | definition id =>
        rw [hlookup] at hgiven
        rw [Lookup.run, Container.obtain_cached hgiven]
        rfl
    | withheld =>
        rw [hlookup] at hgiven
        cases hgiven
    | services typeName ids =>
        rw [hlookup] at hgiven
        cases hgiven
  cases call with
  | get c name options =>
      obtain ⟨container, hat, hgiven⟩ := Option.bind_eq_some_iff.mp hknown
      exact hlocate true c name options container hat hgiven
  | resolve c name options =>
      obtain ⟨container, hat, hgiven⟩ := Option.bind_eq_some_iff.mp hknown
      exact hlocate false c name options container hat hgiven
  | routine c position =>
      obtain ⟨container, hat, hgiven⟩ := Option.bind_eq_some_iff.mp hknown
      obtain ⟨id, hid, hcached⟩ := Option.bind_eq_some_iff.mp hgiven
      obtain ⟨registry, config, hosts, -⟩ := calm.hosted hat
      rw [step_routine hat hosts, hid]
      dsimp only
      rw [Container.obtain_cached hcached]
      rfl
  | force l =>
      have hheld : (world.store.cell l).value = some service := hknown
      rw [step, forceHandle, Run.world, bind_of_ok (get_apply world), hheld]
      rfl
  | invoke c f args => cases hknown
  | reset c => cases hknown

/-! ### Coupled runs -/

/-- Both runs go through the same worlds, and these grow. -/
def Coupling.sharing (base : World) : Coupling where
  Index := World
  Leads := World.Grows
  refl := .refl
  trans := .trans
  refs _ := .same
  refs_mono _ := le_refl _
  Worlds k world other := world = k ∧ other = k ∧ base.Retains k
  strict := True
  unfinished := True

section Sharing

variable {base k : World} {α β : Type} {recur recur' : Caller}

/-- From `k` the two runs do the same, and the world grows. -/
def Run.Agree (base k : World) (run other : Run α) : Prop :=
  (Coupling.sharing base).Couples k (fun _ a b => a = b) run other

/-- Whatever is called, resets apart, the two callers do the same. -/
def Caller.Shares (base : World) (recur recur' : Caller) : Prop :=
  ∀ call : Call, ¬ call.Resets → ∀ k, Agree base k (recur call) (recur' call)

namespace Run

theorem Agree.same {run other : Run Value} (h : Agree base k run other) :
    (Coupling.sharing base).Couples k (Coupling.sharing base).Same run other :=
  h.imp fun _ a _ _ hsame => hsame ▸ Value.alike_same a

theorem Agree.of_same {run other : Run Value}
    (h : (Coupling.sharing base).Couples k (Coupling.sharing base).Same run other) :
    Agree base k run other := h.imp fun _ _ _ _ hsame => Value.Alike.eq hsame

theorem Agree.bind {run other : Run α} {next next' : α → Run β} (h : Agree base k run other)
    (hnext : ∀ j a, Agree base j (next a) (next' a)) :
    Agree base k (run >>= next) (other >>= next') :=
  Coupling.Couples.bind h fun j a _ _ hsame => hsame ▸ hnext j a

theorem Agree.of_eq {run other : Run α}
    (h : base.Retains k → run k = other k ∧ k.Grows (run k).2) : Agree base k run other := by
  intro world world' hworlds
  obtain ⟨hleft, hright, hretains⟩ := hworlds
  obtain ⟨hsame, hgrows⟩ := h hretains
  have hlater := hretains.trans hgrows.retains
  rw [hleft, hright, ← hsame]
  cases hrun : run k with
  | mk result later =>
      rw [hrun] at hgrows hlater
      cases result with
      | ok a => exact .ok hgrows ⟨rfl, rfl, hlater⟩ rfl
      | error halt => exact .error hgrows ⟨rfl, rfl, hlater⟩ fun _ => trivial

/-- Runs that agree are the same run, and the world grows. -/
theorem Agree.eq {run other : Run α} (h : Agree base k run other) (hretains : base.Retains k) :
    run k = other k ∧ k.Grows (run k).2 := by
  have hends := h k k ⟨rfl, rfl, hretains⟩
  generalize run k = answer, other k = answer' at hends
  cases hends with
  | ok hleads hworlds hsame =>
      obtain ⟨rfl, rfl, -⟩ := hworlds
      rw [hsame]
      exact ⟨rfl, hleads⟩
  | error hleads hworlds _ =>
      obtain ⟨rfl, rfl, -⟩ := hworlds
      exact ⟨rfl, hleads⟩
  | waived _ hlax => exact absurd trivial hlax

/-- Only what the runs do from this world counts. -/
theorem Agree.congr {run other run' other' : Run α} (h : Agree base k run' other')
    (hrun : run k = run' k) (hother : other k = other' k) : Agree base k run other :=
  .of_eq fun hretains => by
    rw [hrun, hother]
    exact h.eq hretains

theorem Agree.of_grows {act : Run α} (h : Grows act) : Agree base k act act :=
  .of_eq fun _ => ⟨rfl, h k⟩

theorem Agree.outcome {run other : Run α} (h : Agree base k run other) :
    Agree base k (Run.outcome run) (Run.outcome other) := by
  intro world world' hworlds
  have hends := h world world' hworlds
  cases hrun : run world with
  | mk result later =>
      cases hother : other world' with
      | mk result' later' =>
          rw [hrun, hother] at hends
          cases hends with
          | ok hleads hlater hsame =>
              rw [outcome_of_ok hrun, outcome_of_ok hother]
              exact .ok hleads hlater (congrArg Except.ok hsame)
          | @error _ halt _ _ hleads hlater hhalt =>
              cases halt with
              | error error =>
                  rw [outcome_of_error hrun, outcome_of_error hother]
                  exact .ok hleads hlater rfl
              | unfinished =>
                  rw [outcome_of_unfinished hrun, outcome_of_unfinished hother]
                  exact .error hleads hlater hhalt
          | waived _ hlax => exact absurd trivial hlax

/-- What is done may depend on the container. -/
theorem Agree.container {c : ContainerRef} {next next' : Container → Run β}
    (h : ∀ container, k.container? c = some container →
      Agree base k (next container) (next' container)) :
    Agree base k (Run.container c >>= next) (Run.container c >>= next') := by
  cases hat : k.container? c with
  | none =>
      exact Agree.congr (.fail _) (bind_of_error (container_absent hat) _)
        (bind_of_error (container_absent hat) _)
  | some container =>
      exact (h container hat).congr (bind_of_ok (container_apply hat) _)
        (bind_of_ok (container_apply hat) _)

theorem Agree.ofExcept (result : Except Error α) :
    Agree base k (ofExcept result) (ofExcept result) := by
  cases result with
  | ok a => exact .pure rfl
  | error error => exact .fail error

theorem Agree.mapM {visit visit' : α → Run β} {items : List α}
    (h : ∀ item ∈ items, ∀ j, Agree base j (visit item) (visit' item)) :
    Agree base k (items.mapM visit) (items.mapM visit') := by
  have hall : (Coupling.sharing base).Couples k (fun _ => List.Forall₂ fun a b => a = b)
      (items.mapM visit) (items.mapM visit') :=
    .mapM (fun _ _ _ _ _ hsame => hsame) (fun item hitem j _ => h item hitem j)
      ((Coupling.sharing base).refl k)
  exact hall.imp fun _ _ _ _ hsame => List.forall₂_eq_eq_eq ▸ hsame

end Run

theorem Request.perform_shares (hcall : Caller.Shares base recur recur') (request : Request)
    (hquiet : ¬ request.Resets) :
    Agree base k (request.perform recur) (request.perform recur') := by
  cases request with
  | note note =>
      exact .of_grows (grows_changeStore (f := (·.record (.noted note))) fun _ => .of_cells rfl rfl)
  | allocate className =>
      exact .of_grows (grows_onStore (f := (·.allocate className)) fun _ => .of_cells rfl rfl)
  | properties o => exact .of_grows (grows_read fun world => world.store.properties o)
  | setProperty o name value =>
      exact .of_grows (grows_changeStore (f := (·.setProperty o name value)) fun _ =>
        .of_cells rfl rfl)
  | count key => exact .of_grows (grows_onStore (f := (·.count key)) fun _ => .of_cells rfl rfl)
  | get c id options => exact (hcall (.get c id options) (fun h => h) k).outcome
  | reference c id => exact (hcall (.resolve c id {}) (fun h => h) k).outcome
  | has c id => exact .of_grows (grows_read _)
  | keys c => exact .of_grows (grows_read _)
  | parameter c name => exact Agree.outcome (.container fun container _ => .ofExcept _)
  | tagged c tag =>
      refine Agree.outcome (.container fun container _ => .mapM fun entry _ j => ?_)
      exact (hcall (.resolve c entry.1 {}) (fun h => h) j).bind fun _ _ => .pure rfl
  | initialized c id => exact .of_grows (grows_read _)
  | reset c => exact absurd trivial hquiet
  | invoke c f args => exact (hcall (.invoke c f args) (fun h => h) k).outcome
  | force l => exact (hcall (.force l) (fun h => h) k).outcome

/-- **User code** that does not reset does the same with either caller. -/
theorem Behaviour.run_shares (hcall : Caller.Shares base recur recur') (b : Behaviour α)
    (hfree : b.ResetFree) : Agree base k (b.run recur) (b.run recur') := by
  induction b generalizing k with
  | done result => exact .ofExcept result
  | ask request next ih =>
      refine (request.perform_shares hcall hfree.1).bind fun j reply => ?_
      exact ih reply (hfree.2 reply)

theorem Registry.reading_catalog (registry : Registry) (config : Config) (c : ContainerRef)
    (container : Container) : (registry.reading config c container).catalog = registry.catalog := by
  cases container <;> rfl

theorem Reading.supports (hcall : Caller.Shares base recur recur') {reading : Reading}
    (hfree : reading.catalog.ResetFree) :
    (Coupling.sharing base).Supports k recur recur' reading where
  invoke {j f args args'} _ hargs := by
    obtain rfl : args = args' := CallArgs.Alike.eq hargs
    exact (hcall (.invoke reading.home f args) (fun h => h) j).same
  instantiate {j id className args args'} _ hargs := by
    obtain rfl : args = args' := CallArgs.Alike.eq hargs
    exact (Behaviour.run_shares hcall _ (hfree.instantiate id className args)).same
  callMethod {j id o o' method args args'} _ hservice hargs := by
    obtain rfl : args = args' := CallArgs.Alike.eq hargs
    obtain rfl : o = o' := Value.object.inj (Value.Alike.eq hservice)
    exact (Behaviour.run_shares hcall _ (hfree.callMethod id o method args)).same
  handle {j target} _ := by
    have hagree : Agree base j (Run.onStore (·.addHandle target (some reading.home)))
        (Run.onStore (·.addHandle target (some reading.home))) :=
      .of_grows (grows_onStore fun store => store.retains_addHandle target _)
    exact Coupling.Couples.imp hagree fun _ l _ _ hsame => hsame ▸ Value.alike_same (.handle l)
  parameter {name v} _ := Value.alike_same v

/-- **Making a service** is the same with either caller. -/
theorem Container.make_shares (hcall : Caller.Shares base recur recur') {registry : Registry}
    {config : Config} {container : Container} (hosts : registry.Hosts config container)
    {code : Array Code} (hfree : registry.ResetFree code) {id : String} {definition : Definition}
    (hfound : registry.definition? id = some definition) (c : ContainerRef)  :
    Agree base k (container.make recur c id) (container.make recur' c id) := by
  rw [hosts.make_eq hfound, hosts.make_eq hfound]
  have hcatalog : (registry.reading config c container).catalog.ResetFree := by
    rw [registry.reading_catalog]
    exact hfree.catalog
  have supports := Reading.supports (k := k) hcall hcatalog
  have hfollow : ∀ name, ¬ ((registry.reading config c container).follow name).Resets := by
    intro name
    cases container <;> exact fun h => h
  have hdemands : ∀ demand, (Coupling.sharing base).Meets (fun _ => True) k recur recur'
      (registry.reading config c container) demand := by
    intro demand name _ j _
    exact (hcall _ (hfollow name) j).same.imp fun _ _ _ _ hsame => ⟨hsame, trivial⟩
  have hliterals : ∀ v : Value, (Coupling.sharing base).Same k v v := Value.alike_same
  refine .of_same (Coupling.Couples.imp (Coupling.create_couples supports definition
    (Coupling.entity_couples supports definition (fun demand _ => hdemands demand)
      fun v _ => hliterals v) (fun _ _ _ hsame => hsame) (fun demand _ => hdemands demand)
    (fun v _ => hliterals v) ?_ ?_) fun _ _ _ _ h => h.1)
  · intro name value _ j o o' hservice i v v' _ hvalue
    obtain rfl : o = o' := Value.object.inj (Value.Alike.eq hservice)
    obtain rfl : v = v' := Value.Alike.eq hvalue
    exact (Behaviour.run_shares hcall _ (hcatalog.applyMember o name v)).imp fun _ _ _ _ _ => trivial
  · intro decorator hdecorator j v v' _ hvalue
    obtain rfl : v = v' := Value.Alike.eq hvalue
    exact (Behaviour.run_shares hcall _ (hfree.decorators hfound decorator hdecorator _ v)).same

/-- **A new service** is made alike by either caller. When its id is left the world has grown, and
nobody else has cached a service of the definition. -/
theorem Container.obtain_entered (hcall : Caller.Shares base recur recur') (calm : k.Calm)
    {c : ContainerRef} {container : Container} (hat : k.container? c = some container) {id : String}
    (hdefined : container.defines id) (hcached : container.cached? id = none)
    (options : ResolveOptions) (hretains : base.Retains k) :
    container.obtain recur c id options k = container.obtain recur' c id options k ∧
      k.Grows (container.obtain recur c id options k).2 ∧
      ∀ service later, container.obtain recur c id options k = (.ok service, later) →
        container.isFactory id = false → options.ignoreFreezing = false →
          later.cached? c id = some service := by
  obtain ⟨registry, config, hosts, hfree⟩ := calm.hosted hat
  obtain ⟨definition, hfound⟩ : ∃ definition, registry.definition? id = some definition := by
    have hcontains : registry.contains id := by rwa [← hosts.defines_eq]
    exact Option.isSome_iff_exists.mp hcontains
  rw [obtain_made hdefined hcached, obtain_made hdefined hcached]
  cases henter : Chain.enter container.maxDepth container.loading id with
  | error error =>
      rw [entering_refused hat henter, entering_refused hat henter]
      exact ⟨rfl, .refl k, fun _ _ hok => by cases hok⟩
  | ok longer =>
      obtain ⟨hentered, -, rfl⟩ := Chain.enter_eq_ok_iff.mp henter
      rw [entering_apply hat henter, entering_apply hat henter]
      obtain ⟨hsame, hgrows⟩ := (make_shares hcall hosts hfree hfound c).eq
        (hretains.trans (World.retains_put hat (container.retains_setLoading _)))
      generalize hother : container.make recur' c id
        (k.put c (container.setLoading (container.loading ++ [id]))) = answer at hsame
      rw [bind_apply, bind_apply, hother, hsame]
      rw [hsame] at hgrows
      obtain ⟨result, inner⟩ := answer
      cases result with
      | error halt =>
          exact ⟨rfl, World.grows_failed hat hgrows, fun _ _ hok => by cases hok⟩
      | ok service =>
          obtain ⟨later, hfinish, hmade, hkept⟩ :=
            World.grows_made hat hdefined hcached hentered hgrows options service
          dsimp only
          rw [hfinish]
          refine ⟨rfl, hmade, fun given last hok hshared hoptions => ?_⟩
          obtain ⟨rfl, rfl⟩ := Prod.mk.inj hok |>.imp_left Except.ok.inj
          obtain ⟨b, hb, hheld⟩ := hkept hshared hoptions
          exact Option.bind_eq_some_iff.mpr ⟨b, hb, hheld⟩

theorem Container.obtain_shares (hcall : Caller.Shares base recur recur') (calm : k.Calm)
    {c : ContainerRef} {container : Container} (hat : k.container? c = some container)
    (id : String) (options : ResolveOptions) :
    Agree base k (container.obtain recur c id options) (container.obtain recur' c id options) := by
  cases hdefined : container.defines id with
  | false =>
      rw [obtain_undefined hdefined, obtain_undefined hdefined]
      exact .fail _
  | true =>
      cases hcached : container.cached? id with
      | some service =>
          rw [obtain_cached hcached, obtain_cached hcached]
          exact .pure rfl
      | none =>
          refine .of_eq fun hretains => ?_
          obtain ⟨hsame, hgrows, -⟩ :=
            obtain_entered hcall calm hat hdefined hcached options hretains
          exact ⟨hsame, hgrows⟩

theorem Run.resolveType_shares (hcall : Caller.Shares base recur recur') (c : ContainerRef)
    (typeName : String) (ids : List String) (options : ResolveOptions) :
    Agree base k (resolveType recur c typeName ids options)
      (resolveType recur' c typeName ids options) := by
  have hresolve : ∀ id j, Agree base j (recur (.resolve c id options))
      (recur' (.resolve c id options)) := fun id j => hcall (.resolve c id options) (fun h => h) j
  unfold resolveType
  split
  · exact .fail _
  · exact hresolve _ k
  · split
    · exact Agree.bind (.mapM fun id _ j => hresolve id j) fun _ _ => .pure rfl
    · exact .fail _

theorem Lookup.run_shares (hcall : Caller.Shares base recur recur') (calm : k.Calm)
    {c : ContainerRef} {container : Container} (hat : k.container? c = some container)
    (name : String) (options : ResolveOptions) (lookup : Lookup) :
    Agree base k (lookup.run recur c container name options)
      (lookup.run recur' c container name options) := by
  cases lookup with
  | definition id => exact Container.obtain_shares hcall calm hat id options
  | withheld => exact .fail _
  | services typeName ids => exact resolveType_shares hcall c typeName ids options

theorem Call.locate_shares (hcall : Caller.Shares base recur recur') (calm : k.Calm)
    (isPublic : Bool) (c : ContainerRef) (name : String) (options : ResolveOptions) :
    Agree base k (step recur (locate isPublic c name options))
      (step recur' (locate isPublic c name options)) := by
  cases hat : k.container? c with
  | none =>
      have habsent : ∀ recur : Caller, step recur (locate isPublic c name options) k =
          (Run.fail (.containerDropped "") : Run Value) k := by
        intro recur
        cases isPublic <;> exact bind_of_error (container_absent hat) _
      exact Agree.congr (.fail _) (habsent recur) (habsent recur')
  | some container =>
      exact ((container.lookup isPublic name).run_shares hcall calm hat name options).congr
        (step_locate hat ..) (step_locate hat ..)

theorem Call.forceHandle_shares (hcall : Caller.Shares base recur recur') (l : LazyRef) :
    Agree base k (forceHandle recur l) (forceHandle recur' l) := by
  refine Agree.congr ?_ (bind_of_ok (get_apply k) _) (bind_of_ok (get_apply k) _)
  split
  · exact .pure rfl
  · split
    · exact .fail _
    · next c _ =>
        refine (hcall (.resolve c l.target {}) (fun h => h) k).bind fun j value => ?_
        exact .of_grows (grows_onStore fun store => store.retains_settle l value)

/-- **Every call**, resets apart, does the same with either caller. -/
theorem Call.step_shares (hcall : Caller.Shares base recur recur') (calm : k.Calm) (call : Call)
    (hquiet : ¬ call.Resets) : Agree base k (step recur call) (step recur' call) := by
  cases call with
  | get c name options => exact locate_shares hcall calm true c name options
  | resolve c name options => exact locate_shares hcall calm false c name options
  | routine c position =>
      cases hat : k.container? c with
      | none =>
          exact Agree.congr (.fail _) (bind_of_error (container_absent hat) _)
            (bind_of_error (container_absent hat) _)
      | some container =>
          obtain ⟨registry, config, hosts, -⟩ := calm.hosted hat
          refine Agree.congr ?_ (step_routine hat hosts recur position)
            (step_routine hat hosts recur' position)
          split
          · next id _ => exact Container.obtain_shares hcall calm hat id {}
          · exact .fail _
  | invoke c f args =>
      refine Agree.congr ?_ (bind_of_ok (get_apply k) _) (bind_of_ok (get_apply k) _)
      cases hcode : k.store.codeOf? f with
      | none => exact .pure rfl
      | some code =>
          have hfree := calm.code code (Array.mem_of_getElem? hcode) c args
          exact Behaviour.run_shares hcall _ hfree
  | force l => exact forceHandle_shares hcall l
  | reset c => exact absurd trivial hquiet

end Sharing

/-- **A run is answered from what was there**, at every depth of nesting. -/
theorem Call.run_shares {base : World} (calm : base.Calm) (depth : Nat) :
    Caller.Shares base (run depth) (runFrom base depth) := by
  induction depth with
  | zero => exact fun call _ k => .of_eq fun _ => ⟨rfl, .refl k⟩
  | succ depth ih =>
      intro call hquiet k
      refine .of_eq fun hretains => ?_
      have hfrom : runFrom base (depth + 1) call k =
          match base.known call with
          | some service => (.ok service, k)
          | none => step (runFrom base depth) call k := by
        rw [runFrom]
        exact if_pos hretains
      have hcalm := calm.later hretains
      rw [run, hfrom]
      cases hknown : base.known call with
      | some service =>
          rw [step_known hcalm (hretains.known hknown)]
          exact ⟨rfl, .refl k⟩
      | none => exact (step_shares ih hcalm call hquiet).eq hretains

/-! ### Sharing -/

/-- What it means that services are shared from here on. -/
structure World.Shares (world : World) : Prop where
  /-- Calls, nested ones too, are answered from what is there. -/
  nested : ∀ (depth : Nat) {call : Call}, ¬ call.Resets →
    Call.run depth call world = Call.runFrom world depth call world
  /-- And so is whatever is asked for from outside. -/
  asked : ∀ (depth : Nat) {request : Request}, ¬ request.Resets →
    request.perform (Call.run depth) world = request.perform (Call.runFrom world depth) world
  /-- A name that comes to a cached service gives it, and nothing is run. -/
  selected : ∀ {c : ContainerRef} {container : Container}, world.container? c = some container →
    ∀ {options : ResolveOptions} {depth : Nat} {isPublic : Bool} {name id : String} {service : Value},
      container.select options depth isPublic name = some (.definition id) →
      container.cached? id = some service →
        Call.run depth (.locate isPublic c name options) world = (.ok service, world)
  /-- So does a handle for the service, and it keeps the value. -/
  handled : ∀ {l : LazyRef} {c : ContainerRef} {container : Container},
    world.store.cell l = { home := some c } → world.container? c = some container →
    ∀ {depth : Nat} {id : String} {service : Value},
      container.select {} depth false l.target = some (.definition id) →
      container.cached? id = some service →
        Call.run (depth + 1) (.force l) world =
          (.ok service, { world with store := (world.store.settle l service).2 })
  /-- What is made is cached, unless the definition or the options say otherwise. -/
  stored : ∀ {c : ContainerRef} {container : Container}, world.container? c = some container →
    ∀ {options : ResolveOptions} {depth : Nat} {isPublic : Bool} {name id : String} {service : Value}
      {later : World},
      container.select options depth isPublic name = some (.definition id) →
      container.isFactory id = false → options.ignoreFreezing = false →
      Call.run depth (.locate isPublic c name options) world = (.ok service, later) →
        later.cached? c id = some service
  factories : ∀ {c : ContainerRef} {container : Container}, world.container? c = some container →
    ∀ {id : String}, container.isFactory id → container.holds id = false
  /-- A handle that was forced keeps what it gave. -/
  forced : ∀ {l : LazyRef} {depth : Nat} {service : Value} {later : World},
    Call.run depth (.force l) world = (.ok service, later) →
      (later.store.cell l).value = some service
  /-- And it gives that at once. -/
  given : ∀ {l : LazyRef} {service : Value}, (world.store.cell l).value = some service →
    ∀ depth, Call.run (depth + 1) (.force l) world = (.ok service, world)

namespace World

variable {world : World}

theorem run_selected {c : ContainerRef} {container : Container}
    (hat : world.container? c = some container) {options : ResolveOptions} {depth : Nat}
    {isPublic : Bool} {name id : String} {service : Value}
    (hselect : container.select options depth isPublic name = some (.definition id))
    (hcached : container.cached? id = some service) :
    Call.run depth (.locate isPublic c name options) world = (.ok service, world) := by
  obtain ⟨less, hrun⟩ := Call.run_select hat hselect
  rw [hrun, Container.obtain_cached hcached]
  rfl

theorem run_handled {l : LazyRef} {c : ContainerRef} {container : Container}
    (hcell : world.store.cell l = { home := some c }) (hat : world.container? c = some container)
    {depth : Nat} {id : String} {service : Value}
    (hselect : container.select {} depth false l.target = some (.definition id))
    (hcached : container.cached? id = some service) :
    Call.run (depth + 1) (.force l) world =
      (.ok service, { world with store := (world.store.settle l service).2 }) := by
  have hresolve : Call.run depth (.resolve c l.target {}) world = (.ok service, world) :=
    run_selected hat hselect hcached
  have hsettle : (world.store.settle l service).1 = service := by
    rw [Store.settle, hcell]
  have hhome : ((some c).filter fun c => (world.container? c).isSome) = some c := by
    rw [Option.filter_some, hat]
    rfl
  rw [Call.run, Call.step, Call.forceHandle, Run.world, bind_of_ok (get_apply world), hcell]
  dsimp only
  rw [hhome]
  dsimp only
  rw [bind_of_ok hresolve]
  exact Prod.ext (congrArg Except.ok hsettle) rfl

theorem Calm.stored (calm : world.Calm) {c : ContainerRef} {container : Container}
    (hat : world.container? c = some container) {options : ResolveOptions} {depth : Nat}
    {isPublic : Bool} {name id : String} {service : Value} {later : World}
    (hselect : container.select options depth isPublic name = some (.definition id))
    (hshared : container.isFactory id = false) (hoptions : options.ignoreFreezing = false)
    (hok : Call.run depth (.locate isPublic c name options) world = (.ok service, later)) :
    later.cached? c id = some service := by
  obtain ⟨less, hrun⟩ := Call.run_select hat hselect
  rw [hrun] at hok
  cases hdefined : container.defines id with
  | false =>
      rw [Container.obtain_undefined hdefined] at hok
      cases hok
  | true =>
      cases hcached : container.cached? id with
      | some held =>
          rw [Container.obtain_cached hcached] at hok
          obtain ⟨rfl, rfl⟩ := Prod.mk.inj hok |>.imp_left Except.ok.inj
          exact Option.bind_eq_some_iff.mpr ⟨container, hat, hcached⟩
      | none =>
          obtain ⟨-, -, hkept⟩ := Container.obtain_entered (Call.run_shares calm less) calm hat
            hdefined hcached options (.refl world)
          exact hkept service later hok hshared hoptions

theorem Calm.forced (calm : world.Calm) {l : LazyRef} {depth : Nat} {service : Value}
    {later : World} (hok : Call.run depth (.force l) world = (.ok service, later)) :
    (later.store.cell l).value = some service := by
  cases depth with
  | zero => cases hok
  | succ depth =>
      rw [Call.run, Call.step, Call.forceHandle, Run.world, bind_of_ok (get_apply world)] at hok
      cases hheld : (world.store.cell l).value with
      | some held =>
          rw [hheld] at hok
          obtain ⟨rfl, rfl⟩ := Prod.mk.inj hok |>.imp_left Except.ok.inj
          exact hheld
      | none =>
          rw [hheld] at hok
          cases hhome : (world.store.cell l).home.filter fun c => (world.container? c).isSome with
          | none =>
              simp only [hhome] at hok
              cases hok
          | some c =>
              simp only [hhome] at hok
              have hinside : l.address < world.store.cells.size :=
                Store.lt_of_home (Option.filter_eq_some_iff.mp hhome).1
              obtain ⟨-, hgrows⟩ :=
                (Call.run_shares calm depth (.resolve c l.target {}) (fun h => h) world).eq
                  (.refl world)
              rw [bind_apply] at hok
              generalize Call.run depth (.resolve c l.target {}) world = answer at hok hgrows
              obtain ⟨result, inner⟩ := answer
              cases result with
              | error halt => cases hok
              | ok value =>
                  obtain ⟨hvalue, hlater⟩ := Prod.mk.inj hok
                  rw [← Except.ok.inj hvalue, ← hlater]
                  exact Store.cell_settle (hinside.trans_le hgrows.store.cells) value

theorem Calm.shares (calm : world.Calm)
    (tidy : ∀ {c : ContainerRef} {container : Container}, world.container? c = some container →
      container.Tidy) : world.Shares where
  nested depth _ hquiet := ((Call.run_shares calm depth _ hquiet world).eq (.refl world)).1
  asked depth request hquiet :=
    ((request.perform_shares (Call.run_shares calm depth) hquiet).eq (.refl world)).1
  selected hat _ _ _ _ _ _ hselect hcached := run_selected hat hselect hcached
  handled hcell hat _ _ _ hselect hcached := run_handled hcell hat hselect hcached
  stored hat _ _ _ _ _ _ _ hselect hshared hoptions hok :=
    calm.stored hat hselect hshared hoptions hok
  factories hat _ hfactory := (tidy hat).holds_factory hfactory
  forced hok := calm.forced hok
  given {l service} hheld depth := by
    have hknown : world.known (.force l) = some service := hheld
    exact Call.step_known calm hknown (Call.run depth)

/-- Serving requests loses nothing, resets apart. -/
theorem Calm.retains_serves (calm : world.Calm) {exchanges : List Exchange} {later : World}
    (hserves : world.Serves exchanges later) (hquiet : ∀ e ∈ exchanges, ¬ e.request.Resets) :
    world.Retains later := by
  induction hserves with
  | done world => exact .refl world
  | @next world later last e exchanges hanswer hrest ih =>
      obtain ⟨depth, hrun⟩ := hanswer.ends
      obtain ⟨-, hgrows⟩ := (e.request.perform_shares (Call.run_shares calm depth)
        (hquiet e List.mem_cons_self) (k := world)).eq (.refl world)
      rw [hrun] at hgrows
      have hretains := hgrows.retains
      exact hretains.trans (ih (calm.later hretains) fun other hother =>
        hquiet other (List.mem_cons_of_mem _ hother))

theorem container?_alone {store : Store} {container found : Container} {c : ContainerRef}
    (hat : (World.alone store container).container? c = some found) : found = container := by
  obtain ⟨index⟩ := c
  cases index with
  | zero => exact (Option.some.inj hat).symm
  | succ index => cases hat

end World

namespace Registry

variable {registry : Registry} {config : Config} {container : Container}

theorem Starts.tidy (h : registry.Starts config container) : container.Tidy := by
  cases h with
  | interpreting handler => exact fun id hheld => by cases hheld
  | running hcompile handler => exact fun id hheld => by cases hheld

theorem Starts.calm (h : registry.Starts config container) {store : Store}
    (hfree : registry.ResetFree store.code) : (World.alone store container).Calm where
  hosted hat := by
    rw [World.container?_alone hat]
    exact ⟨registry, config, h.hosts, hfree⟩
  code := hfree.code

/-- **Services are shared.** Take a new container of either kind whose user code does not reset, and
any world that lost nothing since: what is served from there loses nothing either, and services are
shared from there on. The worlds in the middle of a run are among these worlds. -/
theorem services_shared (hstart : registry.Starts config container) (store : Store)
    (hfree : registry.ResetFree store.code) {world : World}
    (hworld : (World.alone store container).Retains world) :
    world.Shares ∧ ∀ {exchanges : List Exchange} {later : World},
      world.Serves exchanges later → (∀ e ∈ exchanges, ¬ e.request.Resets) →
        world.Retains later ∧ (World.alone store container).Retains later := by
  have calm := (hstart.calm hfree).later hworld
  constructor
  · refine calm.shares fun {c found} hat => ?_
    have hrel := hworld.containers c
    rw [hat] at hrel
    generalize hbefore : (World.alone store container).container? c = before at hrel
    cases hrel with
    | some hretains =>
        rw [World.container?_alone hbefore] at hretains
        exact hretains.tidy hstart.tidy
  · intro exchanges later hserves hquiet
    have hretains := calm.retains_serves hserves hquiet
    exact ⟨hretains, hworld.trans hretains⟩

/-- The service of `b` is made once. -/
theorem torn_services_shared :
    ∃ world, (tornInterpreting (Script.teardown "torn")).Serves
        [⟨.get ⟨0⟩ "b" {}, .ok (.object ⟨0, "B"⟩), []⟩] world ∧ world.Shares ∧
      world.cached? ⟨0⟩ "b" = some (.object ⟨0, "B"⟩) ∧
      Call.run 1 (.get ⟨0⟩ "b" {}) world = (.ok (.object ⟨0, "B"⟩), world) := by
  have hstart : (torn (Script.teardown "torn")).Starts {}
      (.interpreting (.ofRegistry (torn (Script.teardown "torn")) {} .silent)) := .interpreting .silent
  have hfree := torn_resetFree _ (Script.resetFree_teardown "torn")
  have hserves : ∃ world container, (tornInterpreting (Script.teardown "torn")).Serves
      [⟨.get ⟨0⟩ "b" {}, .ok (.object ⟨0, "B"⟩), []⟩] world ∧
        world.container? ⟨0⟩ = some container ∧
        container.select {} 1 true "b" = some (.definition "b") ∧
        container.cached? "b" = some (.object ⟨0, "B"⟩) :=
    ⟨_, _, .next ⟨⟨2, rfl⟩, rfl⟩ (.done _), rfl, rfl, rfl⟩
  obtain ⟨world, container, hserves, hat, hselect, hcached⟩ := hserves
  obtain ⟨-, hserved⟩ := services_shared hstart {} hfree (.refl _)
  obtain ⟨hretains, -⟩ := hserved hserves fun e he hresets => by
    obtain rfl := List.mem_singleton.mp he
    exact hresets
  obtain ⟨hshares, -⟩ := services_shared hstart {} hfree hretains
  refine ⟨world, hserves, hshares, ?_, hshares.selected hat hselect hcached⟩
  exact Option.bind_eq_some_iff.mpr ⟨container, hat, hcached⟩

end Registry
end Wiring
