import Wiring.Proofs.Accords

/-!
# Relations between runs

A relation between two runs that holds of what is put together, as soon as it holds of the pieces, is
a congruence. Whatever definitions, user code and handles make of further calls then stands in the
relation if these calls do, and this is gone through once for all such relations.

The two runs may start from worlds that differ in where the containers send their notices; nothing
that is run can tell that.
-/

namespace Wiring

/-- What a run does to the store at one time. -/
inductive Store.Changes : Store → Store → Prop
  | record (store : Store) (event : Event) : Changes store (store.record event)
  | allocate (store : Store) (className : String) : Changes store (store.allocate className).2
  | setProperty (store : Store) (o : ObjectRef) (name : String) (value : Value) :
      Changes store (store.setProperty o name value)
  | count (store : Store) (key : String) : Changes store (store.count key).2
  | addHandle (store : Store) (target : String) (home : Option ContainerRef) :
      Changes store (store.addHandle target home).2
  | settle (store : Store) (l : LazyRef) (value : Value) : Changes store (store.settle l value).2

namespace Container

def withHandler (handler : NoticeHandler) : Container → Container
  | .interpreting c => .interpreting { c with handler }
  | .running c => .running { c with handler }

@[simp]
theorem withHandler_self (container : Container) :
    container.withHandler container.handler = container := by
  cases container <;> rfl

variable (container : Container) (handler : NoticeHandler)

@[simp]
theorem has_withHandler (id : String) : (container.withHandler handler).has id = container.has id := by
  cases container <;> rfl

@[simp]
theorem keys_withHandler : (container.withHandler handler).keys = container.keys := by
  cases container <;> rfl

@[simp]
theorem parameter_withHandler (name : String) :
    (container.withHandler handler).parameter name = container.parameter name := by
  cases container <;> rfl

@[simp]
theorem tagged_withHandler (tag : String) :
    (container.withHandler handler).tagged tag = container.tagged tag := by
  cases container <;> rfl

@[simp]
theorem initialized_withHandler (id : String) :
    (container.withHandler handler).initialized id = container.initialized id := by
  cases container <;> rfl

@[simp]
theorem lookup_withHandler (isPublic : Bool) (name : String) :
    (container.withHandler handler).lookup isPublic name = container.lookup isPublic name := by
  cases container <;> rfl

end Container

/-- The worlds are the same but for where the containers send their notices. -/
structure World.Redirects (handler : Container → NoticeHandler) (world redirected : World) :
    Prop where
  store : redirected.store = world.store
  container : ∀ c, redirected.container? c =
    (world.container? c).map fun container => container.withHandler (handler container)

theorem World.redirects_self (world : World) : world.Redirects Container.handler world where
  store := rfl
  container c := by simp only [Container.withHandler_self, Option.map_id']

/-- A relation between the run of `act` from what `view` makes of a world and the run of `other` from
the world itself, which holds of what is put together. -/
structure Run.Congruence where
  view : World → World
  handler : Container → NoticeHandler
  HoldsAt : {α : Type} → World → Run α → Run α → Prop
  redirects : ∀ world : World, world.Redirects handler (view world)
  /-- Only what the runs do from there counts. -/
  congr : ∀ {α : Type} {world : World} {act act' other other' : Run α},
    act (view world) = act' (view world) → other world = other' world →
      HoldsAt world act' other' → HoldsAt world act other
  /-- What leaves the world alone. -/
  still : ∀ {α : Type} {world : World} {act other : Run α} (result : Except Halt α),
    act (view world) = (result, view world) → other world = (result, world) →
      HoldsAt world act other
  changes : ∀ {α : Type} {f : Store → α × Store}, (∀ store : Store, store.Changes (f store).2) →
    ∀ world, HoldsAt world (Run.onStore f) (Run.onStore f)
  /-- What comes next goes on from where it is. -/
  next : ∀ {α β : Type} {world : World} {act other : Run α} {next next' : α → Run β},
    HoldsAt world act other →
    (∀ a later, other world = (.ok a, later) → HoldsAt later (next a) (next' a)) →
      HoldsAt world (act >>= next) (other >>= next')
  answers : ∀ {α : Type} {world : World} {act other : Run α},
    HoldsAt world act other → HoldsAt world (Run.outcome act) (Run.outcome other)

namespace Run.Congruence

variable (C : Congruence) {α β : Type}

/-- From every world the runs stand in the relation. -/
def Holds (act other : Run α) : Prop := ∀ world, C.HoldsAt world act other

/-- Whatever is called, the two callers stand in the relation. -/
def Callers (recur recur' : Caller) : Prop := ∀ call, C.Holds (recur call) (recur' call)

variable {C} {world : World} {c : ContainerRef}

namespace Holds

theorem pure (a : α) : C.Holds (pure a) (pure a) := fun _ => C.still (.ok a) rfl rfl

theorem fail (error : Error) : C.Holds (fail error : Run α) (fail error) :=
  fun _ => C.still (.error (.error error)) rfl rfl

theorem ofExcept (result : Except Error α) : C.Holds (ofExcept result) (ofExcept result) := by
  cases result with
  | ok a => exact .pure a
  | error error => exact .fail error

theorem bind {act other : Run α} {next next' : α → Run β} (hact : C.Holds act other)
    (hnext : ∀ a, C.Holds (next a) (next' a)) : C.Holds (act >>= next) (other >>= next') :=
  fun world => C.next (hact world) fun a later _ => hnext a later

theorem outcome {act other : Run α} (hact : C.Holds act other) :
    C.Holds (outcome act) (outcome other) := fun world => C.answers (hact world)

theorem onStore {f : Store → α × Store} (h : ∀ store : Store, store.Changes (f store).2) :
    C.Holds (onStore f) (onStore f) := C.changes h

theorem changeStore {f : Store → Store} (h : ∀ store : Store, store.Changes (f store)) :
    C.Holds (changeStore f) (changeStore f) := fun world =>
  C.congr rfl rfl (C.changes (f := fun store => ((), f store)) h world)

/-- What is read off the store. -/
theorem readStore (f : Store → α) :
    C.Holds (do return f (← Run.world).store) (do return f (← Run.world).store) := fun world =>
  C.still (.ok (f world.store))
    (congrArg (fun store => (Except.ok (f store), C.view world)) (C.redirects world).store) rfl

/-- What is read off a container, whatever its handler. -/
theorem readContainer (c : ContainerRef) {f : Option Container → α}
    (h : ∀ container : Option Container, ∀ handler : Container → NoticeHandler,
      f (container.map fun container => container.withHandler (handler container)) = f container) :
    C.Holds (do return f ((← Run.world).container? c)) (do return f ((← Run.world).container? c)) := by
  intro world
  refine C.still (.ok (f (world.container? c))) ?_ rfl
  have hsame : f ((C.view world).container? c) = f (world.container? c) := by
    rw [(C.redirects world).container]
    exact h _ _
  exact congrArg (fun a => (Except.ok a, C.view world)) hsame

theorem mapM {visit visit' : α → Run β} (h : ∀ item, C.Holds (visit item) (visit' item))
    (items : List α) : C.Holds (items.mapM visit) (items.mapM visit') := by
  induction items with
  | nil => exact .pure []
  | cons item rest ih =>
      rw [List.mapM_cons, List.mapM_cons]
      exact (h item).bind fun first => ih.bind fun others => .pure _

theorem forM {visit visit' : α → Run PUnit} (h : ∀ item, C.Holds (visit item) (visit' item))
    (items : List α) : C.Holds (items.forM visit) (items.forM visit') := by
  induction items with
  | nil => exact .pure _
  | cons item rest ih => exact Holds.bind (h item) fun _ => ih

theorem foldlM {visit visit' : α → β → Run α}
    (h : ∀ a item, C.Holds (visit a item) (visit' a item)) (items : List β) (a : α) :
    C.Holds (items.foldlM visit a) (items.foldlM visit' a) := by
  induction items generalizing a with
  | nil => exact .pure a
  | cons item rest ih =>
      rw [List.foldlM_cons, List.foldlM_cons]
      exact (h a item).bind ih

end Holds

/-- What is done may rely on the container that is there. -/
theorem holdsAt_container {next next' : Container → Run β}
    (h : ∀ container, world.container? c = some container →
      C.HoldsAt world (next (container.withHandler (C.handler container))) (next' container)) :
    C.HoldsAt world (Run.container c >>= next) (Run.container c >>= next') := by
  have hview := (C.redirects world).container c
  cases hat : world.container? c with
  | none =>
      rw [hat] at hview
      exact C.still (.error (.error (.containerDropped "")))
        (bind_of_error (container_absent hview) next) (bind_of_error (container_absent hat) next')
  | some container =>
      rw [hat] at hview
      exact C.congr (bind_of_ok (container_apply hview) next)
        (bind_of_ok (container_apply hat) next') (h container hat)

theorem holds_container {next next' : Container → Run β}
    (h : ∀ container : Container,
      C.Holds (next (container.withHandler (C.handler container))) (next' container))
    (c : ContainerRef) : C.Holds (Run.container c >>= next) (Run.container c >>= next') :=
  fun world => holdsAt_container fun container _ => h container world

end Run.Congruence

/-! ### What is run while services are made -/

open Run.Congruence

variable {C : Run.Congruence} {recur recur' : Caller} {c : ContainerRef}

theorem Request.perform_holds (h : C.Callers recur recur') (request : Request) :
    C.Holds (request.perform recur) (request.perform recur') := by
  cases request with
  | note note => exact .changeStore (f := (·.record (.noted note))) fun store => .record store _
  | allocate className =>
      exact .onStore (f := (·.allocate className)) fun store => .allocate store className
  | properties o => exact .readStore fun store => store.properties o
  | setProperty o name value =>
      exact .changeStore (f := (·.setProperty o name value)) fun store =>
        .setProperty store o name value
  | count key => exact .onStore (f := (·.count key)) fun store => .count store key
  | get c id options => exact (h _).outcome
  | reference c id => exact (h _).outcome
  | has c id =>
      refine .readContainer c (f := fun container => container.any (·.has id)) fun container _ => ?_
      cases container <;> simp
  | keys c =>
      refine .readContainer c (f := fun container => (container.map Container.keys).getD [])
        fun container _ => ?_
      cases container <;> simp
  | parameter c name =>
      refine (holds_container (fun container => ?_) c).outcome
      rw [Container.parameter_withHandler]
      exact .ofExcept _
  | tagged c tag =>
      refine (holds_container (fun container => ?_) c).outcome
      rw [Container.tagged_withHandler]
      exact .mapM (fun entry => (h _).bind fun _ => .pure _) _
  | initialized c id =>
      refine .readContainer c (f := fun container => container.any (·.initialized id))
        fun container _ => ?_
      cases container <;> simp
  | reset c => exact (h _).outcome.bind fun _ => .pure ()
  | invoke c f args => exact (h _).outcome
  | force l => exact (h _).outcome

/-- **User code** may ask for anything. -/
theorem Behaviour.run_holds (h : C.Callers recur recur') {α : Type} (b : Behaviour α) :
    C.Holds (b.run recur) (b.run recur') := by
  induction b with
  | done result => exact .ofExcept result
  | ask request next ih => exact (request.perform_holds h).bind ih

theorem Run.resolveType_holds (h : C.Callers recur recur') (typeName : String) (candidates : List String)
    (options : ResolveOptions) :
    C.Holds (Run.resolveType recur c typeName candidates options)
      (Run.resolveType recur' c typeName candidates options) := by
  rcases candidates with _ | ⟨first, _ | ⟨second, rest⟩⟩
  · exact .fail _
  · exact h _
  · rw [Run.resolveType_several, Run.resolveType_several]
    split
    · exact (Holds.mapM (fun id => h _) _).bind fun _ => .pure _
    · exact .fail _

theorem Run.callService_holds (h : C.Callers recur recur') (id name : String) (service : Value)
    (args : CallArgs) :
    C.Holds (Run.callService recur c id name service args)
      (Run.callService recur' c id name service args) := by
  unfold Run.callService
  split
  · exact h _
  · split
    · exact .pure _
    · exact .fail _

theorem Run.callMethod_holds (h : C.Callers recur recur') (catalog : Catalog) (id name : String)
    (service : Value) (method : String) (args : CallArgs) :
    C.Holds (Run.callMethod recur catalog id name service method args)
      (Run.callMethod recur' catalog id name service method args) := by
  unfold Run.callMethod
  split
  · exact Behaviour.run_holds h _
  · exact .fail _

theorem Run.bindMember_holds (h : C.Callers recur recur') (catalog : Catalog) (id : String)
    (service : Value) (name : String) {value value' : Run Value} (hvalue : C.Holds value value') :
    C.Holds (Run.bindMember recur catalog id service name value)
      (Run.bindMember recur' catalog id service name value') := by
  unfold Run.bindMember
  split
  · exact hvalue.bind fun _ => Behaviour.run_holds h _
  · exact .fail _

theorem Run.runExtra_holds (h : C.Callers recur recur') (service code : Value) :
    C.Holds (Run.runExtra recur c service code) (Run.runExtra recur' c service code) := by
  unfold Run.runExtra
  split
  · exact (h _).bind fun _ => .pure ()
  · exact .pure ()

theorem Run.decorate_holds (h : C.Callers recur recur') (decorators : List Decorator) (service : Value) :
    C.Holds (Run.decorate recur c decorators service) (Run.decorate recur' c decorators service) :=
  .foldlM (fun _ _ => Behaviour.run_holds h _) decorators service

namespace Reading

variable {reading : Reading}

theorem reference_holds (h : C.Callers recur recur') (name : String) :
    C.Holds (reading.reference recur name) (reading.reference recur' name) := by
  unfold Reading.reference
  split
  · exact (Holds.onStore fun store => .addHandle store _ _).bind fun _ => .pure _
  · exact h _

theorem callee_holds (h : C.Callers recur recur') (id : String) (target : Callee)
    (args : CallArgs) :
    C.Holds (reading.callee recur id target args) (reading.callee recur' id target args) := by
  cases target with
  | invocable f => exact h _
  | construct className => exact Behaviour.run_holds h _
  | service name =>
      exact (h _).bind fun service => Run.callService_holds h id _ service args
  | method name method =>
      exact (h _).bind fun service =>
        Run.callMethod_holds h reading.catalog id _ service method args

end Reading

/-- A congruence is known of all demands. -/
def Run.Congruence.concord (C : Run.Congruence) : Concord where
  Known _ := True
  Holds _ act other := C.Holds act other
  pure := .pure
  bind h hnext world :=
    C.next (h world) fun a later hother => hnext a ⟨world, later, hother⟩ later

theorem Interpreter.create_holds {registry : Registry} (h : C.Callers recur recur') (id : String)
    (definition : Definition) :
    C.Holds (create recur c registry id definition) (create recur' c registry id definition) := by
  have hpieces : C.concord.Pieces recur recur' (reading c registry) (reading c registry) id
      definition := {
    candidates := rfl
    reference := fun name _ => Reading.reference_holds h name
    parameter := fun name _ => .ofExcept _
    callee := fun target args _ => Reading.callee_holds h id target args
    member := fun service name _ _ _ hvalue => Run.bindMember_holds h _ id service name hvalue
    extra := Run.runExtra_holds h
    decorate := Run.decorate_holds h definition.decorators }
  rw [create_reading, create_reading]
  exact Concord.create_holds hpieces fun _ _ => trivial

theorem Machine.create_holds {machine : Machine} {handler : NoticeHandler}
    (h : C.Callers recur recur') (routine : Routine) :
    C.Holds (create recur c { machine with handler } routine)
      (create recur' c machine routine) := by
  have hpieces : C.concord.Evaluates recur recur' c { machine with handler } machine routine.id := {
    routine := fun _ => h _
    invoke := fun _ _ => h _
    construct := fun _ _ => Behaviour.run_holds h _
    callService := Run.callService_holds h routine.id
    callMethod := Run.callMethod_holds h machine.catalog routine.id
    handle := fun _ => .onStore fun store => .addHandle store _ _
    parameter := fun _ => .ofExcept _
    member := fun service name _ _ hvalue =>
      Run.bindMember_holds h machine.catalog routine.id service name hvalue
    extra := Run.runExtra_holds h }
  exact Concord.routine_holds hpieces (Run.decorate_holds h routine.decorators)

namespace Call

theorem forceHandle_holds (h : C.Callers recur recur') (l : LazyRef) :
    C.Holds (forceHandle recur l) (forceHandle recur' l) := by
  intro world
  refine C.congr (Run.bind_of_ok (Run.get_apply _) _) (Run.bind_of_ok (Run.get_apply _) _) ?_
  have hpresent : ∀ c, ((C.view world).container? c).isSome = (world.container? c).isSome := by
    intro c
    rw [(C.redirects world).container, Option.isSome_map]
  simp only [(C.redirects world).store, hpresent]
  split
  · exact Holds.pure _ world
  · split
    · exact Holds.fail _ world
    · exact ((h _).bind fun value => .onStore fun store => .settle store l value) world

theorem tearDown_holds (h : C.Callers recur recur') (catalog : Catalog) (service : Value) :
    C.Holds (tearDown recur catalog service) (tearDown recur' catalog service) := by
  unfold tearDown
  split
  · exact (Behaviour.run_holds h _).outcome.bind fun _ => .pure ()
  · exact .pure ()

theorem invoke_holds (h : C.Callers recur recur') (c : ContainerRef) (f : CallableRef)
    (args : CallArgs) : C.Holds (step recur (.invoke c f args)) (step recur' (.invoke c f args)) := by
  intro world
  refine C.congr (Run.bind_of_ok (Run.get_apply _) _) (Run.bind_of_ok (Run.get_apply _) _) ?_
  rw [(C.redirects world).store]
  split
  · exact Behaviour.run_holds h _ world
  · exact Holds.pure _ world

end Call
end Wiring
