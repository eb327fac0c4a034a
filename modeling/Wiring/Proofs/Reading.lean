import Wiring.Proofs.Obtaining

/-!
# Making a service in either kind of container

An interpreter reads a definition and a machine runs the routine that the definition was compiled to.
They go through it alike: where the two differ is in how names are followed and in what failures call
them. This much is a `Reading`; making a service is written once for all readings, and both kinds of
container are shown to make services in this way.
-/

namespace Wiring

/-- What a container takes from its registry when it goes through a definition. -/
structure Reading where
  home : ContainerRef
  catalog : Catalog
  parameter : String → Except Error Value
  candidates : String → List String
  /-- The call that gives the service that a name stands for. -/
  follow : String → Call
  /-- What failures call that service. -/
  label : String → String
  /-- The lazy definition that a name stands for, if it stands for one. -/
  lazyTarget? : String → Option String

namespace Reading

variable (recur : Caller) (reading : Reading)

def reference (name : String) : Run Value :=
  match reading.lazyTarget? name with
  | some id => return .handle (← Run.onStore (·.addHandle id (some reading.home)))
  | none => recur (reading.follow name)

def callee (id : String) (target : Callee) (args : CallArgs) : Run Value := do
  match target with
  | .invocable f => recur (.invoke reading.home f args)
  | .construct className => (reading.catalog.instantiate id className args).run recur
  | .service name =>
      Run.callService recur reading.home id (reading.label name) (← recur (reading.follow name)) args
  | .method name method =>
      Run.callMethod recur reading.catalog id (reading.label name) (← recur (reading.follow name))
        method args

mutual

def argument (id : String) : Argument → Run Value
  | .value v => return v
  | .reference target => reference recur reading target
  | .parameter name => Run.ofExcept (reading.parameter name)
  | .collection typeName =>
      return .list (← (reading.candidates typeName).mapM (reference recur reading))
  | .statement s => statement id s
  | .list items => return .list (← arguments id items)

def statement (id : String) : Statement → Run Value
  | .mk target (.mk positional named) => do
      let positional ← arguments id positional
      let named ← namedArguments id named ∅
      callee recur reading id target { positional, named }

def arguments (id : String) : List Argument → Run (List Value)
  | [] => return []
  | arg :: rest => do
      let first ← argument id arg
      let others ← arguments id rest
      return first :: others

def namedArguments (id : String) : List (String × Argument) → Dict Value → Run (Dict Value)
  | [], values => return values
  | (name, arg) :: rest, values => do
      let value ← argument id arg
      namedArguments id rest (values.insert name value)

end

def allArguments (id : String) (args : Arguments) : Run CallArgs := do
  let positional ← arguments recur reading id args.positional
  let named ← namedArguments recur reading id args.named ∅
  return { positional, named }

def application (id : String) (args : Arguments) (target : Callee) : Run Value := do
  callee recur reading id target (← allArguments recur reading id args)

def entity (id : String) (definition : Definition) : Run Value :=
  match definition.entity with
  | .value v => return v
  | .construct className =>
      application recur reading id definition.arguments (.construct className)
  | .invocable f => application recur reading id definition.arguments (.invocable f)
  | .statement s => application recur reading id (s.args.merged definition.arguments) s.callee

def bind (id : String) (service : Value) : Binding → Run Unit
  | .member name value =>
      Run.bindMember recur reading.catalog id service name (argument recur reading id value)
  | .extra code => do
      Run.runExtra recur reading.home service (← argument recur reading id code)

def create (id : String) (definition : Definition) : Run Value := do
  let service ← entity recur reading id definition
  definition.bindings.forM (bind recur reading id service)
  Run.decorate recur reading.home definition.decorators service

end Reading

namespace Interpreter

variable (recur : Caller) (c : ContainerRef) (registry : Registry) (id : String)

/-- Names are looked up when they are met. -/
def reading : Reading where
  home := c
  catalog := registry.catalog
  parameter := registry.parameter
  candidates := registry.candidates
  follow name := .resolve c name {}
  label name := name
  lazyTarget? := registry.lazyTarget?

mutual

theorem argument_reading : ∀ arg : Argument,
    argument recur c registry id arg = Reading.argument recur (reading c registry) id arg
  | .value v => rfl
  | .reference target => rfl
  | .parameter name => rfl
  | .collection typeName => rfl
  | .statement s => statement_reading s
  | .list items => by rw [argument, Reading.argument, arguments_reading items]

theorem statement_reading : ∀ s : Statement,
    statement recur c registry id s = Reading.statement recur (reading c registry) id s
  | .mk target (.mk positional named) => by
      rw [statement, Reading.statement, arguments_reading positional]
      congr
      funext values
      rw [namedArguments_reading named]
      rfl

theorem arguments_reading : ∀ args : List Argument,
    arguments recur c registry id args = Reading.arguments recur (reading c registry) id args
  | [] => rfl
  | arg :: rest => by
      rw [arguments, Reading.arguments, argument_reading arg, arguments_reading rest]

theorem namedArguments_reading : ∀ (args : List (String × Argument)) (values : Dict Value),
    namedArguments recur c registry id args values =
      Reading.namedArguments recur (reading c registry) id args values
  | [], values => rfl
  | (name, arg) :: rest, values => by
      rw [namedArguments, Reading.namedArguments, argument_reading arg]
      congr
      funext value
      exact namedArguments_reading rest _

end

theorem entity_reading (definition : Definition) :
    entity recur c registry id definition =
      Reading.entity recur (reading c registry) id definition := by
  have hall : ∀ args, allArguments recur c registry id args =
      Reading.allArguments recur (reading c registry) id args := by
    intro args
    rw [allArguments, Reading.allArguments, arguments_reading]
    congr
    funext values
    rw [namedArguments_reading]
  unfold entity Reading.entity
  cases definition.entity with
  | value v => rfl
  | construct className => simp only [hall]; rfl
  | invocable f => simp only [hall]; rfl
  | statement s => simp only [hall]; rfl

theorem bind_reading (service : Value) (member : Binding) :
    bind recur c registry id service member =
      Reading.bind recur (reading c registry) id service member := by
  cases member with
  | member name value => rw [bind, Reading.bind, argument_reading]; rfl
  | extra code => rw [bind, Reading.bind, argument_reading]; rfl

/-- **Interpreters** make services by their reading. -/
theorem create_reading (definition : Definition) :
    create recur c registry id definition =
      Reading.create recur (reading c registry) id definition := by
  have hbind : bind recur c registry id = Reading.bind recur (reading c registry) id := by
    funext service member
    exact bind_reading recur c registry id service member
  rw [create, Reading.create, entity_reading, hbind]
  rfl

end Interpreter

namespace Machine

variable (recur : Caller) (c : ContainerRef) (machine : Machine) (plan : Plan) (id : String)

/-- Names were looked up when the program was compiled. -/
def reading : Reading where
  home := c
  catalog := machine.catalog
  parameter := machine.parameter
  candidates := plan.candidates
  follow name := .routine c (plan.linked name).position
  label name := (plan.linked name).id
  lazyTarget? name := (some (plan.linked name).id).filter plan.registry.isLazy

theorem reference_reading (name : String) :
    eval recur c machine id (plan.linkedReference name) =
      Reading.reference recur (reading c machine plan) name := by
  rw [Plan.linkedReference, Reading.reference]
  by_cases hlazy : plan.registry.isLazy (plan.linked name).id = true
  · have htarget : (reading c machine plan).lazyTarget? name = some (plan.linked name).id :=
      Option.filter_eq_some_iff.mpr ⟨rfl, hlazy⟩
    rw [if_pos hlazy, eval, htarget]
    rfl
  · have htarget : (reading c machine plan).lazyTarget? name = none := by
      change (some (plan.linked name).id).filter plan.registry.isLazy = none
      rw [Option.filter_some, if_neg hlazy]
    rw [if_neg hlazy, eval, htarget]
    rfl

theorem references_reading (names : List String) :
    evalAll recur c machine id (names.map plan.linkedReference) =
      names.mapM (Reading.reference recur (reading c machine plan)) := by
  induction names with
  | nil => rfl
  | cons name rest ih => rw [List.map_cons, evalAll, List.mapM_cons, reference_reading, ih]

theorem callee_reading (target : Callee) (args : ExprArgs) :
    eval recur c machine id (target.linked plan args) = (do
      Reading.callee recur (reading c machine plan) id target (← callArgs recur c machine id args)) := by
  cases target with
  | invocable f => rw [Callee.linked, eval]; rfl
  | construct className => rw [Callee.linked, eval]; rfl
  | service name => rw [Callee.linked, eval]; rfl
  | method name method => rw [Callee.linked, eval]; rfl

mutual

theorem argument_reading : ∀ arg : Argument,
    eval recur c machine id (arg.linked plan) =
      Reading.argument recur (reading c machine plan) id arg
  | .value v => by rw [Argument.linked, eval]; rfl
  | .reference target => by
      rw [Argument.linked, reference_reading]
      rfl
  | .parameter name => by rw [Argument.linked, eval]; rfl
  | .collection typeName => by
      rw [Argument.linked, eval, references_reading]
      rfl
  | .statement s => by
      rw [Argument.linked, statement_reading s]
      rfl
  | .list items => by rw [Argument.linked, eval, Reading.argument, arguments_reading items]

theorem statement_reading : ∀ s : Statement,
    eval recur c machine id (s.linked plan) =
      Reading.statement recur (reading c machine plan) id s
  | .mk target (.mk positional named) => by
      rw [Statement.linked, callee_reading, callArgs, Reading.statement, arguments_reading positional,
        bind_assoc]
      congr
      funext values
      rw [namedArguments_reading named, bind_assoc]
      congr

theorem arguments_reading : ∀ args : List Argument,
    evalAll recur c machine id (Argument.linkedAll plan args) =
      Reading.arguments recur (reading c machine plan) id args
  | [] => by rw [Argument.linkedAll, evalAll]; rfl
  | arg :: rest => by
      rw [Argument.linkedAll, evalAll, Reading.arguments, argument_reading arg, arguments_reading rest]

theorem namedArguments_reading : ∀ (args : List (String × Argument)) (values : Dict Value),
    evalNamed recur c machine id (Argument.linkedNamed plan args) values =
      Reading.namedArguments recur (reading c machine plan) id args values
  | [], values => by rw [Argument.linkedNamed, evalNamed]; rfl
  | (name, arg) :: rest, values => by
      rw [Argument.linkedNamed, evalNamed, Reading.namedArguments, argument_reading arg]
      congr
      funext value
      exact namedArguments_reading rest _

end

theorem application_reading (args : Arguments) (target : Callee) :
    eval recur c machine id (target.linked plan (args.linked plan)) =
      Reading.application recur (reading c machine plan) id args target := by
  rw [callee_reading, Reading.application, Arguments.linked, callArgs, Reading.allArguments, arguments_reading]
  congr
  funext values
  rw [namedArguments_reading]

theorem entity_reading (definition : Definition) :
    eval recur c machine id (definition.linkedEntity plan) =
      Reading.entity recur (reading c machine plan) id definition := by
  unfold Definition.linkedEntity Reading.entity
  cases definition.entity with
  | value v => rw [eval]
  | construct className => exact application_reading recur c machine plan id _ (.construct className)
  | invocable f => exact application_reading recur c machine plan id _ (.invocable f)
  | statement s => exact application_reading recur c machine plan id _ s.callee

theorem bind_reading (service : Value) (member : Binding) :
    bind recur c machine id service (member.linked plan) =
      Reading.bind recur (reading c machine plan) id service member := by
  cases member with
  | member name value => rw [Binding.linked, bind, Reading.bind, argument_reading]; rfl
  | extra code => rw [Binding.linked, bind, Reading.bind, argument_reading]; rfl

/-- **Machines** make services by the reading that their program was compiled with. -/
theorem create_reading (definition : Definition) :
    create recur c machine (definition.linked plan id) =
      Reading.create recur (reading c machine plan) id definition := by
  have hbind : ∀ service, (definition.bindings.map (·.linked plan)).forM
      (bind recur c machine id service) =
        definition.bindings.forM (Reading.bind recur (reading c machine plan) id service) := by
    intro service
    induction definition.bindings with
    | nil => rfl
    | cons member rest ih =>
        rw [List.map_cons, List.forM_eq_forM, List.forM_eq_forM, List.forM_cons, List.forM_cons,
          bind_reading]
        exact congrArg _ (funext fun _ => ih)
  have hbody : (definition.linked plan id).body = definition.linkedEntity plan := rfl
  have hid : (definition.linked plan id).id = id := rfl
  rw [create, Reading.create, hbody, hid, entity_reading]
  congr
  funext service
  exact congrArg (· >>= _) (hbind service)

end Machine

/-! ### Containers of a registry -/

/-- The reading that compiling fixes. -/
def Plan.reading (plan : Plan) (c : ContainerRef) : Reading where
  home := c
  catalog := plan.registry.catalog
  parameter := plan.registry.parameter
  candidates := plan.candidates
  follow name := .routine c (plan.linked name).position
  label name := (plan.linked name).id
  lazyTarget? name := (some (plan.linked name).id).filter plan.registry.isLazy

namespace Registry

variable (registry : Registry) (config : Config)

/-- A new container of the registry, of either kind. -/
inductive Starts : Container → Prop
  | interpreting (handler : NoticeHandler) :
      Starts (.interpreting (.ofRegistry registry config handler))
  | running {program : Program} (hcompile : registry.compile config = .ok program)
      (handler : NoticeHandler) :
      Starts (.running (.load program registry.catalog config.maxDepth handler))

/-- A container that was a new one of the registry, whatever it holds by now. -/
def Hosts (container : Container) : Prop :=
  ∃ start, registry.Starts config start ∧ container.bare = start.bare

def reading (c : ContainerRef) : Container → Reading
  | .interpreting _ => Interpreter.reading c registry
  | .running _ => (registry.plan config).reading c

end Registry

namespace Registry

variable {registry : Registry} {config : Config} {container : Container}

theorem Starts.hosts (h : registry.Starts config container) : registry.Hosts config container :=
  ⟨container, h, rfl⟩

namespace Hosts

theorem of_bare {other : Container} (h : registry.Hosts config container)
    (hbare : other.bare = container.bare) : registry.Hosts config other := by
  obtain ⟨start, hstart, hsame⟩ := h
  exact ⟨start, hstart, hbare.trans hsame⟩

theorem cases_kind (h : registry.Hosts config container) :
    (∃ (interpreter : Interpreter) (frozen : NameSet), container = .interpreting interpreter ∧
      interpreter.registry = { registry with frozen } ∧ interpreter.config = config) ∨
    ∃ machine : Machine, container = .running machine ∧
      registry.Compiled config machine.program ∧ machine.catalog = registry.catalog ∧
      machine.maxDepth = config.maxDepth := by
  obtain ⟨start, hstart, hbare⟩ := h
  cases hstart with
  | interpreting handler =>
      cases container with
      | running machine => cases hbare
      | interpreting interpreter =>
          have hsame := Container.interpreting.inj hbare
          have hregistry : { interpreter.registry with frozen := ∅ } =
              { registry with frozen := ∅ } := congrArg Interpreter.registry hsame
          have hconfig : interpreter.config = config := congrArg Interpreter.config hsame
          refine .inl ⟨interpreter, interpreter.registry.frozen, rfl, ?_, hconfig⟩
          exact congrArg (fun bared : Registry =>
            { bared with frozen := interpreter.registry.frozen }) hregistry
  | running hcompile handler =>
      cases container with
      | interpreting interpreter => cases hbare
      | running machine =>
          have hsame := Container.running.inj hbare
          have hprogram := congrArg Machine.program hsame
          have hcatalog := congrArg Machine.catalog hsame
          have hdepth := congrArg Machine.maxDepth hsame
          refine .inr ⟨machine, rfl, ?_, hcatalog, hdepth⟩
          exact hprogram ▸ compiled_of_compile hcompile

theorem maxDepth_eq (h : registry.Hosts config container) :
    container.maxDepth = config.maxDepth := by
  rcases h.cases_kind with ⟨interpreter, frozen, rfl, -, hconfig⟩ | ⟨machine, rfl, -, -, hdepth⟩
  · rw [Container.maxDepth, hconfig]
  · exact hdepth

theorem defines_eq (h : registry.Hosts config container) (id : String) :
    container.defines id = registry.contains id := by
  rcases h.cases_kind with ⟨interpreter, frozen, rfl, hregistry, -⟩ | ⟨machine, rfl, compiled, -⟩
  · rw [Container.defines, hregistry]
    rfl
  · rw [Container.defines, compiled.routine?_eq]
    cases registry.contains id <;> rfl

section Definition

variable {id : String} {definition : Definition}
  (hfound : registry.definition? id = some definition)

include hfound

theorem routine?_of_definition {program : Program} (compiled : registry.Compiled config program) :
    program.routine? id = some (definition.linked (registry.plan config) id) := by
  rw [compiled.routine?_eq, if_pos (contains_of_definition hfound), linked_eq hfound]

/-- **Both kinds of container** make services alike, up to how they read definitions. -/
theorem make_eq (h : registry.Hosts config container) (recur : Caller) (c : ContainerRef) :
    container.make recur c id =
      Reading.create recur (registry.reading config c container) id definition := by
  rcases h.cases_kind with ⟨interpreter, frozen, rfl, hregistry, -⟩ | ⟨machine, rfl, compiled, hcatalog, -⟩
  · have hsame : interpreter.registry.definition? id = some definition := by
      rw [hregistry]
      exact hfound
    rw [Container.make, hsame]
    dsimp only
    rw [Interpreter.create_reading, hregistry]
    rfl
  · have hreading : Machine.reading c machine (registry.plan config) =
        (registry.plan config).reading c := by
      have hparameter : machine.parameter = registry.parameter := by
        funext name
        rw [Machine.parameter, compiled.parameters_eq]
        rfl
      rw [Machine.reading, hcatalog, hparameter]
      rfl
    rw [Container.make, routine?_of_definition hfound compiled]
    dsimp only
    rw [Machine.create_reading, hreading]
    rfl

end Definition

end Hosts

end Registry
end Wiring
