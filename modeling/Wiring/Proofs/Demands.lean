import Wiring.Proofs.Candidates

/-!
# What compiling a definition demands

Compiling a definition does two things at once: it meets demands, one after the other, and it writes
down an expression. The expression depends on the plan alone. So compiling is meeting the demands in
their order and then returning the linked form (`Compiling.routine_eq`), and whatever is to be known
about the traversal can be told of a list of demands.
-/

namespace Wiring

/-- What the compiler looks up, and may have to finish first. -/
inductive Demand where
  | reference (name : String)
  | callee (name : String)
  | parameter (name : String)
  | construct (className : String) (positional : Nat)
deriving DecidableEq

def Callee.demands (positional : Nat) : Callee → List Demand
  | .invocable _ => []
  | .construct className => [.construct className positional]
  | .service name => [.callee name]
  | .method name _ => [.callee name]

section Demands

variable (members : String → List String)

mutual

/-- In the order of compilation: arguments before what they are handed to. -/
def Argument.demands : Argument → List Demand
  | .value _ => []
  | .reference target => [.reference target]
  | .parameter name => [.parameter name]
  | .collection typeName => (members typeName).map .reference
  | .statement s => s.demands
  | .list items => Argument.demandsAll items

def Statement.demands : Statement → List Demand
  | .mk callee (.mk positional named) =>
      Argument.demandsAll positional ++ Argument.demandsNamed named ++
        callee.demands positional.length

def Argument.demandsAll : List Argument → List Demand
  | [] => []
  | arg :: rest => arg.demands ++ Argument.demandsAll rest

def Argument.demandsNamed : List (String × Argument) → List Demand
  | [] => []
  | (_, arg) :: rest => arg.demands ++ Argument.demandsNamed rest

end

def Arguments.demands (args : Arguments) : List Demand :=
  Argument.demandsAll members args.positional ++ Argument.demandsNamed members args.named

def Binding.demands : Binding → List Demand
  | .member _ value => value.demands members
  | .extra code => code.demands members

namespace Definition

/-- The arguments that an entity is given, and what it gives them to. -/
def application (definition : Definition) : Arguments × Option Callee :=
  match definition.entity with
  | .value _ => (∅, none)
  | .construct className => (definition.arguments, some (.construct className))
  | .invocable f => (definition.arguments, some (.invocable f))
  | .statement s => (s.args.merged definition.arguments, some s.callee)

def entityDemands (definition : Definition) : List Demand :=
  let (args, callee) := definition.application
  args.demands members ++ (callee.map (·.demands args.positional.length)).getD []

/-- The arguments of a plain value demand nothing: they are never compiled. -/
def demands (definition : Definition) : List Demand :=
  definition.entityDemands members ++ definition.bindings.flatMap (·.demands members)

end Definition

end Demands

namespace Plan

variable (plan : Plan)

def select (name : String) : Except Error Link := (plan.target name).bind plan.link

/-- The definition to finish before the demand is met, if there is one. -/
def settle (id : String) : Demand → Except Error (Option String)
  | .reference name => (plan.select name).map fun link =>
      if plan.registry.isLazy link.id then none else some link.id
  | .callee name => (plan.select name).map fun link => some link.id
  | .parameter name => (plan.registry.parameter name).map fun _ => none
  | .construct className positional =>
      (plan.registry.catalog.ensureInstantiable id className positional).map fun _ => none

/-- The link that a name stands for; of no meaning where there is none. -/
def linked (name : String) : Link := (plan.select name).toOption.getD default

variable {plan} in
theorem linked_of_select {name : String} {link : Link} (hselect : plan.select name = .ok link) :
    plan.linked name = link := by
  rw [linked, hselect]
  rfl

def linkedReference (name : String) : Expr :=
  if plan.registry.isLazy (plan.linked name).id then .handle (plan.linked name)
  else .service (plan.linked name)

end Plan

section Linked

variable (plan : Plan)

def Callee.linked (callee : Callee) (args : ExprArgs) : Expr :=
  match callee with
  | .invocable f => .invoke f args
  | .construct className => .construct className args
  | .service name => .callService (plan.linked name) args
  | .method name call => .callMethod (plan.linked name) call args

mutual

def Argument.linked : Argument → Expr
  | .value v => .literal v
  | .reference target => plan.linkedReference target
  | .parameter name => .parameter name
  | .collection typeName => .list ((plan.candidates typeName).map plan.linkedReference)
  | .statement s => s.linked
  | .list items => .list (Argument.linkedAll items)

def Statement.linked : Statement → Expr
  | .mk callee (.mk positional named) =>
      callee.linked plan (.mk (Argument.linkedAll positional) (Argument.linkedNamed named))

def Argument.linkedAll : List Argument → List Expr
  | [] => []
  | arg :: rest => arg.linked :: Argument.linkedAll rest

def Argument.linkedNamed : List (String × Argument) → List (String × Expr)
  | [] => []
  | (name, arg) :: rest => (name, arg.linked) :: Argument.linkedNamed rest

end

def Arguments.linked (args : Arguments) : ExprArgs :=
  .mk (Argument.linkedAll plan args.positional) (Argument.linkedNamed plan args.named)

def Binding.linked : Binding → BindingOp
  | .member name value => .member name (value.linked plan)
  | .extra code => .extra (code.linked plan)

@[simp]
theorem Argument.length_linkedAll (args : List Argument) :
    (Argument.linkedAll plan args).length = args.length := by
  induction args with
  | nil => rfl
  | cons arg rest ih => simp [Argument.linkedAll, ih]

namespace Definition

def linkedEntity (definition : Definition) : Expr :=
  match definition.entity with
  | .value v => .literal v
  | .construct className => .construct className (definition.arguments.linked plan)
  | .invocable f => .invoke f (definition.arguments.linked plan)
  | .statement s => s.callee.linked plan ((s.args.merged definition.arguments).linked plan)

/-- The routine that compiling the definition gives, if it gives one. -/
def linked (definition : Definition) (id : String) : Routine where
  id
  method := (plan.methods[((plan.link id).toOption.getD default).position]?).getD ""
  visibility := if definition.flags.hidden then .hidden else .exposed
  cache := Compiling.cacheOf definition.flags
  lazy := definition.flags.lazy
  returnTypes := definition.declaredTypes plan.registry.catalog
  deprecation := definition.deprecation
  body := definition.linkedEntity plan
  bindings := definition.bindings.map (·.linked plan)
  decorators := definition.decorators

end Definition

end Linked

namespace Compiling

variable (scope : Scope) (id : String)

def finishNext : Option String → Compiling Unit
  | none => return ()
  | some next => scope.finish next

def meet (demand : Demand) : Compiling Unit := do
  finishNext scope (← lift (scope.plan.settle id demand))

/-- All of them in order; the first that cannot be met is the last one tried. -/
def meetAll (demands : List Demand) : Compiling Unit := demands.forM (meet scope id)

@[simp]
theorem lift_ok {α : Type} (a : α) : lift (.ok a) = pure a := rfl

@[simp]
theorem meetAll_nil : meetAll scope id [] = pure () := rfl

@[simp]
theorem meetAll_cons (demand : Demand) (rest : List Demand) :
    meetAll scope id (demand :: rest) =
      meet scope id demand >>= fun _ => meetAll scope id rest := rfl

theorem meetAll_singleton (demand : Demand) : meetAll scope id [demand] = meet scope id demand := by
  rw [meetAll_cons, meetAll_nil, bind_pure_unit]

@[simp]
theorem meetAll_append (demands others : List Demand) :
    meetAll scope id (demands ++ others) =
      meetAll scope id demands >>= fun _ => meetAll scope id others :=
  List.forM_append

/-- Looking a name up is selecting its link. -/
theorem target_bind_link {β : Type} (name : String) (next : String → Link → Compiling β) :
    (do
      let target ← lift (scope.plan.target name)
      let link ← lift (scope.plan.link target)
      next target link) =
    (do
      let link ← lift (scope.plan.select name)
      next link.id link) := by
  unfold Plan.select
  cases scope.plan.target name with
  | error error => rfl
  | ok target =>
      simp only [lift_ok, pure_bind]
      change _ = lift (scope.plan.link target) >>= _
      cases hlink : scope.plan.link target with
      | error error => rfl
      | ok link =>
          obtain ⟨rfl, -⟩ := Plan.position_of_link hlink
          rfl

theorem follow_eq (name : String) :
    follow scope name = meet scope id (.callee name) >>= fun _ =>
      pure (scope.plan.linked name) := by
  unfold follow
  rw [target_bind_link scope name fun target link => do scope.finish target; return link, meet,
    Plan.settle, Plan.linked]
  cases scope.plan.select name with
  | error error => rfl
  | ok link => rfl

theorem reference_eq (name : String) :
    reference scope name = meet scope id (.reference name) >>= fun _ =>
      pure (scope.plan.linkedReference name) := by
  unfold reference
  rw [target_bind_link scope name, meet, Plan.settle, Plan.linkedReference]
  cases hselect : scope.plan.select name with
  | error error => rfl
  | ok link =>
      rw [Plan.linked_of_select hselect]
      by_cases hlazy : scope.plan.registry.isLazy link.id = true
      · simp [hlazy, Except.map, finishNext]
      · simp [hlazy, Except.map, finishNext]

theorem parameter_eq (name : String) :
    (do
      let _ ← lift (scope.plan.registry.parameter name)
      return Expr.parameter name) = meetAll scope id [.parameter name] >>= fun _ =>
        pure (Expr.parameter name) := by
  rw [meetAll_cons, meetAll_nil, meet, Plan.settle]
  cases scope.plan.registry.parameter name with
  | error error => rfl
  | ok value => rfl

theorem references_eq (names : List String) :
    names.mapM (reference scope) = meetAll scope id (names.map .reference) >>= fun _ =>
      pure (names.map scope.plan.linkedReference) := by
  induction names with
  | nil => simp
  | cons name rest ih =>
      simp only [List.mapM_cons, List.map_cons, meetAll_cons, reference_eq scope id, ih, bind_assoc,
        pure_bind]

theorem callee_eq (target : Callee) (args : ExprArgs) :
    callee scope id target args =
      meetAll scope id (target.demands args.positional.length) >>= fun _ =>
        pure (target.linked scope.plan args) := by
  cases target with
  | invocable f => rfl
  | construct className =>
      simp only [callee, Callee.demands, Callee.linked, meetAll_cons, meetAll_nil, bind_assoc,
        pure_bind]
      rw [meet, Plan.settle]
      cases scope.plan.registry.catalog.ensureInstantiable id className args.positional.length with
      | error error => rfl
      | ok checked => rfl
  | service name =>
      simp only [callee, Callee.demands, Callee.linked, meetAll_cons, meetAll_nil, follow_eq scope id,
        bind_assoc, pure_bind]
  | method name method =>
      simp only [callee, Callee.demands, Callee.linked, meetAll_cons, meetAll_nil, follow_eq scope id,
        bind_assoc, pure_bind]

mutual

theorem argument_eq : ∀ arg : Argument,
    argument scope id arg = meetAll scope id (arg.demands scope.plan.candidates) >>= fun _ =>
      pure (arg.linked scope.plan)
  | .value v => by simp [argument, Argument.demands, Argument.linked]
  | .reference target => by
      simp [argument, Argument.demands, Argument.linked, reference_eq scope id]
  | .parameter name => by
      rw [argument, Argument.demands, Argument.linked, parameter_eq scope id]
  | .collection typeName => by
      simp only [argument, Argument.demands, Argument.linked, references_eq scope id, bind_assoc,
        pure_bind]
  | .statement s => by
      rw [argument, Argument.demands, Argument.linked, statement_eq s]
  | .list items => by
      simp only [argument, Argument.demands, Argument.linked, arguments_eq items, bind_assoc,
        pure_bind]

theorem statement_eq : ∀ s : Statement,
    statement scope id s = meetAll scope id (s.demands scope.plan.candidates) >>= fun _ =>
      pure (s.linked scope.plan)
  | .mk target (.mk positional named) => by
      simp only [statement, Statement.demands, Statement.linked, arguments_eq positional,
        namedArguments_eq named, callee_eq, meetAll_append, bind_assoc, pure_bind,
        ExprArgs.positional, Argument.length_linkedAll]

theorem arguments_eq : ∀ args : List Argument,
    arguments scope id args =
      meetAll scope id (Argument.demandsAll scope.plan.candidates args) >>= fun _ =>
        pure (Argument.linkedAll scope.plan args)
  | [] => by simp [arguments, Argument.demandsAll, Argument.linkedAll]
  | arg :: rest => by
      simp only [arguments, Argument.demandsAll, Argument.linkedAll, argument_eq arg,
        arguments_eq rest, meetAll_append, bind_assoc, pure_bind]

theorem namedArguments_eq : ∀ args : List (String × Argument),
    namedArguments scope id args =
      meetAll scope id (Argument.demandsNamed scope.plan.candidates args) >>= fun _ =>
        pure (Argument.linkedNamed scope.plan args)
  | [] => by simp [namedArguments, Argument.demandsNamed, Argument.linkedNamed]
  | (name, arg) :: rest => by
      simp only [namedArguments, Argument.demandsNamed, Argument.linkedNamed, argument_eq arg,
        namedArguments_eq rest, meetAll_append, bind_assoc, pure_bind]

end

theorem allArguments_eq (args : Arguments) :
    allArguments scope id args =
      meetAll scope id (args.demands scope.plan.candidates) >>= fun _ =>
        pure (args.linked scope.plan) := by
  simp only [allArguments, Arguments.demands, Arguments.linked, arguments_eq, namedArguments_eq,
    meetAll_append, bind_assoc, pure_bind]

theorem entity_eq (definition : Definition) :
    entity scope id definition =
      meetAll scope id (definition.entityDemands scope.plan.candidates) >>= fun _ =>
        pure (definition.linkedEntity scope.plan) := by
  unfold entity Definition.entityDemands Definition.application Definition.linkedEntity
  cases definition.entity with
  | value v => rfl
  | construct className =>
      simp [allArguments_eq, callee_eq, Callee.linked, Arguments.linked, ExprArgs.positional]
  | invocable f => simp [allArguments_eq, Callee.demands]
  | statement s => simp [allArguments_eq, callee_eq, Arguments.linked, ExprArgs.positional]

theorem binding_eq (member : Binding) :
    binding scope id member =
      meetAll scope id (member.demands scope.plan.candidates) >>= fun _ =>
        pure (member.linked scope.plan) := by
  cases member with
  | member name value => simp [binding, Binding.demands, Binding.linked, argument_eq]
  | extra code => simp [binding, Binding.demands, Binding.linked, argument_eq]

theorem bindings_eq (bindings : List Binding) :
    bindings.mapM (binding scope id) =
      meetAll scope id (bindings.flatMap (·.demands scope.plan.candidates)) >>= fun _ =>
        pure (bindings.map (·.linked scope.plan)) := by
  induction bindings with
  | nil => simp
  | cons first rest ih =>
      simp only [List.mapM_cons, List.map_cons, List.flatMap_cons, meetAll_append, binding_eq, ih,
        bind_assoc, pure_bind]

/-- **Compiling is meeting demands.** The routine itself depends on the plan alone. -/
theorem routine_eq (definition : Definition) (hid : id ∈ scope.plan.ids) :
    routine scope id definition =
      meetAll scope id (definition.demands scope.plan.candidates) >>= fun _ =>
        pure (definition.linked scope.plan id) := by
  obtain ⟨position, hlink⟩ := Plan.link_isOk_of_mem hid
  simp only [routine, Definition.demands, Definition.linked, entity_eq, bindings_eq, meetAll_append,
    bind_assoc, pure_bind, hlink, lift_ok, Except.toOption, Option.getD_some]

end Compiling
end Wiring
