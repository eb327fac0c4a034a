import Wiring.Proofs.Surfaces

/-!
# The links of a program

Where a definition has names, its routine has links. A link leads to the routine of the definition
that an interpreter selects for the name, unless an alias is named like a definition. What definitions
may ask a container for besides is the same in both kinds, unless an alias leads to something private.
-/

namespace Wiring

mutual

/-- In the order in which they were compiled. -/
def Expr.links : Expr → List Link
  | .literal _ => []
  | .construct _ args => args.links
  | .invoke _ args => args.links
  | .callService service args => args.links ++ [service]
  | .callMethod service _ args => args.links ++ [service]
  | .service link => [link]
  | .handle link => [link]
  | .parameter _ => []
  | .list items => Expr.linksAll items

def ExprArgs.links : ExprArgs → List Link
  | .mk positional named => Expr.linksAll positional ++ Expr.linksNamed named

def Expr.linksAll : List Expr → List Link
  | [] => []
  | item :: rest => item.links ++ Expr.linksAll rest

def Expr.linksNamed : List (String × Expr) → List Link
  | [] => []
  | (_, item) :: rest => item.links ++ Expr.linksNamed rest

end

def BindingOp.links : BindingOp → List Link
  | .member _ value => value.links
  | .extra code => code.links

def Routine.links (routine : Routine) : List Link :=
  routine.body.links ++ routine.bindings.flatMap BindingOp.links

namespace Demand

/-- References and callees have to be looked up. -/
def name? : Demand → Option String
  | .reference name => some name
  | .callee name => some name
  | .parameter _ => none
  | .construct .. => none

def names (demands : List Demand) : List String := demands.filterMap name?

@[simp]
theorem names_append (demands others : List Demand) :
    names (demands ++ others) = names demands ++ names others :=
  List.filterMap_append

theorem names_references (members : List String) : names (members.map .reference) = members := by
  induction members with
  | nil => rfl
  | cons first rest ih => exact congrArg (first :: ·) ih

end Demand

/-- References, collected services and callees, wherever they stand in the definition. -/
def Definition.names (definition : Definition) (members : String → List String) : List String :=
  Demand.names (definition.demands members)

namespace Plan

variable {plan : Plan} {name : String}

/-- A demand that was met has found what it names. -/
theorem select_of_settle {id : String} {demand : Demand} (hname : demand.name? = some name)
    {found : Option String} (hsettle : plan.settle id demand = .ok found) :
    ∃ link, plan.select name = .ok link := by
  cases demand with
  | reference other =>
      obtain rfl : other = name := Option.some.inj hname
      obtain ⟨link, hselect, -⟩ := map_eq_ok hsettle
      exact ⟨link, hselect⟩
  | callee other =>
      obtain rfl : other = name := Option.some.inj hname
      obtain ⟨link, hselect, -⟩ := map_eq_ok hsettle
      exact ⟨link, hselect⟩
  | parameter other => cases hname
  | construct className positional => cases hname

end Plan

section Linked

variable (plan : Plan)

theorem Plan.links_linkedReference (name : String) :
    (plan.linkedReference name).links = [plan.linked name] := by
  unfold linkedReference
  split <;> rfl

theorem Callee.links_linked (callee : Callee) (args : ExprArgs) :
    (callee.linked plan args).links =
      args.links ++ (Demand.names (callee.demands args.positional.length)).map plan.linked := by
  cases callee with
  | invocable f => simp [linked, demands, Expr.links, Demand.names]
  | construct className => simp [linked, demands, Expr.links, Demand.names, Demand.name?]
  | service name => simp [linked, demands, Expr.links, Demand.names, Demand.name?]
  | method name method => simp [linked, demands, Expr.links, Demand.names, Demand.name?]

theorem Plan.linksAll_references (names : List String) :
    Expr.linksAll (names.map plan.linkedReference) = names.map plan.linked := by
  induction names with
  | nil => rfl
  | cons first rest ih =>
      rw [List.map_cons, Expr.linksAll, plan.links_linkedReference, ih]
      rfl

mutual

theorem Argument.links_linked : ∀ arg : Argument,
    (arg.linked plan).links = (Demand.names (arg.demands plan.candidates)).map plan.linked
  | .value v => rfl
  | .reference target => plan.links_linkedReference target
  | .parameter name => rfl
  | .collection typeName => by
      rw [Argument.linked, Argument.demands, Demand.names_references, Expr.links]
      exact plan.linksAll_references _
  | .statement s => by
      rw [Argument.linked, Argument.demands, Statement.links_linked s]
  | .list items => by
      rw [Argument.linked, Argument.demands, Expr.links, Argument.linksAll_linked items]

theorem Statement.links_linked : ∀ s : Statement,
    (s.linked plan).links = (Demand.names (s.demands plan.candidates)).map plan.linked
  | .mk callee (.mk positional named) => by
      rw [Statement.linked, Statement.demands, Callee.links_linked, ExprArgs.links,
        Argument.linksAll_linked positional, Argument.linksNamed_linked named, ExprArgs.positional,
        Argument.length_linkedAll]
      simp only [Demand.names_append, List.map_append]

theorem Argument.linksAll_linked : ∀ args : List Argument,
    Expr.linksAll (Argument.linkedAll plan args) =
      (Demand.names (Argument.demandsAll plan.candidates args)).map plan.linked
  | [] => rfl
  | arg :: rest => by
      rw [Argument.linkedAll, Argument.demandsAll, Expr.linksAll, Argument.links_linked arg,
        Argument.linksAll_linked rest, Demand.names_append, List.map_append]

theorem Argument.linksNamed_linked : ∀ args : List (String × Argument),
    Expr.linksNamed (Argument.linkedNamed plan args) =
      (Demand.names (Argument.demandsNamed plan.candidates args)).map plan.linked
  | [] => rfl
  | (_, arg) :: rest => by
      rw [Argument.linkedNamed, Argument.demandsNamed, Expr.linksNamed, Argument.links_linked arg,
        Argument.linksNamed_linked rest, Demand.names_append, List.map_append]

end

theorem Arguments.links_linked (args : Arguments) :
    (args.linked plan).links = (Demand.names (args.demands plan.candidates)).map plan.linked := by
  rw [Arguments.linked, Arguments.demands, ExprArgs.links, Argument.linksAll_linked,
    Argument.linksNamed_linked, Demand.names_append, List.map_append]

namespace Definition

theorem links_linkedEntity (definition : Definition) :
    (definition.linkedEntity plan).links =
      (Demand.names (definition.entityDemands plan.candidates)).map plan.linked := by
  have happlication : ∀ (args : Arguments) (callee : Callee),
      (callee.linked plan (args.linked plan)).links =
        (Demand.names (args.demands plan.candidates ++
          callee.demands args.positional.length)).map plan.linked := by
    intro args callee
    rw [Callee.links_linked, Arguments.links_linked, Demand.names_append, List.map_append,
      Arguments.linked, ExprArgs.positional, Argument.length_linkedAll]
  unfold linkedEntity entityDemands application
  cases definition.entity with
  | value v => rfl
  | construct className => exact happlication definition.arguments (.construct className)
  | invocable f => exact happlication definition.arguments (.invocable f)
  | statement s => exact happlication (s.args.merged definition.arguments) s.callee

/-- **Each name has its link**, in the order of compilation. -/
theorem links_linked (definition : Definition) (id : String) :
    (definition.linked plan id).links = (definition.names plan.candidates).map plan.linked := by
  have hbindings : ∀ bindings : List Binding,
      (bindings.map (·.linked plan)).flatMap BindingOp.links =
        (Demand.names (bindings.flatMap (·.demands plan.candidates))).map plan.linked := by
    intro bindings
    induction bindings with
    | nil => rfl
    | cons first rest ih =>
        have hfirst : (first.linked plan).links =
            (Demand.names (first.demands plan.candidates)).map plan.linked := by
          cases first with
          | member name value => exact value.links_linked plan
          | extra code => exact code.links_linked plan
        rw [List.map_cons, List.flatMap_cons, List.flatMap_cons, ih, hfirst, Demand.names_append,
          List.map_append]
  rw [Routine.links, names, demands, Demand.names_append, List.map_append, ← links_linkedEntity,
    ← hbindings]
  rfl

end Definition

end Linked

namespace Registry

variable {registry : Registry} {config : Config} {program : Program} {interpreter : Interpreter}
  {machine : Machine}

/-- A name of a definition is taken to the same definition at run time and in the program, lazy or
not. -/
structure LeadsTo (program : Program) (interpreter : Interpreter) (name : String) (link : Link) :
    Prop where
  routine : ∃ routine, program.routines[link.position]? = some routine ∧ routine.id = link.id
  selected : ∀ (options : ResolveOptions) (depth : Nat),
    (Container.interpreting interpreter).select options (depth + 2) false name =
      some (.definition link.id)
  handle : interpreter.registry.lazyTarget? name =
    (some link.id).filter interpreter.registry.isLazy

section LeadsTo

variable (indexed : registry.Indexed)
  (free : ∀ id, registry.contains id → registry.aliases.target? id = none)

include indexed

theorem candidates_of_target {name id : String}
    (habsent : registry.definition? (registry.resolveAlias name) = none)
    (htarget : (registry.plan config).target name = .ok id) :
    registry.candidates (registry.resolveAlias name) = [id] := by
  rw [Plan.target_of_absent habsent] at htarget
  have hperm := Plan.candidates_perm registry config.maxDepth indexed (registry.resolveAlias name)
  split at htarget
  · cases htarget
  · next only hcandidates =>
      obtain rfl : only = id := Except.ok.inj htarget
      rw [hcandidates] at hperm
      exact hperm.singleton_eq.symm
  · cases htarget

theorem lazyTarget_of_target {name id : String}
    (htarget : (registry.plan config).target name = .ok id) :
    registry.lazyTarget? name = (some id).filter registry.isLazy := by
  unfold lazyTarget?
  dsimp only
  cases hfound : registry.definition? (registry.resolveAlias name) with
  | some definition =>
      have hcontains := contains_of_definition hfound
      rw [Plan.target_of_contains hcontains] at htarget
      obtain rfl := Except.ok.inj htarget
      rw [if_pos hcontains]
  | none =>
      have hsole := candidates_of_target indexed hfound htarget
      rw [contains_of_undefined hfound, hsole]
      rfl

include free

omit indexed in
theorem lookup_of_free {id : String} (hid : registry.contains id) :
    registry.lookup false id = .definition id := by
  obtain ⟨definition, hfound⟩ := Option.isSome_iff_exists.mp hid
  have hend : registry.resolveAlias id = id := AliasTable.resolve_of_free (free id hid)
  rw [← hend] at hfound
  rw [lookup_of_definition hfound, hend]
  rfl

/-- What the compiler finds the interpreter selects, directly or as the sole service of a type. -/
theorem select_of_target (served : registry.Served program interpreter machine) {name id : String}
    (htarget : (registry.plan config).target name = .ok id) (options : ResolveOptions) (depth : Nat) :
    (Container.interpreting interpreter).select options (depth + 2) false name =
      some (.definition id) := by
  have hlookup : ∀ name, (Container.interpreting interpreter).lookup false name =
      registry.lookup false name := served.lookup false
  have hid := Plan.contains_of_target registry config.maxDepth htarget
  cases hfound : registry.definition? (registry.resolveAlias name) with
  | some definition =>
      rw [Plan.target_of_contains (contains_of_definition hfound)] at htarget
      obtain rfl := Except.ok.inj htarget
      rw [Container.select, hlookup, lookup_of_definition hfound]
      rfl
  | none =>
      have hsole := candidates_of_target indexed hfound htarget
      rw [Container.select, hlookup, lookup_of_undefined hfound, hsole]
      change (Container.interpreting interpreter).select options (depth + 1) false id = _
      rw [Container.select, hlookup, lookup_of_free free hid]

theorem leadsTo_linked (compiled : registry.Compiled config program)
    (served : registry.Served program interpreter machine) {id : String} {demand : Demand}
    {name : String} (hname : demand.name? = some name) {found : Option String}
    (hsettle : (registry.plan config).settle id demand = .ok found) :
    LeadsTo program interpreter name ((registry.plan config).linked name) := by
  obtain ⟨link, hselect⟩ := Plan.select_of_settle hname hsettle
  obtain ⟨htarget, hposition⟩ := Plan.select_eq_ok hselect
  have hread : interpreter.registry.lazyTarget? name = registry.lazyTarget? name ∧
      interpreter.registry.isLazy = registry.isLazy := by
    obtain ⟨frozen, tags, hregistry⟩ := served.registry_eq
    rw [hregistry]
    exact ⟨rfl, rfl⟩
  rw [Plan.linked_of_select hselect]
  constructor
  · obtain ⟨definition, hfound, hroutine⟩ := compiled.routine_at hposition
    exact ⟨_, hroutine, rfl⟩
  · exact select_of_target indexed free served htarget
  · rw [hread.1, hread.2]
    exact lazyTarget_of_target indexed htarget

end LeadsTo

/-! ### What else definitions may ask for -/

/-- Both kinds list the same services under a tag, with the same attributes. -/
theorem Served.tagged_perm (compiled : registry.Compiled config program)
    (served : registry.Served program interpreter machine) (tag : String) :
    (interpreter.registry.tagged tag).Perm (machine.tagged tag) := by
  rcases served.tags with ⟨hhere, hthere⟩ | ⟨hhere, hthere⟩
  · have htags : program.tags = Program.tagTable registry.tags := by
      rw [compiled.program_eq]
      rfl
    rw [Registry.tagged, Machine.tagged, hhere, hthere, htags]
    exact (Program.entries_tagTable_perm registry.tags tag).symm
  · rw [Registry.tagged, Machine.tagged, hhere, hthere]
    exact .refl _

/-- Both kinds ask their cache for the same id. -/
theorem Served.initialized_eq (compiled : registry.Compiled config program)
    (served : registry.Served program interpreter machine)
    (exposed : ∀ name, registry.aliases.contains name →
      registry.isHidden (registry.resolveAlias name) = false) (name : String) :
    interpreter.initialized name = interpreter.services.contains (registry.resolveAlias name) ∧
      machine.initialized name = (machine.services.contains (registry.resolveAlias name) ||
        machine.privates.contains (registry.resolveAlias name)) := by
  constructor
  · obtain ⟨frozen, tags, hregistry⟩ := served.registry_eq
    rw [Interpreter.initialized, hregistry]
    rfl
  · rw [Machine.initialized, served.canonical_of_exposed compiled (exposed name)]

/-- Each name in a definition has its link, and the link leads to where the interpreter takes the
name. -/
structure LinkedAlike (registry : Registry) (program : Program) (interpreter : Interpreter)
    (machine : Machine) : Prop where
  candidates : ∀ typeName, (registry.candidates typeName).Perm (machine.candidates typeName)
  names : ∀ {id : String} {definition : Definition}, registry.definition? id = some definition →
    ∃ routine ∈ program.routines, routine.id = id ∧
      List.Forall₂ (LeadsTo program interpreter) (definition.names machine.candidates) routine.links

/-- What definitions may ask a container for, by whatever name, is answered for the same
definitions. -/
structure ReferredAlike (interpreter : Interpreter) (machine : Machine) : Prop where
  reference : ∀ (name : String) (options : ResolveOptions) (depth : Nat),
    Option.Rel Selection.Alike ((Container.interpreting interpreter).select options depth false name)
      ((Container.running machine).select options depth false name)
  initialized : ∀ name, ∃ id, interpreter.initialized name = interpreter.services.contains id ∧
    machine.initialized name = (machine.services.contains id || machine.privates.contains id)
  tagged : ∀ tag, (interpreter.registry.tagged tag).Perm (machine.tagged tag)

/-- **Definitions are served alike.** The links of a program lead to where an interpreter takes the
names that they come from, if no alias is named like a definition. Whatever else definitions may ask
for selects the same in both kinds of container, if no alias leads to something private. -/
theorem internal_surfaces_agree (reachable : registry.Reachable)
    (hcompile : registry.compile config = .ok program)
    (served : registry.Served program interpreter machine) :
    ((∀ id, registry.contains id → registry.aliases.target? id = none) →
      registry.LinkedAlike program interpreter machine) ∧
    ((∀ name, registry.aliases.contains name →
        registry.isHidden (registry.resolveAlias name) = false) →
      ReferredAlike interpreter machine) := by
  have compiled := compiled_of_compile hcompile
  have indexed := reachable.indexed
  constructor
  · intro free
    refine ⟨served.candidates_perm compiled indexed, fun {id definition} hfound => ?_⟩
    have hcandidates : machine.candidates = (registry.plan config).candidates := by
      funext typeName
      rw [Machine.candidates, served.program_eq, compiled.candidates_eq]
    refine ⟨definition.linked (registry.plan config) id, ?_, rfl, ?_⟩
    · rw [compiled.routines_eq, ← linked_eq hfound]
      exact List.mem_map_of_mem (Plan.mem_ids_of_definition registry config.maxDepth hfound)
    · rw [definition.links_linked, hcandidates, List.forall₂_map_right_iff, List.forall₂_same]
      intro name hname
      obtain ⟨demand, hdemand, hcalled⟩ := List.mem_filterMap.mp hname
      obtain ⟨found, hsettle⟩ := compiled.met hfound demand hdemand
      exact leadsTo_linked indexed free compiled served hcalled hsettle
  · intro exposed
    have hlookup : ∀ name, True → ((Container.interpreting interpreter).lookup false name).Alike
        ((Container.running machine).lookup false name) := by
      intro name _
      change (interpreter.registry.lookup false name).Alike (machine.internalLookup name)
      rw [served.lookup]
      exact served.internalLookup_alike compiled indexed
        (served.canonical_of_exposed compiled (exposed name))
    refine ⟨fun name options depth => ?_, fun name => ?_, served.tagged_perm compiled⟩
    · exact Container.select_rel (fun _ _ _ => trivial) (fun _ _ _ => trivial) hlookup
        (hlookup name trivial)
    · exact ⟨_, served.initialized_eq compiled exposed name⟩

/-- An alias for the public service stands in nobody's way. -/
theorem aliased_internal_surfaces :
    (aliased "x" "q").LinkedAlike (aliasedProgram "x" "q") (aliasedInterpreting "x" "q")
        (aliasedRunning "x" "q") ∧
      ReferredAlike (aliasedInterpreting "x" "q") (aliasedRunning "x" "q") := by
  have hcompile : (aliased "x" "q").compile {} = .ok (aliasedProgram "x" "q") := rfl
  have served := served_fresh (aliased "x" "q") (aliasedProgram "x" "q") {} (aliased "x" "q").catalog
    100 .silent
  have haliases := aliased_aliases "q" rfl (by decide)
  obtain ⟨hlinked, hreferred⟩ :=
    internal_surfaces_agree (aliased_reachable "x" "q") hcompile served
  refine ⟨hlinked fun id hid => ?_, hreferred fun name hname => ?_⟩
  · rw [(haliases id).1]
    by_cases here : id = "x"
    · subst here
      cases hid
    · exact if_neg here
  · have hfound : ((aliased "x" "q").aliases.target? name).isSome := hname
    rw [(haliases name).1] at hfound
    by_cases here : name = "x"
    · rw [(haliases name).2, if_pos here]
      rfl
    · simp [here] at hfound

/-- An alias for the private service is followed by the interpreter alone. And where an alias of that
kind is named like the sole service of a type, the program's own links do not follow it either. -/
theorem alias_parts_references :
    ((aliased "x" "p").Reachable ∧ (aliased "x" "p").compile {} = .ok (aliasedProgram "x" "p") ∧
      (Call.run 2 (.resolve ⟨0⟩ "x" {})
        { containers := #[some (.interpreting (aliasedInterpreting "x" "p"))] }).1 = .ok (.int 1) ∧
      (Call.run 2 (.resolve ⟨0⟩ "x" {})
        { containers := #[some (.running (aliasedRunning "x" "p"))] }).1 =
          .error (.error (.notFound "x"))) ∧
    (aliased "q" "p").Reachable ∧ (aliased "q" "p").compile {} = .ok (aliasedProgram "q" "p") ∧
      (Call.run 4 (.get ⟨0⟩ "r" {})
        { containers := #[some (.interpreting (aliasedInterpreting "q" "p"))] }).1 = .ok (.int 1) ∧
      (Call.run 4 (.get ⟨0⟩ "r" {})
        { containers := #[some (.running (aliasedRunning "q" "p"))] }).1 = .ok (.int 2) :=
  ⟨⟨aliased_reachable "x" "p", rfl, rfl, rfl⟩, aliased_reachable "q" "p", rfl, rfl, rfl⟩

end Registry
end Wiring
