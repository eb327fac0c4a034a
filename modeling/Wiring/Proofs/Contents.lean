import Wiring.Proofs.Exports

/-!
# The order of registration

What is registered can be asked for one thing at a time: the definition of an id, the target of an
alias, the attributes of a service under a tag, a parameter, a class, and whether a type is excluded.
Registries that answer alike may keep their tables in different orders, and may have indexed their
types in different orders. No order is left in what is compiled: whatever the compiler reads in a
row it has sorted before, and everything else it looks up.
-/

namespace Wiring

/-- What can be registered, one thing at a time. -/
inductive Item where
  | definition (id : String)
  | aliasTarget (name : String)
  | attributes (id tag : String)
  | parameter (name : String)
  | classSpec (name : String)
  | exclusion (typeName : String)
deriving DecidableEq

abbrev Item.Value : Item → Type
  | .definition _ => Definition
  | .aliasTarget _ => String
  | .attributes _ _ => Wiring.Value
  | .parameter _ => Wiring.Value
  | .classSpec _ => ClassSpec
  | .exclusion _ => Unit

abbrev Contents := (item : Item) → Option item.Value

def Registry.content (registry : Registry) : Contents
  | .definition id => registry.definition? id
  | .aliasTarget name => registry.aliases.target? name
  | .attributes id tag => (registry.tags.get? id).bind (·.get? tag)
  | .parameter name => registry.parameters.get? name
  | .classSpec name => registry.catalog.class? name
  | .exclusion typeName => registry.types.excluded.get? typeName

/-! ### Tables without their order -/

theorem Table.get?_insert_comm {α : Type} (table : Table α) {first second : String}
    (hne : first ≠ second) (here there : α) (key : String) :
    ((table.insert first here).insert second there).get? key =
      ((table.insert second there).insert first here).get? key := by
  simp only [Table.get?_insert]
  split <;> split <;> simp_all

namespace AliasTable

variable {table other : AliasTable} (same : ∀ name, table.target? name = other.target? name)

include same

theorem size_congr : table.size = other.size :=
  (table.targets.distinct.perm_of_lookup other.targets.distinct same).length_eq

theorem follow_congr (hops : Nat) (name : String) :
    table.follow hops name = other.follow hops name := by
  induction hops generalizing name with
  | zero => rfl
  | succ hops ih =>
      rw [follow, follow, same]
      cases other.target? name with
      | none => rfl
      | some target => exact ih target

theorem resolve_congr (name : String) : table.resolve name = other.resolve name := by
  rw [resolve, resolve, size_congr same, follow_congr same]

theorem flatten_congr : table.flatten = other.flatten := by
  apply Dict.eq_of_get?
  intro name
  have hcontains : table.contains name = other.contains name := congrArg Option.isSome (same name)
  rw [get?_flatten, get?_flatten, hcontains, resolve_congr same]

end AliasTable

namespace Program

/-- No tag is listed without a service. -/
def Peopled (table : Dict (Dict Value)) : Prop :=
  ∀ tag services, table.get? tag = some services → ∃ id value, services.get? id = some value

theorem Peopled.insert {table : Dict (Dict Value)} (peopled : Peopled table) (tag id : String)
    (services : Dict Value) (value : Value) :
    Peopled (table.insert tag (services.insert id value)) := by
  intro other held hheld
  rw [Dict.get?_insert] at hheld
  split at hheld
  · obtain rfl := Option.some.inj hheld
    exact ⟨id, value, Dict.get?_insert_self _ _ _⟩
  · exact peopled other held hheld

theorem peopled_tagTable (tags : Table (Table Value)) : Peopled (tagTable tags) := by
  have hservice : ∀ (id : String) (entries : List (String × Value)) (table : Dict (Dict Value)),
      Peopled table → Peopled (entries.foldl (fun (table : Dict (Dict Value)) tag =>
        table.insert tag.1 (((table.get? tag.1).getD ∅).insert id tag.2)) table) := by
    intro id entries table peopled
    exact List.foldlRecOn entries _ peopled fun _ kept _ _ => kept.insert _ _ _ _
  have hempty : Peopled ∅ := fun tag services hfound => by cases hfound
  exact List.foldlRecOn tags.entries _ hempty fun _ kept service _ => hservice _ _ _ kept

theorem eq_of_attributes? {table other : Dict (Dict Value)} (peopled : Peopled table)
    (peopled' : Peopled other)
    (same : ∀ tag id, attributes? table tag id = attributes? other tag id) : table = other := by
  apply Dict.eq_of_get?
  intro tag
  have hsame : ∀ id, ((table.get? tag).getD ∅).get? id = ((other.get? tag).getD ∅).get? id := same tag
  cases hhere : table.get? tag with
  | none =>
      cases hthere : other.get? tag with
      | none => rfl
      | some services =>
          obtain ⟨id, value, hvalue⟩ := peopled' tag services hthere
          have habsent := hsame id
          rw [hhere, hthere, Option.getD_some, hvalue] at habsent
          cases habsent
  | some services =>
      cases hthere : other.get? tag with
      | none =>
          obtain ⟨id, value, hvalue⟩ := peopled tag services hhere
          have habsent := hsame id
          rw [hhere, hthere, Option.getD_some, hvalue] at habsent
          cases habsent
      | some others =>
          rw [hhere, hthere] at hsame
          exact congrArg some (Dict.eq_of_get? hsame)

theorem attributes?_tagTable (tags : Table (Table Value)) (tag id : String) :
    attributes? (tagTable tags) tag id = (tags.get? id).bind (·.get? tag) := by
  have hlisted := attributes?_services tags.distinct ∅ tag id
  have hempty : attributes? ∅ tag id = none := rfl
  rwa [hempty, Option.or_none] at hlisted

theorem tagTable_congr {tags others : Table (Table Value)}
    (same : ∀ id tag, (tags.get? id).bind (·.get? tag) = (others.get? id).bind (·.get? tag)) :
    tagTable tags = tagTable others := by
  refine eq_of_attributes? (peopled_tagTable tags) (peopled_tagTable others) fun tag id => ?_
  rw [attributes?_tagTable, attributes?_tagTable, same]

end Program

/-! ### Plans that answer alike -/

namespace Plan

/-- The two plans answer alike whatever the compiler may ask. -/
structure Alike (plan other : Plan) : Prop where
  maxDepth : plan.maxDepth = other.maxDepth
  ids : plan.ids = other.ids
  methods : plan.methods = other.methods
  types : plan.types = other.types
  definition? : plan.registry.definition? = other.registry.definition?
  resolveAlias : plan.registry.resolveAlias = other.registry.resolveAlias
  parameters : plan.registry.parameters = other.registry.parameters
  catalog : plan.registry.catalog = other.registry.catalog

namespace Alike

variable {plan other : Plan} (alike : plan.Alike other)

include alike

theorem isHidden : plan.registry.isHidden = other.registry.isHidden := by
  funext id
  rw [Registry.isHidden, Registry.isHidden, alike.definition?]

theorem isLazy : plan.registry.isLazy = other.registry.isLazy := by
  funext id
  rw [Registry.isLazy, Registry.isLazy, alike.definition?]

theorem candidates : plan.candidates = other.candidates := by
  funext typeName
  rw [Plan.candidates, Plan.candidates, alike.types, alike.isHidden]

theorem target : plan.target = other.target := by
  funext name
  have hcontains : plan.registry.contains = other.registry.contains := by
    funext id
    exact congrArg Option.isSome (congrFun alike.definition? id)
  rw [Plan.target, Plan.target, alike.resolveAlias, hcontains, alike.candidates]

theorem link : plan.link = other.link := by
  funext id
  rw [Plan.link, Plan.link, alike.ids]

theorem select : plan.select = other.select := by
  funext name
  rw [Plan.select, Plan.select, alike.target, alike.link]

theorem settle (id : String) : plan.settle id = other.settle id := by
  have hparameter : plan.registry.parameter = other.registry.parameter := by
    funext name
    rw [Registry.parameter, Registry.parameter, alike.parameters]
  funext demand
  cases demand with
  | reference name => rw [Plan.settle, Plan.settle, alike.select, alike.isLazy]
  | callee name => rw [Plan.settle, Plan.settle, alike.select]
  | parameter name => rw [Plan.settle, Plan.settle, hparameter]
  | construct className positional => rw [Plan.settle, Plan.settle, alike.catalog]

theorem linked : plan.linked = other.linked := by
  funext name
  rw [Plan.linked, Plan.linked, alike.select]

theorem linkedReference : plan.linkedReference = other.linkedReference := by
  funext name
  rw [Plan.linkedReference, Plan.linkedReference, alike.linked, alike.isLazy]

theorem linked_callee (callee : Callee) (args : ExprArgs) :
    callee.linked plan args = callee.linked other args := by
  cases callee with
  | invocable f => rfl
  | construct className => rfl
  | service name => rw [Callee.linked, Callee.linked, alike.linked]
  | method name method => rw [Callee.linked, Callee.linked, alike.linked]

omit alike

mutual

theorem linked_argument (alike : plan.Alike other) : ∀ arg : Argument,
    arg.linked plan = arg.linked other
  | .value v => rfl
  | .reference target => congrFun alike.linkedReference target
  | .parameter name => rfl
  | .collection typeName => by
      rw [Argument.linked, Argument.linked, alike.candidates, alike.linkedReference]
  | .statement s => by rw [Argument.linked, Argument.linked, alike.linked_statement s]
  | .list items => by rw [Argument.linked, Argument.linked, alike.linked_all items]

theorem linked_statement (alike : plan.Alike other) : ∀ s : Statement,
    s.linked plan = s.linked other
  | .mk callee (.mk positional named) => by
      rw [Statement.linked, Statement.linked, alike.linked_all positional,
        alike.linked_named named, alike.linked_callee]

theorem linked_all (alike : plan.Alike other) : ∀ args : List Argument,
    Argument.linkedAll plan args = Argument.linkedAll other args
  | [] => rfl
  | arg :: rest => by
      rw [Argument.linkedAll, Argument.linkedAll, alike.linked_argument arg, alike.linked_all rest]

theorem linked_named (alike : plan.Alike other) : ∀ args : List (String × Argument),
    Argument.linkedNamed plan args = Argument.linkedNamed other args
  | [] => rfl
  | (_, arg) :: rest => by
      rw [Argument.linkedNamed, Argument.linkedNamed, alike.linked_argument arg,
        alike.linked_named rest]

end

include alike

theorem linked_arguments (args : Arguments) : args.linked plan = args.linked other := by
  rw [Arguments.linked, Arguments.linked, alike.linked_all, alike.linked_named]

theorem linked_definition (definition : Definition) (id : String) :
    definition.linked plan id = definition.linked other id := by
  have hentity : definition.linkedEntity plan = definition.linkedEntity other := by
    unfold Definition.linkedEntity
    cases definition.entity with
    | value v => rfl
    | construct className => exact congrArg _ (alike.linked_arguments _)
    | invocable f => exact congrArg _ (alike.linked_arguments _)
    | statement s => dsimp only; rw [alike.linked_arguments, alike.linked_callee]
  have hbindings : definition.bindings.map (·.linked plan) =
      definition.bindings.map (·.linked other) := by
    refine List.map_congr_left fun binding _ => ?_
    cases binding with
    | member name value => exact congrArg _ (alike.linked_argument value)
    | extra code => exact congrArg _ (alike.linked_argument code)
  rw [Definition.linked, Definition.linked, hentity, hbindings, alike.methods, alike.link,
    alike.catalog]

end Alike

end Plan

namespace Compiling

variable {plan other : Plan}

theorem meetAll_congr (alike : plan.Alike other) (finish : String → Compiling Unit) (id : String)
    (demands : List Demand) :
    meetAll ⟨plan, finish⟩ id demands = meetAll ⟨other, finish⟩ id demands := by
  induction demands with
  | nil => rfl
  | cons demand rest ih =>
      rw [meetAll_cons, meetAll_cons, ih, meet, meet, alike.settle]
      rfl

/-- Each call of the walk goes the same way. -/
theorem finish_congr (alike : plan.Alike other)
    (hids : ∀ id definition, plan.registry.definition? id = some definition → id ∈ plan.ids)
    (calls : Nat) (chain : List String) : finish plan calls chain = finish other calls chain := by
  induction calls generalizing chain with
  | zero => rfl
  | succ calls ih =>
      funext id finished
      by_cases hdone : finished.contains id
      · rw [finish_done hdone, finish_done hdone]
      · cases hfound : plan.registry.definition? id with
        | none =>
            have hfound' := alike.definition? ▸ hfound
            rw [finish_undefined hdone hfound, finish_undefined hdone hfound']
        | some definition =>
            have hfound' := alike.definition? ▸ hfound
            cases henter : Chain.enter plan.maxDepth chain id with
            | error error =>
                have henter' := alike.maxDepth ▸ henter
                rw [finish_refused hdone hfound henter, finish_refused hdone hfound' henter']
            | ok longer =>
                have henter' := alike.maxDepth ▸ henter
                have hid := hids id definition hfound
                rw [finish_new hdone hid hfound henter,
                  finish_new hdone (alike.ids ▸ hid) hfound' henter', ih,
                  meetAll_congr alike, alike.candidates, alike.linked_definition]

end Compiling

namespace Registry

variable {registry other : Registry} (same : ∀ item, registry.content item = other.content item)

include same

theorem alike_of_contents (maxDepth : Nat) :
    (Plan.ofRegistry registry maxDepth).Alike (Plan.ofRegistry other maxDepth) := by
  have hdefinitions : Dict.ofList registry.definitions.entries =
      Dict.ofList other.definitions.entries := by
    apply Dict.eq_of_get?
    intro id
    rw [Dict.get?_ofList registry.definitions.distinct, Dict.get?_ofList other.definitions.distinct]
    exact same (.definition id)
  have hids : registry.sortedIds = other.sortedIds := congrArg Dict.keys hdefinitions
  have hcatalog : registry.catalog = other.catalog :=
    congrArg Catalog.mk (Dict.eq_of_get? fun name => same (.classSpec name))
  have hexcluded : registry.types.excluded = other.types.excluded :=
    Dict.eq_of_get? fun typeName => same (.exclusion typeName)
  have hclear : registry.types.clear = other.types.clear := by
    rw [TypeIndex.clear, TypeIndex.clear, hexcluded]
  exact {
    maxDepth := rfl
    ids := hids
    methods := congrArg methodNames hids
    types := by rw [Plan.ofRegistry, Plan.ofRegistry, hdefinitions, hcatalog, hclear]
    definition? := funext fun id => same (.definition id)
    resolveAlias := funext fun name =>
      AliasTable.resolve_congr (fun name => same (.aliasTarget name)) name
    parameters := Dict.eq_of_get? fun name => same (.parameter name)
    catalog := hcatalog }

/-- **The order of registration leaves no trace.** Registries with the same contents, in whatever order
they came to them, compile to the same program or fail with the same error. -/
theorem compile_unordered (config : Config) : registry.compile config = other.compile config := by
  have alike := alike_of_contents same config.maxDepth
  have hwalk : Compiling.finishAll (registry.plan config) = Compiling.finishAll (other.plan config) := by
    have hfinish := Compiling.finish_congr alike
      (fun _ _ hfound => Plan.mem_ids_of_definition registry config.maxDepth hfound)
    rw [Compiling.finishAll, Compiling.finishAll, alike.ids, hfinish]
  have hprogram : ∀ routines, Program.ofRoutines (registry.plan config) config.containerClass routines =
      Program.ofRoutines (other.plan config) config.containerClass routines := by
    intro routines
    have hflatten : registry.aliases.flatten = other.aliases.flatten :=
      AliasTable.flatten_congr fun name => same (.aliasTarget name)
    have htags : Program.tagTable registry.tags = Program.tagTable other.tags :=
      Program.tagTable_congr fun id tag => same (.attributes id tag)
    have hregistry : (registry.plan config).registry = registry := rfl
    have hregistry' : (other.plan config).registry = other := rfl
    have hhidden : registry.isHidden = other.isHidden := alike.isHidden
    have hparameters : registry.parameters = other.parameters := alike.parameters
    rw [Program.ofRoutines, Program.ofRoutines, alike.types, hregistry, hregistry', hflatten, htags,
      hhidden, hparameters]
  rw [compile, compile, hwalk]
  simp only [hprogram]

omit same

/-- Two services of one type, each with a tag and an alias. Their methods would have the same name. -/
def paired (first second : String) : Registry :=
  let single (id : String) : List Registration :=
    [.autowire id (.ofValue (.str id)) ["T"], .tag id "t" (.str id), .addAlias ("the " ++ id) id]
  (single first ++ single second).foldl (fun registry op => op.after registry {}) ∅

theorem content_paired (item : Item) :
    (paired "a.b" "a-b").content item = (paired "a-b" "a.b").content item := by
  have hne : "a.b" ≠ "a-b" := by decide
  cases item with
  | definition id => exact Table.get?_insert_comm ∅ hne _ _ id
  | aliasTarget name =>
      have hnames : "the a.b" ≠ "the a-b" := by decide
      exact Table.get?_insert_comm ∅ hnames "a.b" "a-b" name
  | attributes id tag =>
      let held (id : String) : Table Value := (∅ : Table Value).insert "t" (.str id)
      exact congrArg (·.bind (Table.get? · tag))
        (Table.get?_insert_comm ∅ hne (held "a.b") (held "a-b") id)
  | parameter | classSpec | exclusion => rfl

theorem paired_unordered :
    (∀ item, (paired "a.b" "a-b").content item = (paired "a-b" "a.b").content item) ∧
      (paired "a.b" "a-b").definitions.keys = (paired "a-b" "a.b").definitions.keys.reverse ∧
      (paired "a.b" "a-b").compile {} = (paired "a-b" "a.b").compile {} ∧
      ((paired "a.b" "a-b").compile {}).toOption.map (·.methods.entries) =
        some [("a-b", "get_a_b"), ("a.b", "get_a_b_2")] :=
  ⟨content_paired, rfl, compile_unordered content_paired {}, by decide +kernel⟩

end Registry
end Wiring
