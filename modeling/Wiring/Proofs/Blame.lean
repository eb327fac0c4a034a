import Wiring.Proofs.Names

/-!
# Who is to blame

To compile a definition is to compile first what it refers to, so that a fault may come to light far
below the definition that was asked for. However deep it was found, the error carries one mark, that
of the definition in which the fault stands: what the error is about occurs there, in an argument or
as what a statement calls.
-/

namespace Wiring

/-! ### What a definition is written with -/

def Arguments.Gives (args : Arguments) (arg : Argument) : Prop :=
  arg ∈ args.positional ∨ ∃ name, (name, arg) ∈ args.named

/-- The one argument is the other or stands in it, at whatever depth. -/
inductive Argument.Occurs (inner : Argument) : Argument → Prop
  | here : Occurs inner inner
  | item {arg : Argument} {items : List Argument} (hmem : arg ∈ items) (hin : Occurs inner arg) :
      Occurs inner (.list items)
  | given {arg : Argument} {callee : Callee} {args : Arguments} (hgives : args.Gives arg)
      (hin : Occurs inner arg) : Occurs inner (.statement (.mk callee args))

theorem Argument.Occurs.trans {inner middle outer : Argument} (hinner : inner.Occurs middle)
    (houter : middle.Occurs outer) : inner.Occurs outer := by
  induction houter with
  | here => exact hinner
  | item hmem _ ih => exact .item hmem ih
  | given hgives _ ih => exact .given hgives ih

def Binding.argument : Binding → Argument
  | .member _ value => value
  | .extra code => code

/-- The service that is called, or whose method is. -/
def Callee.service? : Callee → Option String
  | .invocable _ => none
  | .construct _ => none
  | .service name => some name
  | .method name _ => some name

namespace Definition

/-- The entity, if that is a statement, the arguments, and what is bound. The arguments of a plain
value are not used. -/
inductive Writes (definition : Definition) : Argument → Prop
  | entity {s : Statement} (hentity : definition.entity = .statement s) :
      Writes definition (.statement s)
  | given {arg : Argument} (hused : definition.isRaw = false)
      (hgives : definition.arguments.Gives arg) : Writes definition arg
  | bound {binding : Binding} (hmem : binding ∈ definition.bindings) :
      Writes definition binding.argument

def Has (definition : Definition) (inner : Argument) : Prop :=
  ∃ outer, definition.Writes outer ∧ inner.Occurs outer

/-- The entity itself is made by calling something, or a statement in the definition calls it. -/
inductive Calls (definition : Definition) : Callee → Prop
  | construct {className : String} (hentity : definition.entity = .construct className) :
      Calls definition (.construct className)
  | invocable {f : CallableRef} (hentity : definition.entity = .invocable f) :
      Calls definition (.invocable f)
  | statement {callee : Callee} {args : Arguments}
      (hhas : definition.Has (.statement (.mk callee args))) : Calls definition callee

/-- The name is that of a reference, or a service of a collection. -/
def Refers (definition : Definition) (members : String → List String) (name : String) : Prop :=
  definition.Has (.reference name) ∨
    ∃ typeName, definition.Has (.collection typeName) ∧ name ∈ members typeName

def CallsOn (definition : Definition) (name : String) : Prop :=
  ∃ callee, definition.Calls callee ∧ callee.service? = some name

/-- What is demanded stands in the definition. -/
def States (definition : Definition) (members : String → List String) : Demand → Prop
  | .reference name => definition.Refers members name
  | .callee name => definition.CallsOn name
  | .parameter name => definition.Has (.parameter name)
  | .construct className _ => definition.Calls (.construct className)

/-! ### Every demand is stated -/

section Stated

variable {definition : Definition} {members : String → List String} {demand : Demand}

theorem Writes.has {arg : Argument} (hwrites : definition.Writes arg) : definition.Has arg :=
  ⟨arg, hwrites, .here⟩

theorem Has.of_occurs {inner arg : Argument} (hhas : definition.Has arg)
    (hin : inner.Occurs arg) : definition.Has inner := by
  obtain ⟨outer, hwrites, hout⟩ := hhas
  exact ⟨outer, hwrites, hin.trans hout⟩

theorem Has.item {arg : Argument} {items : List Argument} (hhas : definition.Has (.list items))
    (hmem : arg ∈ items) : definition.Has arg :=
  hhas.of_occurs (.item hmem .here)

theorem Has.given {arg : Argument} {callee : Callee} {args : Arguments}
    (hhas : definition.Has (.statement (.mk callee args))) (hgives : args.Gives arg) :
    definition.Has arg :=
  hhas.of_occurs (.given hgives .here)

theorem Calls.states {callee : Callee} (hcalls : definition.Calls callee) (positional : Nat)
    (hdemand : demand ∈ callee.demands positional) : definition.States members demand := by
  cases callee with
  | invocable f => cases hdemand
  | construct className =>
      obtain rfl := List.mem_singleton.mp hdemand
      exact hcalls
  | service name =>
      obtain rfl := List.mem_singleton.mp hdemand
      exact ⟨_, hcalls, rfl⟩
  | method name call =>
      obtain rfl := List.mem_singleton.mp hdemand
      exact ⟨_, hcalls, rfl⟩

mutual

theorem states_of_argument : ∀ arg : Argument, definition.Has arg →
    demand ∈ arg.demands members → definition.States members demand
  | .value v, _, hdemand => by simp [Argument.demands] at hdemand
  | .reference target, hhas, hdemand => by
      rw [Argument.demands, List.mem_singleton] at hdemand
      subst hdemand
      exact .inl hhas
  | .parameter name, hhas, hdemand => by
      rw [Argument.demands, List.mem_singleton] at hdemand
      subst hdemand
      exact hhas
  | .collection typeName, hhas, hdemand => by
      rw [Argument.demands, List.mem_map] at hdemand
      obtain ⟨name, hmember, rfl⟩ := hdemand
      exact .inr ⟨typeName, hhas, hmember⟩
  | .statement s, hhas, hdemand => by
      rw [Argument.demands] at hdemand
      exact states_of_statement s hhas hdemand
  | .list items, hhas, hdemand => by
      rw [Argument.demands] at hdemand
      exact states_of_all items (fun _ hmem => hhas.item hmem) hdemand

theorem states_of_statement : ∀ s : Statement, definition.Has (.statement s) →
    demand ∈ s.demands members → definition.States members demand
  | .mk callee (.mk positional named), hhas, hdemand => by
      rw [Statement.demands, List.mem_append, List.mem_append] at hdemand
      rcases hdemand with (hpositional | hnamed) | hcallee
      · exact states_of_all positional (fun _ hmem => hhas.given (.inl hmem)) hpositional
      · exact states_of_named named (fun name _ hmem => hhas.given (.inr ⟨name, hmem⟩)) hnamed
      · exact (Calls.statement hhas).states _ hcallee

theorem states_of_all : ∀ args : List Argument, (∀ arg ∈ args, definition.Has arg) →
    demand ∈ Argument.demandsAll members args → definition.States members demand
  | [], _, hdemand => by simp [Argument.demandsAll] at hdemand
  | arg :: rest, hall, hdemand => by
      rw [Argument.demandsAll, List.mem_append] at hdemand
      rcases hdemand with hfirst | hrest
      · exact states_of_argument arg (hall arg List.mem_cons_self) hfirst
      · exact states_of_all rest (fun other hmem => hall other (List.mem_cons_of_mem _ hmem)) hrest

theorem states_of_named : ∀ named : List (String × Argument),
    (∀ name arg, (name, arg) ∈ named → definition.Has arg) →
      demand ∈ Argument.demandsNamed members named → definition.States members demand
  | [], _, hdemand => by simp [Argument.demandsNamed] at hdemand
  | (name, arg) :: rest, hall, hdemand => by
      rw [Argument.demandsNamed, List.mem_append] at hdemand
      rcases hdemand with hfirst | hrest
      · exact states_of_argument arg (hall name arg List.mem_cons_self) hfirst
      · exact states_of_named rest
          (fun label other hmem => hall label other (List.mem_cons_of_mem _ hmem)) hrest

end

theorem states_of_arguments {args : Arguments} (hall : ∀ arg, args.Gives arg → definition.Has arg)
    (hdemand : demand ∈ args.demands members) : definition.States members demand := by
  rcases List.mem_append.mp hdemand with hpositional | hnamed
  · exact states_of_all args.positional (fun arg hmem => hall arg (.inl hmem)) hpositional
  · exact states_of_named args.named (fun name arg hmem => hall arg (.inr ⟨name, hmem⟩)) hnamed

end Stated
end Definition

theorem Arguments.gives_of_merged {args other : Arguments} {arg : Argument}
    (hgives : (args.merged other).Gives arg) : args.Gives arg ∨ other.Gives arg := by
  rcases hgives with hpositional | ⟨name, hnamed⟩
  · exact (List.mem_append.mp hpositional).imp .inl .inl
  · refine (?_ : (name, arg) ∈ args.named ∨ (name, arg) ∈ other.named).imp
      (fun hmem => .inr ⟨name, hmem⟩) (fun hmem => .inr ⟨name, hmem⟩)
    -- what the fold has written so far comes from the one or from the other
    refine List.foldlRecOn (motive := fun named =>
      (name, arg) ∈ named → (name, arg) ∈ args.named ∨ (name, arg) ∈ other.named)
      other.named _ .inl (fun named ih entry hentry hmem => ?_) hnamed
    rcases Entries.mem_put hmem with hnew | hold
    · exact .inr (hnew ▸ hentry)
    · exact ih hold

namespace Definition

variable {definition : Definition} {members : String → List String} {demand : Demand}

theorem states_of_entity (hdemand : demand ∈ definition.entityDemands members) :
    definition.States members demand := by
  unfold entityDemands application at hdemand
  cases hentity : definition.entity with
  | value v =>
      rw [hentity] at hdemand
      have hnothing : Arguments.demands members ∅ = [] := rfl
      simp [hnothing] at hdemand
  | construct className =>
      have hused : definition.isRaw = false := by rw [isRaw, hentity]
      rw [hentity] at hdemand
      rcases List.mem_append.mp hdemand with hargs | hcallee
      · exact states_of_arguments (fun arg hgives => (Writes.given hused hgives).has) hargs
      · exact (Calls.construct hentity).states _ hcallee
  | invocable f =>
      have hused : definition.isRaw = false := by rw [isRaw, hentity]
      rw [hentity] at hdemand
      rcases List.mem_append.mp hdemand with hargs | hcallee
      · exact states_of_arguments (fun arg hgives => (Writes.given hused hgives).has) hargs
      · exact (Calls.invocable hentity).states definition.arguments.positional.length hcallee
  | statement s =>
      have hused : definition.isRaw = false := by rw [isRaw, hentity]
      have hhas : definition.Has (.statement s) := (Writes.entity hentity).has
      rw [hentity] at hdemand
      obtain ⟨callee, args⟩ := s
      rcases List.mem_append.mp hdemand with hargs | hcallee
      · refine states_of_arguments (fun arg hgives => ?_) hargs
        rcases Arguments.gives_of_merged hgives with hown | hother
        · exact hhas.given hown
        · exact (Writes.given hused hother).has
      · exact (Calls.statement hhas).states _ hcallee

/-- Nothing is demanded that does not stand in the definition. -/
theorem states_of_demand (hdemand : demand ∈ definition.demands members) :
    definition.States members demand := by
  rcases List.mem_append.mp hdemand with hentity | hbindings
  · exact states_of_entity hentity
  · obtain ⟨binding, hmem, hbinding⟩ := List.mem_flatMap.mp hbindings
    have hhas : definition.Has binding.argument := (Writes.bound hmem).has
    cases binding with
    | member name value => exact states_of_argument value hhas hbinding
    | extra code => exact states_of_argument code hhas hbinding

end Definition

/-! ### What an error is about -/

namespace Plan

/-- The definition is one that an eager reference, an eager service of a collection or a callee in
the other selects. -/
def Follows (plan : Plan) (definition : Definition) (next : String) : Prop :=
  ∃ name, plan.target name = .ok next ∧
    (definition.Refers plan.candidates name ∧ plan.registry.isLazy next = false ∨
      definition.CallsOn name)

/-- A name that stands in the definition, and what it resolves to. -/
def Mentions (plan : Plan) (definition : Definition) (canonical : String) : Prop :=
  ∃ name, (definition.Refers plan.candidates name ∨ definition.CallsOn name) ∧
    plan.registry.resolveAlias name = canonical

/-- What the error is about stands in the definition of the id. -/
inductive Blames (plan : Plan) (id : String) (definition : Definition) : Error → Prop
  | notFound {canonical : String} (hmentions : plan.Mentions definition canonical)
      (habsent : plan.registry.definition? canonical = none)
      (hnone : plan.candidates canonical = []) : Blames plan id definition (.notFound canonical)
  | ambiguousType {canonical : String} (hmentions : plan.Mentions definition canonical)
      (habsent : plan.registry.definition? canonical = none)
      (hmany : 1 < (plan.candidates canonical).length) :
      Blames plan id definition (.ambiguousType canonical (plan.candidates canonical))
  | parameterNotFound {name : String} (hhas : definition.Has (.parameter name))
      (habsent : plan.registry.parameters.get? name = none) :
      Blames plan id definition (.parameterNotFound name)
  | invalidEntity {className : String} {positional : Nat} {fault : Wiring.Fault}
      (hcalls : definition.Calls (.construct className))
      (hcheck : plan.registry.catalog.ensureInstantiable id className positional =
        .error (.invalidEntity id fault)) : Blames plan id definition (.invalidEntity id fault)
  | circularReference {next : String} (path : List String)
      (hfollows : plan.Follows definition next) :
      Blames plan id definition (.circularReference next path)
  | resolutionDepthExceeded {next : String} (hfollows : plan.Follows definition next) :
      Blames plan id definition (.resolutionDepthExceeded next plan.maxDepth)

theorem Blames.ne_compilation {plan : Plan} {id : String} {definition : Definition}
    {source : Error} (hblames : plan.Blames id definition source) (other : String)
    (inner : Error) : source ≠ .compilation other inner := by
  rintro rfl
  cases hblames

variable {registry : Registry} {config : Config} {id : String} {definition : Definition}
  {source : Error}

/-- A name that selects nothing is unknown, or is the type of several services. -/
theorem blames_of_select {name : String}
    (hstands : definition.Refers (registry.plan config).candidates name ∨ definition.CallsOn name)
    (hselect : (registry.plan config).select name = .error source) :
    (registry.plan config).Blames id definition source := by
  have hmentions : (registry.plan config).Mentions definition (registry.resolveAlias name) :=
    ⟨name, hstands, rfl⟩
  cases htarget : (registry.plan config).target name with
  | ok next =>
      obtain ⟨position, hok⟩ := select_of_target registry config.maxDepth htarget
      rw [hok] at hselect
      cases hselect
  | error error =>
      obtain rfl : error = source :=
        Except.error.inj ((select_of_target_error registry config.maxDepth htarget).symm.trans hselect)
      cases habsent : registry.definition? (registry.resolveAlias name) with
      | some found =>
          rw [target_of_contains (Option.isSome_of_eq_some habsent)] at htarget
          cases htarget
      | none =>
          rw [target_of_absent habsent] at htarget
          rcases hcandidates : (ofRegistry registry config.maxDepth).candidates
            (registry.resolveAlias name) with _ | ⟨first, _ | ⟨second, rest⟩⟩
          · rw [hcandidates] at htarget
            obtain rfl := Except.error.inj htarget
            exact .notFound hmentions habsent hcandidates
          · rw [hcandidates] at htarget
            cases htarget
          · rw [hcandidates] at htarget
            obtain rfl := Except.error.inj htarget
            rw [← hcandidates]
            exact .ambiguousType hmentions habsent (by rw [hcandidates]; simp)

/-- A demand that fails its check. -/
theorem blames_of_settle {demand : Demand}
    (hstates : definition.States (registry.plan config).candidates demand)
    (hsettle : (registry.plan config).settle id demand = .error source) :
    (registry.plan config).Blames id definition source := by
  cases demand with
  | reference name => exact blames_of_select (.inl hstates) (map_eq_error hsettle)
  | callee name => exact blames_of_select (.inr hstates) (map_eq_error hsettle)
  | parameter name =>
      have hfound := map_eq_error hsettle
      unfold Registry.parameter at hfound
      split at hfound
      · cases hfound
      · next habsent =>
          obtain rfl := Except.error.inj hfound
          exact .parameterNotFound hstates habsent
  | construct className positional =>
      have hcheck := map_eq_error hsettle
      obtain ⟨fault, rfl⟩ := Catalog.ensureInstantiable_error hcheck
      exact .invalidEntity hstates hcheck

theorem follows_of_eager {plan : Plan} {demand : Demand} {next : String}
    (hstates : definition.States plan.candidates demand) (heager : plan.Eager next demand) :
    plan.Follows definition next := by
  cases demand with
  | reference name => exact ⟨name, heager.1, .inl ⟨hstates, heager.2⟩⟩
  | callee name => exact ⟨name, heager, .inr hstates⟩
  | parameter name => exact heager.elim
  | construct className positional => exact heager.elim

/-- A definition that is registered is refused for the chain alone. -/
theorem blames_of_refused {chain : List String} {next : String}
    (hnext : registry.contains next) (hfollows : (registry.plan config).Follows definition next)
    (hrefused : (registry.plan config).Refused chain next source) :
    (registry.plan config).Blames id definition source := by
  rcases hrefused with ⟨habsent, -⟩ | henter
  · exact absurd hnext (Option.not_isSome_iff_eq_none.mpr habsent)
  · unfold Chain.enter at henter
    split at henter
    · obtain rfl := Except.error.inj henter
      exact .circularReference _ hfollows
    · split at henter
      · obtain rfl := Except.error.inj henter
        exact .resolutionDepthExceeded hfollows
      · cases henter

/-- Below no chain a registered definition can always be entered. -/
theorem not_refused_nil (accepted : config.validate = .ok ()) (hid : registry.contains id) :
    ¬ (registry.plan config).Refused [] id source := by
  have hdepth : config.maxDepth ≠ 0 := by
    intro hzero
    simp [Config.validate, Config.violation?, hzero] at accepted
  rintro (⟨habsent, -⟩ | henter)
  · exact absurd hid (Option.not_isSome_iff_eq_none.mpr habsent)
  · have hroom : ¬ (registry.plan config).maxDepth ≤ 0 := fun hfull => hdepth (Nat.le_zero.mp hfull)
    simp [Chain.enter, hroom] at henter

end Plan

open Plan in
/-- **Whoever fails is blamed, and nobody else.** A failed compilation tells one definition and what
is wrong with it, at whatever depth it was met: the mark is set once, and what the rest of the error
is about stands in that very definition. -/
theorem Registry.compile_blames {registry : Registry} {config : Config} {error : Error}
    (accepted : config.validate = .ok ()) (hcompile : registry.compile config = .error error) :
    ∃ id definition source, error = .compilation id source ∧
      (∀ other inner, source ≠ .compilation other inner) ∧
        registry.definition? id = some definition ∧
          (registry.plan config).Blames id definition source := by
  obtain ⟨start, hstart, hrefused | ⟨chain, -, -, hstuck⟩⟩ := compile_eq_error hcompile
  · exact (not_refused_nil accepted hstart hrefused).elim
  · obtain ⟨above, id, -, definition, hfound, demand, hdemand, source, rfl, hfault⟩ := hstuck
    have hstates := Definition.states_of_demand hdemand
    have hblames : (registry.plan config).Blames id definition source := by
      rcases hfault with hsettle | ⟨next, hsettle, hrefused⟩
      · exact blames_of_settle hstates hsettle
      · have heager := (settle_eq_ok hsettle next).mp rfl
        exact blames_of_refused (contains_of_eager heager) (follows_of_eager hstates heager) hrefused
    exact ⟨id, definition, source, rfl, hblames.ne_compilation, hfound, hblames⟩

/-- The fault is met while `a` is compiled, but stands in `b`. -/
theorem Registry.callLoop_blames :
    ∃ id definition source, Error.compilation "b" (.parameterNotFound "p") = .compilation id source ∧
      (∀ other inner, source ≠ .compilation other inner) ∧
        (callLoop (.parameter "p")).definition? id = some definition ∧
          ((callLoop (.parameter "p")).plan {}).Blames id definition source := by
  have haccepted : ({} : Config).validate = .ok () := rfl
  exact compile_blames haccepted (by rfl)

end Wiring
