import Wiring.Proofs.Links

/-!
# Compiled programs are well formed

A program has one routine for each definition, in ascending order of the ids, so that halving finds
each of them. Wherever a link stands in a routine, it leads to the routine that it names, and handles
stand for lazy definitions only. What is private is neither listed among the methods nor the end of
an exported alias, and stands for a type only where it stands alone.
-/

namespace Wiring

/-! ### Searching for a routine -/

namespace Program

variable {routines : List Routine} {id : String}

section Ascending

variable (ascending : (routines.map (·.id)).Pairwise (· < ·)) {here there : Nat}
  {first second : Routine} (hfirst : routines[here]? = some first)
  (hsecond : routines[there]? = some second)

include ascending hfirst hsecond

theorem id_lt_of_lt (hlt : here < there) : first.id < second.id := by
  obtain ⟨hhere, rfl⟩ := List.getElem?_eq_some_iff.mp hfirst
  obtain ⟨hthere, rfl⟩ := List.getElem?_eq_some_iff.mp hsecond
  exact List.pairwise_iff_getElem.mp (List.pairwise_map.mp ascending) here there hhere hthere hlt

theorem lt_of_id_lt (hlt : first.id < second.id) : here < there := by
  rcases Nat.lt_trichotomy here there with hbefore | rfl | hafter
  · exact hbefore
  · obtain rfl := Option.some.inj (hfirst.symm.trans hsecond)
    exact absurd hlt (lt_irrefl _)
  · exact absurd hlt (lt_asymm (id_lt_of_lt ascending hsecond hfirst hafter))

theorem eq_of_id_eq (heq : first.id = second.id) : here = there := by
  rcases Nat.lt_trichotomy here there with hbefore | hsame | hafter
  · exact absurd heq (ne_of_lt (id_lt_of_lt ascending hfirst hsecond hbefore))
  · exact hsame
  · exact absurd heq.symm (ne_of_lt (id_lt_of_lt ascending hsecond hfirst hafter))

end Ascending

/-- In whatever order the routines are. -/
theorem search_sound {low size position : Nat}
    (hfound : search routines id low size = some position) :
    ∃ routine, routines[position]? = some routine ∧ routine.id = id := by
  fun_induction search routines id low size with
  | case1 => cases hfound
  | case2 => cases hfound
  | case3 low size hsize middle routine hroutine hid =>
      obtain rfl := Option.some.inj hfound
      exact ⟨routine, hroutine, hid⟩
  | case4 low size hsize middle routine hroutine hid hlt ih => exact ih hfound
  | case5 low size hsize middle routine hroutine hid hlt ih => exact ih hfound

theorem search_complete (ascending : (routines.map (·.id)).Pairwise (· < ·)) {position : Nat}
    {routine : Routine} (hroutine : routines[position]? = some routine) {low size : Nat}
    (hbound : low + size ≤ routines.length) (hlow : low ≤ position)
    (hhigh : position < low + size) : search routines routine.id low size = some position := by
  fun_induction search routines routine.id low size with
  | case1 => omega
  | case2 low size hsize middle habsent =>
      have hmiddle : routines.length ≤ low + size / 2 := List.getElem?_eq_none_iff.mp habsent
      omega
  | case3 low size hsize middle other hother hid =>
      rw [eq_of_id_eq ascending hother hroutine hid]
  | case4 low size hsize middle other hother hid hlt ih =>
      -- What is in the middle comes before, so that what is looked for is after the middle.
      have hafter : low + size / 2 < position := lt_of_id_lt ascending hother hroutine hlt
      exact ih (by omega) hafter (by omega)
  | case5 low size hsize middle other hother hid hlt ih =>
      have hbefore : position < low + size / 2 :=
        lt_of_id_lt ascending hroutine hother (lt_of_le_of_ne (not_lt.mp hlt) (Ne.symm hid))
      exact ih (by omega) hlow hbefore

/-- Where the routines ascend, their positions are found. -/
theorem position?_eq_some_iff {program : Program}
    (ascending : (program.routines.map (·.id)).Pairwise (· < ·)) {position : Nat} :
    program.position? id = some position ↔
      ∃ routine, program.routines[position]? = some routine ∧ routine.id = id := by
  constructor
  · exact search_sound
  · rintro ⟨routine, hroutine, rfl⟩
    obtain ⟨hlt, -⟩ := List.getElem?_eq_some_iff.mp hroutine
    exact search_complete ascending hroutine (by omega) (Nat.zero_le _) (by omega)

end Program

/-! ### Handles -/

mutual

/-- The links that stand for lazy services, in the order in which they were compiled. -/
def Expr.handles : Expr → List Link
  | .literal _ => []
  | .construct _ args => args.handles
  | .invoke _ args => args.handles
  | .callService _ args => args.handles
  | .callMethod _ _ args => args.handles
  | .service _ => []
  | .handle link => [link]
  | .parameter _ => []
  | .list items => Expr.handlesAll items

def ExprArgs.handles : ExprArgs → List Link
  | .mk positional named => Expr.handlesAll positional ++ Expr.handlesNamed named

def Expr.handlesAll : List Expr → List Link
  | [] => []
  | item :: rest => item.handles ++ Expr.handlesAll rest

def Expr.handlesNamed : List (String × Expr) → List Link
  | [] => []
  | (_, item) :: rest => item.handles ++ Expr.handlesNamed rest

end

def BindingOp.handles : BindingOp → List Link
  | .member _ value => value.handles
  | .extra code => code.handles

def Routine.handles (routine : Routine) : List Link :=
  routine.body.handles ++ routine.bindings.flatMap BindingOp.handles

section Handles

variable (plan : Plan)

/-- They all lead to lazy definitions. -/
def Plan.Lazy (links : List Link) : Prop := ∀ link ∈ links, plan.registry.isLazy link.id = true

namespace Plan

variable {plan}

theorem Lazy.append {links others : List Link} (h : plan.Lazy links) (h' : plan.Lazy others) :
    plan.Lazy (links ++ others) :=
  List.forall_mem_append.mpr ⟨h, h'⟩

variable (plan)

theorem lazy_nil : plan.Lazy [] := fun _ hlink => absurd hlink List.not_mem_nil

theorem lazy_linkedReference (name : String) : plan.Lazy (plan.linkedReference name).handles := by
  unfold linkedReference
  split
  · next hlazy => exact List.forall_mem_singleton.mpr hlazy
  · exact plan.lazy_nil

theorem lazy_references (names : List String) :
    plan.Lazy (Expr.handlesAll (names.map plan.linkedReference)) := by
  induction names with
  | nil => exact plan.lazy_nil
  | cons first rest ih => exact (plan.lazy_linkedReference first).append ih

end Plan

theorem Callee.handles_linked (callee : Callee) (args : ExprArgs) :
    (callee.linked plan args).handles = args.handles := by
  cases callee <;> rfl

mutual

theorem Argument.lazy_linked : ∀ arg : Argument, plan.Lazy (arg.linked plan).handles
  | .value _ => plan.lazy_nil
  | .reference target => plan.lazy_linkedReference target
  | .parameter _ => plan.lazy_nil
  | .collection typeName => plan.lazy_references (plan.candidates typeName)
  | .statement s => Statement.lazy_linked s
  | .list items => Argument.lazy_linkedAll items

theorem Statement.lazy_linked : ∀ s : Statement, plan.Lazy (s.linked plan).handles
  | .mk callee (.mk positional named) => by
      rw [Statement.linked, Callee.handles_linked]
      exact (Argument.lazy_linkedAll positional).append (Argument.lazy_linkedNamed named)

theorem Argument.lazy_linkedAll : ∀ args : List Argument,
    plan.Lazy (Expr.handlesAll (Argument.linkedAll plan args))
  | [] => plan.lazy_nil
  | arg :: rest => (Argument.lazy_linked arg).append (Argument.lazy_linkedAll rest)

theorem Argument.lazy_linkedNamed : ∀ args : List (String × Argument),
    plan.Lazy (Expr.handlesNamed (Argument.linkedNamed plan args))
  | [] => plan.lazy_nil
  | (_, arg) :: rest => (Argument.lazy_linked arg).append (Argument.lazy_linkedNamed rest)

end

theorem Arguments.lazy_linked (args : Arguments) : plan.Lazy (args.linked plan).handles :=
  (Argument.lazy_linkedAll plan args.positional).append (Argument.lazy_linkedNamed plan args.named)

theorem Definition.lazy_linkedEntity (definition : Definition) :
    plan.Lazy (definition.linkedEntity plan).handles := by
  unfold linkedEntity
  cases definition.entity with
  | value v => exact plan.lazy_nil
  | construct className => exact Arguments.lazy_linked plan definition.arguments
  | invocable f => exact Arguments.lazy_linked plan definition.arguments
  | statement s =>
      dsimp only
      rw [Callee.handles_linked]
      exact Arguments.lazy_linked plan (s.args.merged definition.arguments)

/-- Handles stand for lazy definitions only, wherever they stand themselves. -/
theorem Definition.lazy_linked (definition : Definition) (id : String) :
    plan.Lazy (definition.linked plan id).handles := by
  refine (definition.lazy_linkedEntity plan).append ?_
  intro link hlink
  obtain ⟨op, hop, hheld⟩ := List.mem_flatMap.mp hlink
  obtain ⟨binding, -, rfl⟩ := List.mem_map.mp hop
  cases binding with
  | member name value => exact Argument.lazy_linked plan value link hheld
  | extra code => exact Argument.lazy_linked plan code link hheld

end Handles

/-! ### Programs -/

/-- What a program is to be, as told by the definitions that it was compiled from. -/
structure Program.WellFormed (program : Program) (registry : Registry) : Prop where
  ascending : (program.routines.map (·.id)).Pairwise (· < ·)
  defined : ∀ id, id ∈ program.routines.map (·.id) ↔ registry.contains id = true
  position_isSome : ∀ id, (program.position? id).isSome = registry.contains id
  position_iff : ∀ id position, program.position? id = some position ↔
    ∃ routine, program.routines[position]? = some routine ∧ routine.id = id
  routine_at : ∀ id, program.routine? id = (program.position? id).bind (program.routines[·]?)
  linked : ∀ routine ∈ program.routines, ∀ link ∈ routine.links, ∃ target,
    program.routines[link.position]? = some target ∧ target.id = link.id
  lazy : ∀ routine ∈ program.routines, ∀ link ∈ routine.handles, registry.isLazy link.id = true
  methods : ∀ id method, program.methods.get? id = some method ↔
    ∃ routine ∈ program.routines, routine.id = id ∧ routine.method = method ∧
      registry.isHidden id = false
  privateServices : program.privateServices = registry.definitions.keys.countP registry.isHidden
  cached : ∀ routine ∈ program.routines, ∀ definition,
    registry.definition? routine.id = some definition →
      (routine.cache = none ↔ definition.flags.factory = true) ∧
        (routine.cache = some .privates ↔
          definition.flags.hidden = true ∧ definition.flags.factory = false)
  exported : ∀ name target, program.aliases.get? name = some target →
    registry.isHidden target = false
  typed : ∀ typeName ids, program.types.get? typeName = some ids →
    ids ≠ [] ∧ ids.Pairwise (· < ·) ∧ ∀ id ∈ ids, registry.isHidden id = true →
      ∀ other, registry.Lists typeName other ↔ other = id

theorem Compiling.cacheOf_eq_none_iff {flags : Flags} :
    cacheOf flags = none ↔ flags.factory = true := by
  unfold cacheOf
  cases flags.factory <;> cases flags.hidden <;> simp

theorem Compiling.cacheOf_eq_privates_iff {flags : Flags} :
    cacheOf flags = some .privates ↔ flags.hidden = true ∧ flags.factory = false := by
  unfold cacheOf
  cases flags.factory <;> cases flags.hidden <;> simp

namespace Registry

variable {registry : Registry} {config : Config} {program : Program}

namespace Compiled

variable (compiled : registry.Compiled config program)

include compiled

theorem mem_ids_iff (id : String) :
    id ∈ program.routines.map (·.id) ↔ registry.contains id = true := by
  rw [compiled.ids_eq, Plan.mem_ids_iff]

theorem position?_isSome (id : String) :
    (program.position? id).isSome = registry.contains id := by
  rw [Bool.eq_iff_iff, ← compiled.mem_ids_iff, Option.isSome_iff_exists, List.mem_map]
  constructor
  · rintro ⟨position, hposition⟩
    obtain ⟨routine, hroutine, hid⟩ := Program.search_sound hposition
    exact ⟨routine, List.mem_of_getElem? hroutine, hid⟩
  · rintro ⟨routine, hmem, hid⟩
    obtain ⟨position, hroutine⟩ := List.mem_iff_getElem?.mp hmem
    exact ⟨position, (Program.position?_eq_some_iff compiled.ascending).mpr ⟨routine, hroutine, hid⟩⟩

theorem routine?_eq_bind (id : String) :
    program.routine? id = (program.position? id).bind (program.routines[·]?) := by
  cases hposition : program.position? id with
  | none =>
      have habsent : registry.contains id = false := by
        rw [← compiled.position?_isSome, hposition]
        rfl
      rw [compiled.routine?_eq, habsent]
      rfl
  | some position =>
      obtain ⟨routine, hroutine, rfl⟩ := Program.search_sound hposition
      rw [compiled.routine?_of_mem (List.mem_of_getElem? hroutine)]
      exact hroutine.symm

/-- A link comes from a name of the definition, for which a definition was found. -/
theorem routine_of_link {routine : Routine} (hroutine : routine ∈ program.routines) {link : Link}
    (hlink : link ∈ routine.links) : ∃ target,
      program.routines[link.position]? = some target ∧ target.id = link.id := by
  obtain ⟨definition, hfound, hlinked⟩ := compiled.definition_of_mem hroutine
  rw [hlinked, Definition.links_linked] at hlink
  obtain ⟨name, hname, rfl⟩ := List.mem_map.mp hlink
  obtain ⟨demand, hdemand, hcalled⟩ := List.mem_filterMap.mp hname
  obtain ⟨found, hsettle⟩ := compiled.met hfound demand hdemand
  obtain ⟨selected, hselect⟩ := Plan.select_of_settle hcalled hsettle
  rw [Plan.linked_of_select hselect]
  obtain ⟨other, -, hother⟩ := compiled.routine_at (Plan.select_eq_ok hselect).2
  exact ⟨_, hother, rfl⟩

theorem visibility_of_mem {routine : Routine} (hroutine : routine ∈ program.routines) :
    routine.visibility = .exposed ↔ registry.isHidden routine.id = false := by
  obtain ⟨definition, hfound, hlinked⟩ := compiled.definition_of_mem hroutine
  have hvisible : (registry.linked config routine.id).visibility = .exposed ↔
      registry.isHidden routine.id = false := visibility_linked (contains_of_definition hfound)
  rwa [linked_eq hfound, ← hlinked] at hvisible

theorem get?_methods (id method : String) :
    program.methods.get? id = some method ↔ ∃ routine ∈ program.routines,
      routine.id = id ∧ routine.method = method ∧ registry.isHidden id = false := by
  have hdistinct : Entries.Distinct ((program.routines.filter (·.visibility = .exposed)).map
      fun routine => (routine.id, routine.method)) := by
    rw [Entries.Distinct, Entries.keys, List.map_map]
    exact (List.filter_sublist.map _).nodup (compiled.ascending.imp fun hlt => ne_of_lt hlt)
  rw [Dict.get?, compiled.entries_methods, ← hdistinct.mem_iff, List.mem_map]
  constructor
  · rintro ⟨routine, hkept, heq⟩
    obtain ⟨hroutine, hvisible⟩ := List.mem_filter.mp hkept
    cases heq
    have hpublic := (compiled.visibility_of_mem hroutine).mp (of_decide_eq_true hvisible)
    exact ⟨routine, hroutine, rfl, rfl, hpublic⟩
  · rintro ⟨routine, hroutine, rfl, rfl, hpublic⟩
    have hvisible := (compiled.visibility_of_mem hroutine).mpr hpublic
    exact ⟨routine, List.mem_filter.mpr ⟨hroutine, decide_eq_true hvisible⟩, rfl⟩

theorem privateServices_eq :
    program.privateServices = registry.definitions.keys.countP registry.isHidden := by
  have hcount : program.privateServices =
      program.routines.countP fun routine => routine.visibility = .hidden := by
    rw [List.countP_eq_length_filter, compiled.program_eq]
    rfl
  have hhidden : ∀ routine ∈ program.routines,
      decide (routine.visibility = .hidden) = true ↔ registry.isHidden routine.id = true := by
    intro routine hroutine
    have hvisible := compiled.visibility_of_mem hroutine
    cases hvisibility : routine.visibility <;> simp_all
  have hperm : (program.routines.map (·.id)).Perm registry.definitions.keys := by
    refine (List.perm_ext_iff_of_nodup ?_ registry.definitions.distinct).mpr fun id => ?_
    · exact compiled.ascending.imp fun hlt => ne_of_lt hlt
    · rw [compiled.mem_ids_iff]
      exact Table.contains_iff
  rw [hcount, List.countP_congr hhidden, ← hperm.countP_eq, List.countP_map]
  rfl

theorem types_eq_some {typeName : String} {ids : List String}
    (hids : program.types.get? typeName = some ids) :
    ids ≠ [] ∧ ids.Pairwise (· < ·) ∧ ∀ id ∈ ids, registry.isHidden id = true →
      ∀ other, registry.Lists typeName other ↔ other = id := by
  rw [compiled.get?_types, Option.filter_eq_some_iff] at hids
  obtain ⟨hselected, hnonempty⟩ := hids
  obtain rfl := Option.some.inj hselected
  refine ⟨?_, ?_, fun id hid hprivate other => ?_⟩
  · rintro hempty
    rw [hempty] at hnonempty
    cases hnonempty
  · exact (Plan.lookup_types_ascending registry config.maxDepth typeName).sublist
      (selectCandidates_sublist _ _)
  · have hsole := eq_singleton_of_selected hid hprivate
    rw [← Plan.mem_lookup_types_iff registry config.maxDepth, hsole, List.mem_singleton]

end Compiled

/-- **Compiled programs are well formed.** -/
theorem compile_wellFormed (hcompile : registry.compile config = .ok program) :
    program.WellFormed registry := by
  have compiled := compiled_of_compile hcompile
  exact {
    ascending := compiled.ascending
    defined := compiled.mem_ids_iff
    position_isSome := compiled.position?_isSome
    position_iff := fun _ _ => Program.position?_eq_some_iff compiled.ascending
    routine_at := compiled.routine?_eq_bind
    linked := fun routine hroutine link hlink => compiled.routine_of_link hroutine hlink
    lazy := fun routine hroutine => by
      obtain ⟨definition, -, hlinked⟩ := compiled.definition_of_mem hroutine
      rw [hlinked]
      exact definition.lazy_linked (registry.plan config) routine.id
    methods := compiled.get?_methods
    privateServices := compiled.privateServices_eq
    cached := fun routine hroutine definition hfound => by
      obtain ⟨other, hother, hlinked⟩ := compiled.definition_of_mem hroutine
      obtain rfl := Option.some.inj (hfound.symm.trans hother)
      rw [hlinked]
      exact ⟨Compiling.cacheOf_eq_none_iff, Compiling.cacheOf_eq_privates_iff⟩
    exported := fun name target htarget => by
      rw [compiled.get?_aliases] at htarget
      split at htarget
      · next hexposed =>
          obtain rfl := Option.some.inj htarget
          exact hexposed.2
      · cases htarget
    typed := fun typeName ids hids => compiled.types_eq_some hids }

/-- A lazy service `a`, a private one `b` that is the only one of type `T`, a factory `c` that calls it
with a handle and a collection in a nested list and refers to it in a binding, and two aliases. -/
def nesting : Registry :=
  let a := Registration.set "a" ((Definition.ofValue (.int 1)).withFlags [.lazy] true)
  let b := Registration.autowire "b" ((Definition.ofValue (.int 2)).withFlags [.hidden] true) ["T"]
  let args : Arguments := .mk [.list [.reference "a", .list [.collection "T"]]] []
  let c := Registration.set "c" (((Definition.ofEntity (.statement (.mk (.service "T") args))).bind
    "peer" (.reference "y")).withFlags [.factory] true)
  let x := Registration.addAlias "x" "a"
  let y := Registration.addAlias "y" "b"
  [a, b, c, x, y].foldl (fun registry op => op.after registry {}) ∅

def nestingProgram : Program := (nesting.compile {}).toOption.getD default

theorem nesting_wellFormed :
    nesting.compile {} = .ok nestingProgram ∧ nestingProgram.WellFormed nesting ∧
      nestingProgram.routines.map (·.links) =
        [[], [], [⟨"a", 0⟩, ⟨"b", 1⟩, ⟨"b", 1⟩, ⟨"b", 1⟩]] ∧
      nestingProgram.routines.map (·.handles) = [[], [], [⟨"a", 0⟩]] ∧
      nestingProgram.aliases.entries = [("x", "a")] ∧
      nestingProgram.types.entries = [("T", ["b"])] ∧
      nestingProgram.position? "c" = some 2 := by
  have hcompile : nesting.compile {} = .ok nestingProgram := rfl
  have wellFormed := compile_wellFormed hcompile
  have hposition := (wellFormed.position_iff "c" 2).mpr ⟨_, rfl, rfl⟩
  exact ⟨hcompile, wellFormed, rfl, rfl, rfl, rfl, hposition⟩

end Registry
end Wiring
