import Wiring.Proofs.Selection

/-!
# The surfaces of the two kinds of container

An interpreter and a machine of its registry's program select the same for a name. For the public
this takes that no alias which is left out of the program is the name of something else; for
definitions among themselves, that no alias is left out.
-/

namespace Wiring

/-- The same up to the order in which the services of a type are told. -/
inductive Selection.Alike : Selection → Selection → Prop
  | definition (id : String) : Alike (.definition id) (.definition id)
  | all {members shuffled others : List Selection} (hperm : members.Perm shuffled)
      (halike : List.Forall₂ Alike shuffled others) : Alike (.all members) (.all others)
  | notFound : Alike .notFound .notFound
  | ambiguous : Alike .ambiguous .ambiguous

namespace Lookup

/-- There is nothing, or nothing that may be told of. -/
inductive Misses : Lookup → Prop
  | withheld : Misses .withheld
  | services (typeName : String) : Misses (.services typeName [])

inductive Alike : Lookup → Lookup → Prop
  | definition (id : String) : Alike (.definition id) (.definition id)
  | missing {lookup other : Lookup} (h : lookup.Misses) (h' : other.Misses) : Alike lookup other
  | services (typeName : String) {ids others : List String} (hperm : ids.Perm others) :
      Alike (.services typeName ids) (.services typeName others)

theorem Alike.symm {lookup other : Lookup} (h : lookup.Alike other) : other.Alike lookup := by
  cases h with
  | definition id => exact .definition id
  | missing h h' => exact .missing h' h
  | services typeName hperm => exact .services typeName hperm.symm

end Lookup

namespace Container

variable {a b : Container} {options : ResolveOptions} {depth : Nat}

/-- What is selected for each of the ids is selected for each of them in another order. -/
theorem select_all_alike {ids others : List String} (hperm : ids.Perm others)
    (hids : ∀ id ∈ ids, ∀ selection, a.select options depth false id = some selection →
      ∃ other, b.select options depth false id = some other ∧ selection.Alike other)
    {members : List Selection}
    (hmembers : ids.mapM (fun id => a.select options depth false id) = some members) :
    ∃ shuffled, others.mapM (fun id => b.select options depth false id) = some shuffled ∧
      (Selection.all members).Alike (.all shuffled) := by
  obtain ⟨moved, hmoved, hshuffle⟩ := List.perm_comp_forall₂ hperm.symm (mapM_eq_some_iff.mp hmembers)
  have hothers : ∀ id ∈ others, ∀ selection, a.select options depth false id = some selection →
      ∃ other, b.select options depth false id = some other ∧ selection.Alike other :=
    fun id hid => hids id (hperm.mem_iff.mpr hid)
  have hfound : ∃ shuffled, List.Forall₂ (fun id other =>
      b.select options depth false id = some other) others shuffled ∧
        List.Forall₂ Selection.Alike moved shuffled := by
    clear hperm hids hmembers hshuffle
    induction hmoved with
    | nil => exact ⟨[], .nil, .nil⟩
    | cons hfirst _ ih =>
        obtain ⟨other, hother, halike⟩ := hothers _ List.mem_cons_self _ hfirst
        obtain ⟨rest, hrest, hrests⟩ := ih fun id hid => hothers id (List.mem_cons_of_mem _ hid)
        exact ⟨other :: rest, .cons hother hrest, .cons halike hrests⟩
  obtain ⟨shuffled, hselected, halike⟩ := hfound
  exact ⟨shuffled, mapM_eq_some_iff.mpr hselected, .all hshuffle.symm halike⟩

theorem among_alike {ids others : List String} (hperm : ids.Perm others)
    (hids : ∀ id ∈ ids, ∀ selection, a.select options depth false id = some selection →
      ∃ other, b.select options depth false id = some other ∧ selection.Alike other)
    {selection : Selection}
    (hselect : Selection.among options (fun id => a.select options depth false id) ids =
      some selection) :
    ∃ other, Selection.among options (fun id => b.select options depth false id) others =
      some other ∧ selection.Alike other := by
  rcases ids with _ | ⟨first, _ | ⟨second, rest⟩⟩
  · obtain rfl := hperm.nil_eq
    cases hselect
    exact ⟨_, rfl, .notFound⟩
  · obtain rfl := hperm.singleton_eq
    exact hids first List.mem_cons_self selection hselect
  · have hlength : others.length = rest.length + 2 := hperm.length_eq.symm
    obtain ⟨first', second', rest', rfl⟩ : ∃ first' second' rest',
        others = first' :: second' :: rest' := by
      rcases others with _ | ⟨first', _ | ⟨second', rest'⟩⟩
      · simp at hlength
      · simp at hlength
      · exact ⟨first', second', rest', rfl⟩
    rw [Selection.among_several] at hselect ⊢
    cases hall : options.ignoreAmbiguity with
    | true =>
        rw [hall, if_pos rfl] at hselect
        obtain ⟨members, hmembers, rfl⟩ := Option.map_eq_some_iff.mp hselect
        obtain ⟨shuffled, hshuffled, halike⟩ := select_all_alike hperm hids hmembers
        exact ⟨_, by rw [hshuffled]; rfl, halike⟩
    | false =>
        rw [hall, if_neg Bool.false_ne_true] at hselect
        cases hselect
        exact ⟨_, rfl, .ambiguous⟩

/-- **Lookups decide.** Where a name leads alike, and so does everything that is listed under a type,
the same is selected. -/
theorem select_alike {listed : String → Prop}
    (hlisted : ∀ {isPublic name typeName ids}, a.lookup isPublic name = .services typeName ids →
      ∀ id ∈ ids, listed id)
    (hinternal : ∀ id, listed id → (a.lookup false id).Alike (b.lookup false id))
    {isPublic : Bool} {name : String} (hlookup : (a.lookup isPublic name).Alike (b.lookup isPublic name))
    {selection : Selection} (hselect : a.select options depth isPublic name = some selection) :
    ∃ other, b.select options depth isPublic name = some other ∧ selection.Alike other := by
  induction depth generalizing isPublic name selection with
  | zero => cases hselect
  | succ depth ih =>
      rw [select] at hselect ⊢
      generalize hfound : a.lookup isPublic name = lookup at hlookup hselect
      generalize b.lookup isPublic name = other at hlookup
      cases hlookup with
      | definition id =>
          cases hselect
          exact ⟨_, rfl, .definition id⟩
      | missing h h' =>
          obtain rfl : .notFound = selection := by cases h <;> exact Option.some.inj hselect
          exact ⟨.notFound, by cases h' <;> rfl, .notFound⟩
      | @services typeName ids others hperm =>
          have hids : ∀ id ∈ ids, ∀ selection, a.select options depth false id = some selection →
              ∃ other, b.select options depth false id = some other ∧ selection.Alike other :=
            fun id hid selection => ih (hinternal id (hlisted hfound id hid))
          exact among_alike hperm hids hselect

/-- Where two containers look up alike, they select alike. -/
theorem select_rel {listed : String → Prop}
    (hlisted : ∀ {isPublic name typeName ids}, a.lookup isPublic name = .services typeName ids →
      ∀ id ∈ ids, listed id)
    (hlisted' : ∀ {isPublic name typeName ids}, b.lookup isPublic name = .services typeName ids →
      ∀ id ∈ ids, listed id)
    (hinternal : ∀ id, listed id → (a.lookup false id).Alike (b.lookup false id))
    {isPublic : Bool} {name : String}
    (hlookup : (a.lookup isPublic name).Alike (b.lookup isPublic name)) :
    Option.Rel Selection.Alike (a.select options depth isPublic name)
      (b.select options depth isPublic name) := by
  cases hselect : a.select options depth isPublic name with
  | some selection =>
      obtain ⟨other, hother, halike⟩ := select_alike hlisted hinternal hlookup hselect
      rw [hother]
      exact .some halike
  | none =>
      cases hother : b.select options depth isPublic name with
      | none => exact .none
      | some other =>
          have hback : ∀ id, listed id → (b.lookup false id).Alike (a.lookup false id) :=
            fun id hid => (hinternal id hid).symm
          obtain ⟨selection, hselection, -⟩ := select_alike hlisted' hback hlookup.symm hother
          rw [hselect] at hselection
          cases hselection

end Container

/-- An interpreter of the registry and a machine of its program, in whatever state their use has
left them: only the services that are cached and the chains may be anything. -/
structure Registry.Served (registry : Registry) (program : Program) (interpreter : Interpreter)
    (machine : Machine) : Prop where
  registry_eq : ∃ frozen tags, interpreter.registry = { registry with frozen, tags }
  program_eq : machine.program = program
  tags : interpreter.registry.tags = registry.tags ∧ machine.tags = program.tags ∨
    interpreter.registry.tags = ∅ ∧ machine.tags = ∅

theorem Registry.served_fresh (registry : Registry) (program : Program) (config : Config)
    (catalog : Catalog) (maxDepth : Nat) (handler : NoticeHandler) :
    registry.Served program (.ofRegistry registry config handler)
      (.load program catalog maxDepth handler) :=
  ⟨⟨registry.frozen, registry.tags, rfl⟩, rfl, .inl ⟨rfl, rfl⟩⟩

/-- What a program leaves out is not missed. -/
structure Registry.Unmasked (registry : Registry) : Prop where
  /-- An alias that leads to something private is the name of nothing else. -/
  withheld : ∀ name, registry.aliases.contains name →
    registry.isHidden (registry.resolveAlias name) →
      registry.contains name = false ∧ registry.candidates name = []
  /-- A chain of aliases that reaches a definition ends there. -/
  ends : ∀ name, registry.contains (registry.resolveAlias name) →
    registry.resolveAlias (registry.resolveAlias name) = registry.resolveAlias name

theorem Registry.contains_of_undefined {registry : Registry} {id : String}
    (habsent : registry.definition? id = none) : registry.contains id = false :=
  Option.isSome_eq_false_iff.mpr (Option.isNone_iff_eq_none.mpr habsent)

theorem Registry.definition_of_isHidden {registry : Registry} {id : String}
    (hhidden : registry.isHidden id = true) :
    ∃ definition, registry.definition? id = some definition ∧ definition.flags.hidden = true := by
  unfold isHidden at hhidden
  cases hfound : registry.definition? id with
  | none => simp [hfound] at hhidden
  | some definition => exact ⟨definition, rfl, by simpa [hfound] using hhidden⟩

namespace Registry.Served

variable {registry : Registry} {config : Config} {program : Program} {interpreter : Interpreter}
  {machine : Machine}

theorem lookup (served : registry.Served program interpreter machine) (isPublic : Bool)
    (name : String) : interpreter.registry.lookup isPublic name = registry.lookup isPublic name := by
  obtain ⟨frozen, tags, hregistry⟩ := served.registry_eq
  rw [hregistry]
  rfl

section Lookups

variable (compiled : registry.Compiled config program)
  (served : registry.Served program interpreter machine)

include compiled served

theorem canonical_of_exposed {name : String}
    (exposed : registry.aliases.contains name →
      registry.isHidden (registry.resolveAlias name) = false) :
    machine.canonical name = registry.resolveAlias name := by
  rw [Machine.canonical, served.program_eq]
  exact compiled.canonical_of_exposed exposed

theorem routine?_eq (id : String) : machine.program.routine? id =
    if registry.contains id then some (registry.linked config id) else none := by
  rw [served.program_eq, compiled.routine?_eq]

theorem contains_methods (id : String) :
    machine.program.methods.contains id = (registry.contains id && !registry.isHidden id) := by
  rw [served.program_eq, compiled.contains_methods]

theorem contains_of_candidate {typeName id : String} (hid : id ∈ machine.candidates typeName) :
    registry.contains id := by
  rw [Machine.candidates, served.program_eq, compiled.candidates_eq] at hid
  exact Plan.contains_of_mem_candidates registry config.maxDepth hid

variable (indexed : registry.Indexed)

include indexed

theorem candidates_perm (typeName : String) :
    (registry.candidates typeName).Perm (machine.candidates typeName) := by
  rw [Machine.candidates, served.program_eq, compiled.candidates_eq]
  exact (Plan.candidates_perm registry config.maxDepth indexed typeName).symm

/-- Between definitions names lead alike, if they are taken to the same end. -/
theorem internalLookup_alike {name : String}
    (hcanonical : machine.canonical name = registry.resolveAlias name) :
    (registry.lookup false name).Alike (machine.internalLookup name) := by
  rw [Machine.internalLookup, hcanonical, served.routine?_eq compiled]
  cases hfound : registry.definition? (registry.resolveAlias name) with
  | some definition =>
      rw [Registry.lookup_of_definition hfound, if_pos (contains_of_definition hfound)]
      exact .definition _
  | none =>
      rw [Registry.lookup_of_undefined hfound, contains_of_undefined hfound]
      exact .services _ (served.candidates_perm compiled indexed _)

/-- A name leads where the registry says, or it is an alias that was dropped, and then it leads to
nothing, as in the registry. -/
theorem canonical_cases (unmasked : registry.Unmasked) (name : String) :
    machine.canonical name = registry.resolveAlias name ∨
      registry.isHidden (registry.resolveAlias name) = true ∧ machine.canonical name = name ∧
        registry.contains name = false ∧ machine.candidates name = [] := by
  by_cases hdropped : registry.aliases.contains name ∧
      registry.isHidden (registry.resolveAlias name) = true
  · obtain ⟨hname, hhidden⟩ := hdropped
    obtain ⟨habsent, hnone⟩ := unmasked.withheld name hname hhidden
    have hcanonical : machine.canonical name = name := by
      rw [Machine.canonical, served.program_eq]
      exact compiled.canonical_of_hidden hhidden
    have hempty : machine.candidates name = [] := by
      have hperm := served.candidates_perm compiled indexed name
      rw [hnone] at hperm
      exact hperm.nil_eq.symm
    exact .inr ⟨hhidden, hcanonical, habsent, hempty⟩
  · refine .inl (served.canonical_of_exposed compiled fun hname => ?_)
    exact Bool.eq_false_iff.mpr fun hhidden => hdropped ⟨hname, hhidden⟩

/-- The public is led alike. -/
theorem publicLookup_alike (unmasked : registry.Unmasked) (name : String) :
    (registry.lookup true name).Alike (machine.publicLookup name) := by
  rcases served.canonical_cases compiled indexed unmasked name with
    hcanonical | ⟨hhidden, hcanonical, habsent, hempty⟩
  · rw [Machine.publicLookup, hcanonical, served.contains_methods compiled,
      served.routine?_eq compiled]
    cases hfound : registry.definition? (registry.resolveAlias name) with
    | none =>
        rw [Registry.lookup_of_undefined hfound, contains_of_undefined hfound]
        exact .services _ (served.candidates_perm compiled indexed _)
    | some definition =>
        have hcontains := contains_of_definition hfound
        have hsame := isHidden_of_definition hfound
        rw [Registry.lookup_of_definition hfound, hcontains, hsame]
        cases hflag : definition.flags.hidden with
        | true => exact .missing .withheld .withheld
        | false =>
            have hend := unmasked.ends name hcontains
            have hagain : machine.canonical (registry.resolveAlias name) =
                registry.resolveAlias (registry.resolveAlias name) :=
              served.canonical_of_exposed compiled fun _ => by rw [hend, hsame, hflag]
            have halike := served.internalLookup_alike compiled indexed hagain
            rw [← hend] at hfound
            rw [Registry.lookup_of_definition hfound, hend] at halike
            exact halike
  · obtain ⟨definition, hfound, hflag⟩ := definition_of_isHidden hhidden
    rw [Registry.lookup_of_definition hfound, hflag, Machine.publicLookup, hcanonical, hempty,
      served.contains_methods compiled, served.routine?_eq compiled, habsent]
    exact .missing .withheld (.services name)

theorem has_eq (unmasked : registry.Unmasked) (name : String) :
    registry.has name = machine.has name := by
  rcases served.canonical_cases compiled indexed unmasked name with
    hcanonical | ⟨hhidden, hcanonical, habsent, hempty⟩
  · rw [Registry.has, Machine.has, hcanonical, served.contains_methods compiled,
      served.routine?_eq compiled]
    cases hfound : registry.definition? (registry.resolveAlias name) with
    | none =>
        rw [contains_of_undefined hfound]
        have hperm := served.candidates_perm compiled indexed (registry.resolveAlias name)
        exact congrArg Bool.not hperm.isEmpty_eq
    | some definition =>
        rw [contains_of_definition hfound, isHidden_of_definition hfound]
        rfl
  · obtain ⟨definition, hfound, hflag⟩ := definition_of_isHidden hhidden
    rw [Registry.has, hfound, Machine.has, hcanonical, hempty, served.routine?_eq compiled, habsent]
    exact congrArg Bool.not hflag

/-- Names of definitions lead alike between definitions. -/
theorem lookup_of_contains (unmasked : registry.Unmasked) {id : String}
    (hid : registry.contains id) :
    (registry.lookup false id).Alike (machine.internalLookup id) := by
  refine served.internalLookup_alike compiled indexed (served.canonical_of_exposed compiled ?_)
  intro hname
  refine Bool.eq_false_iff.mpr fun hhidden => ?_
  obtain ⟨habsent, -⟩ := unmasked.withheld id hname hhidden
  rw [hid] at habsent
  cases habsent

end Lookups

end Registry.Served

theorem Registry.services_of_lookup {registry : Registry} {isPublic : Bool} {name typeName : String}
    {ids : List String} (hlookup : registry.lookup isPublic name = .services typeName ids) :
    ids = registry.candidates typeName := by
  cases hfound : registry.definition? (registry.resolveAlias name) with
  | none =>
      rw [lookup_of_undefined hfound] at hlookup
      cases hlookup
      rfl
  | some definition =>
      rw [lookup_of_definition hfound] at hlookup
      split at hlookup <;> cases hlookup

theorem Machine.services_of_lookup {machine : Machine} {isPublic : Bool} {name typeName : String}
    {ids : List String} (hlookup : machine.lookup isPublic name = .services typeName ids) :
    ids = machine.candidates typeName := by
  have hinternal : ∀ name, machine.internalLookup name = .services typeName ids →
      ids = machine.candidates typeName := by
    intro name hlookup
    rw [internalLookup] at hlookup
    split at hlookup <;> cases hlookup
    rfl
  cases isPublic with
  | false => exact hinternal name hlookup
  | true =>
      change machine.publicLookup name = _ at hlookup
      rw [publicLookup] at hlookup
      split at hlookup
      · exact hinternal _ hlookup
      · split at hlookup <;> cases hlookup
        rfl

namespace Registry

variable {registry : Registry} {config : Config} {program : Program} {interpreter : Interpreter}
  {machine : Machine}

/-- **The public is served alike.** What a name selects for the public is the same in an interpreter
and in a machine, and so is whether there is anything, if what a program leaves out is not missed. -/
theorem public_surfaces_agree (reachable : registry.Reachable)
    (hcompile : registry.compile config = .ok program) (unmasked : registry.Unmasked)
    (served : registry.Served program interpreter machine) (name : String) :
    (Container.interpreting interpreter).has name = (Container.running machine).has name ∧
      ∀ (options : ResolveOptions) (depth : Nat), Option.Rel Selection.Alike
        ((Container.interpreting interpreter).select options depth true name)
        ((Container.running machine).select options depth true name) := by
  have compiled := compiled_of_compile hcompile
  have indexed := reachable.indexed
  constructor
  · obtain ⟨frozen, tags, hregistry⟩ := served.registry_eq
    have hread : interpreter.registry.has name = registry.has name := by
      rw [hregistry]
      rfl
    exact hread.trans (served.has_eq compiled indexed unmasked name)
  · intro options depth
    apply Container.select_rel
    · intro isPublic name typeName ids hlookup id hid
      have hfound : registry.lookup isPublic name = .services typeName ids :=
        (served.lookup isPublic name).symm.trans hlookup
      rw [services_of_lookup hfound] at hid
      exact served.contains_of_candidate compiled
        ((served.candidates_perm compiled indexed typeName).mem_iff.mp hid)
    · intro isPublic name typeName ids hlookup id hid
      rw [Machine.services_of_lookup hlookup] at hid
      exact served.contains_of_candidate compiled hid
    · intro id hid
      change (interpreter.registry.lookup false id).Alike _
      rw [served.lookup]
      exact served.lookup_of_contains compiled indexed unmasked hid
    · change (interpreter.registry.lookup true name).Alike _
      rw [served.lookup]
      exact served.publicLookup_alike compiled indexed unmasked name

/-- A private service `p`, a public one `q` of type `T`, one more that is what stands for `T`, and an
alias. -/
def aliased (name target : String) : Registry :=
  let p := Registration.set "p" ((Definition.ofValue (.int 1)).withFlags [.hidden] true)
  let q := Registration.autowire "q" (.ofValue (.int 2)) ["T"]
  let r := Registration.set "r" (.ofEntity (.statement (.mk (.service "T") ∅)))
  let added := Registration.addAlias name target
  added.after (r.after (q.after (p.after ∅ {}) {}) {}) {}

theorem aliased_reachable (name target : String) : (aliased name target).Reachable :=
  .step _ _ (.step _ _ (.step _ _ (.step _ _ .empty)))

def aliasedProgram (name target : String) : Program :=
  ((aliased name target).compile {}).toOption.getD default

def aliasedInterpreting (name target : String) : Interpreter :=
  .ofRegistry (aliased name target) {} .silent

def aliasedRunning (name target : String) : Machine :=
  .load (aliasedProgram name target) (aliased name target).catalog 100 .silent

theorem aliased_aliases (target : String)
    (haliases : (aliased "x" target).aliases = { targets := (∅ : Table String).insert "x" target })
    (hne : target ≠ "x") (name : String) :
    (aliased "x" target).aliases.target? name = (if name = "x" then some target else none) ∧
      (aliased "x" target).resolveAlias name = if name = "x" then target else name := by
  have htarget : ∀ name, (aliased "x" target).aliases.target? name =
      if name = "x" then some target else none := by
    intro name
    rw [haliases]
    exact Table.get?_insert _ _ _ _
  refine ⟨htarget name, ?_⟩
  by_cases here : name = "x"
  · have hstep : (aliased "x" target).resolveAlias name =
        (aliased "x" target).aliases.follow (aliased "x" target).aliases.size target := by
      rw [resolveAlias, AliasTable.resolve, AliasTable.follow, htarget, if_pos here]
    have hsize : (aliased "x" target).aliases.size = 1 := by
      rw [haliases]
      rfl
    rw [hstep, hsize, AliasTable.follow, htarget, if_neg hne, if_pos here]
  · rw [if_neg here, resolveAlias]
    exact AliasTable.resolve_of_free (by rw [htarget, if_neg here])

theorem aliased_unmasked : (aliased "x" "p").Unmasked := by
  have haliases := aliased_aliases "p" rfl (by decide)
  constructor
  · intro name hname hhidden
    have hfound : ((aliased "x" "p").aliases.target? name).isSome := hname
    rw [(haliases name).1] at hfound
    by_cases here : name = "x"
    · subst here
      exact ⟨rfl, rfl⟩
    · simp [here] at hfound
  · intro name _
    rw [(haliases name).2]
    by_cases here : name = "x"
    · rw [if_pos here, (haliases "p").2]
      rfl
    · rw [if_neg here, (haliases name).2, if_neg here]

/-- The alias leads the public of neither container to the private service. -/
theorem aliased_public_surfaces :
    (Container.interpreting (aliasedInterpreting "x" "p")).has "x" =
        (Container.running (aliasedRunning "x" "p")).has "x" ∧
      ∀ (options : ResolveOptions) (depth : Nat), Option.Rel Selection.Alike
        ((Container.interpreting (aliasedInterpreting "x" "p")).select options depth true "x")
        ((Container.running (aliasedRunning "x" "p")).select options depth true "x") := by
  have hcompile : (aliased "x" "p").compile {} = .ok (aliasedProgram "x" "p") := rfl
  have served := served_fresh (aliased "x" "p") (aliasedProgram "x" "p") {} (aliased "x" "p").catalog
    100 .silent
  exact public_surfaces_agree (aliased_reachable "x" "p") hcompile aliased_unmasked served "x"

/-- An alias that is named like a type and leads to the private service: the public of the
interpreter is told of nothing, while the program, which does not export the alias, gives it the
service of the type. -/
theorem alias_masks_type :
    (aliased "T" "p").Reachable ∧ (aliased "T" "p").compile {} = .ok (aliasedProgram "T" "p") ∧
      (aliasedInterpreting "T" "p").registry.has "T" = false ∧
      (aliasedRunning "T" "p").has "T" = true ∧
      (Call.run 2 (.get ⟨0⟩ "T" {})
        { containers := #[some (.interpreting (aliasedInterpreting "T" "p"))] }).1 =
          .error (.error (.notFound "T")) ∧
      (Call.run 2 (.get ⟨0⟩ "T" {})
        { containers := #[some (.running (aliasedRunning "T" "p"))] }).1 = .ok (.int 2) :=
  ⟨aliased_reachable "T" "p", rfl, rfl, rfl, rfl, rfl⟩

end Registry
end Wiring
