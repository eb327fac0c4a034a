import Wiring.Proofs.Surfaces

/-!
# What the public gets of private services

The first lookup of a public call tells nothing of a private service unless it is the only one that
is listed under a type. The names that it leads to are looked up once more, now with private
services in view. This adds nothing as long as each of them leads to itself, or to something public:
an alias that is named like a definition hides it from the second lookup, and may put a private one
in its place.
-/

namespace Wiring

/-- The service of `p` is what is selected, or it is among the services that are. -/
inductive Selection.Yields (p : String) : Selection → Prop
  | definition : Yields p (.definition p)
  | all {members : List Selection} {member : Selection} (hmember : member ∈ members)
      (h : member.Yields p) : Yields p (.all members)

theorem mem_of_mapM {α β : Type} {f : α → Option β} {items : List α} {results : List β}
    (h : items.mapM f = some results) {result : β} (hresult : result ∈ results) :
    ∃ item ∈ items, f item = some result := by
  have hall := mapM_eq_some_iff.mp h
  clear h
  induction hall with
  | nil => cases hresult
  | @cons item first _ _ hfirst _ ih =>
      rcases List.mem_cons.mp hresult with rfl | hrest
      · exact ⟨item, List.mem_cons_self, hfirst⟩
      · obtain ⟨item, hitem, hfound⟩ := ih hrest
        exact ⟨item, List.mem_cons_of_mem _ hitem, hfound⟩

namespace Container

/-- Where the container's aliases lead. -/
def canonical (name : String) : Container → String
  | .interpreting c => c.registry.resolveAlias name
  | .running c => c.canonical name

/-- The names that a public call looks up once more: what stands for a type, and for a machine the
name of a definition as well. -/
def rereads (name : String) : Container → List String
  | .interpreting c => c.registry.candidates (c.registry.resolveAlias name)
  | .running c => c.canonical name :: c.candidates (c.canonical name)

/-- A definition that is looked up once more leads to itself, or to a public one. -/
def Unmasks (container : Container) (registry : Registry) (name : String) : Prop :=
  ∀ id ∈ container.rereads name, registry.contains id → container.canonical id = id ∨
    registry.contains (container.canonical id) ∧
      registry.isHidden (container.canonical id) = false

end Container

/-- The registry's interpreters and the machines of its program, in any state: what is frozen,
tagged, cached or under construction may be anything. -/
inductive Registry.Engine (registry : Registry) : Container → Prop
  | interpreting {interpreter : Interpreter}
      (hregistry : ∃ frozen tags, interpreter.registry = { registry with frozen, tags }) :
      Engine registry (.interpreting interpreter)
  | running {machine : Machine} {config : Config}
      (hcompile : registry.compile config = .ok machine.program) :
      Engine registry (.running machine)

namespace Registry

variable {registry : Registry} {container : Container} {name : String}

theorem contains_of_candidate (indexed : registry.Indexed) {typeName id : String}
    (hid : id ∈ registry.candidates typeName) : registry.contains id := by
  have hlisted := (selectCandidates_sublist _ _).subset hid
  obtain ⟨definition, hfound, -⟩ := (indexed.mem_lookup_iff typeName id).mp hlisted
  exact contains_of_definition hfound

namespace Engine

/-- Between definitions, a name that leads to a definition is taken for it. -/
theorem lookup_internal (engine : registry.Engine container)
    (hdefined : registry.contains (container.canonical name)) :
    container.lookup false name = .definition (container.canonical name) := by
  cases engine with
  | @interpreting interpreter hregistry =>
      obtain ⟨frozen, tags, hregistry⟩ := hregistry
      have hsame : ∀ id, interpreter.registry.contains id = registry.contains id := by
        rw [hregistry]
        exact fun _ => rfl
      obtain ⟨definition, hfound⟩ := Option.isSome_iff_exists.mp ((hsame _).trans hdefined)
      exact lookup_of_definition hfound false
  | @running machine config hcompile =>
      have hroutine := (compiled_of_compile hcompile).routine?_eq (machine.canonical name)
      rw [if_pos (show registry.contains (machine.canonical name) from hdefined)] at hroutine
      change machine.internalLookup name = _
      rw [Machine.internalLookup, hroutine]
      rfl

/-- **The first lookup.** The public is led to a public definition or to nothing, or else to the
candidates of a type that is no definition's id. -/
theorem lookup_public (engine : registry.Engine container) (indexed : registry.Indexed)
    (unmasks : container.Unmasks registry name) :
    (∃ id, container.lookup true name = .definition id ∧ registry.isHidden id = false) ∨
    container.lookup true name = .withheld ∨
    registry.contains (container.canonical name) = false ∧ ∃ ids,
      container.lookup true name = .services (container.canonical name) ids ∧
        ids.Perm (registry.candidates (container.canonical name)) ∧
          ∀ id ∈ ids, id ∈ container.rereads name := by
  cases engine with
  | @interpreting interpreter hregistry =>
      obtain ⟨frozen, tags, hregistry⟩ := hregistry
      have hfound : ∀ id, interpreter.registry.definition? id = registry.definition? id := by
        rw [hregistry]
        exact fun _ => rfl
      have hcandidates : ∀ typeName,
          interpreter.registry.candidates typeName = registry.candidates typeName := by
        rw [hregistry]
        exact fun _ => rfl
      change _ ∨ interpreter.registry.lookup true name = _ ∨ registry.contains
        (interpreter.registry.resolveAlias name) = false ∧ _
      cases hdefined :
          interpreter.registry.definition? (interpreter.registry.resolveAlias name) with
      | none =>
          rw [hfound] at hdefined
          refine .inr (.inr ⟨contains_of_undefined hdefined, _,
            lookup_of_undefined ((hfound _).trans hdefined) true, ?_, fun id hid => hid⟩)
          rw [hcandidates]
          exact .refl _
      | some definition =>
          have hlookup := lookup_of_definition hdefined true
          rw [hfound] at hdefined
          cases hhidden : definition.flags.hidden with
          | true =>
              rw [hhidden] at hlookup
              exact .inr (.inl hlookup)
          | false =>
              rw [hhidden] at hlookup
              exact .inl ⟨_, hlookup, (isHidden_of_definition hdefined).trans hhidden⟩
  | @running machine config hcompile =>
      have compiled := compiled_of_compile hcompile
      change (∃ id, machine.publicLookup name = _ ∧ _) ∨ machine.publicLookup name = _ ∨
        registry.contains (machine.canonical name) = false ∧
          ∃ ids, machine.publicLookup name = _ ∧ _
      rw [Machine.publicLookup, compiled.contains_methods, compiled.routine?_eq]
      cases hdefined : registry.contains (machine.canonical name) with
      | false =>
          refine .inr (.inr ⟨rfl, _, rfl, ?_, fun id hid => List.mem_cons_of_mem _ hid⟩)
          rw [Machine.candidates, compiled.candidates_eq]
          exact Plan.candidates_perm registry config.maxDepth indexed _
      | true =>
          cases hhidden : registry.isHidden (machine.canonical name) with
          | true => exact .inr (.inl rfl)
          | false =>
              have hagain := unmasks (machine.canonical name) List.mem_cons_self hdefined
              have hends : registry.contains (machine.canonical (machine.canonical name)) ∧
                  registry.isHidden (machine.canonical (machine.canonical name)) = false := by
                rcases hagain with hself | hpublic
                · change machine.canonical (machine.canonical name) = _ at hself
                  rw [hself]
                  exact ⟨hdefined, hhidden⟩
                · exact hpublic
              have hlookup := lookup_internal (.running hcompile) hends.1
              exact .inl ⟨_, hlookup, hends.2⟩

/-- **The second lookup** of a candidate finds it, or something public. -/
theorem select_candidate (engine : registry.Engine container) (indexed : registry.Indexed)
    (unmasks : container.Unmasks registry name) {typeName id : String}
    (hid : id ∈ registry.candidates typeName) (hreread : id ∈ container.rereads name)
    {options : ResolveOptions} {depth : Nat} {selection : Selection}
    (hselect : container.select options depth false id = some selection) :
    ∃ found, selection = .definition found ∧ (found = id ∨ registry.isHidden found = false) := by
  have hid := contains_of_candidate indexed hid
  have hends : registry.contains (container.canonical id) ∧
      (container.canonical id = id ∨ registry.isHidden (container.canonical id) = false) := by
    rcases unmasks id hreread hid with hself | ⟨hdefined, hpublic⟩
    · exact ⟨hself.symm ▸ hid, .inl hself⟩
    · exact ⟨hdefined, .inr hpublic⟩
  cases depth with
  | zero => cases hselect
  | succ depth =>
      rw [Container.select, engine.lookup_internal hends.1] at hselect
      exact ⟨_, (Option.some.inj hselect).symm, hends.2⟩

end Engine

/-- A private service that is selected for candidates is one of them. -/
theorem mem_of_yields {options : ResolveOptions} {depth : Nat} {ids : List String} {p : String}
    (hprivate : registry.isHidden p = true)
    (hids : ∀ id ∈ ids, ∀ selection, container.select options depth false id = some selection →
      ∃ found, selection = .definition found ∧ (found = id ∨ registry.isHidden found = false))
    {selection : Selection} (hselect : Selection.among options
      (fun id => container.select options depth false id) ids = some selection)
    (hyields : selection.Yields p) : p ∈ ids := by
  have hone : ∀ id ∈ ids, ∀ member, container.select options depth false id = some member →
      member.Yields p → p ∈ ids := by
    intro id hid member hmember hyields
    obtain ⟨found, rfl, hsame | hpublic⟩ := hids id hid member hmember
    · cases hyields
      exact hsame ▸ hid
    · cases hyields
      rw [hprivate] at hpublic
      cases hpublic
  rcases ids with _ | ⟨first, _ | ⟨second, rest⟩⟩
  · cases hselect
    cases hyields
  · exact hone first List.mem_cons_self selection hselect hyields
  · rw [Selection.among_several] at hselect
    split at hselect
    · obtain ⟨members, hmembers, rfl⟩ := Option.map_eq_some_iff.mp hselect
      cases hyields with
      | @all _ member hmember hyields =>
          obtain ⟨id, hid, hselected⟩ := mem_of_mapM hmembers hmember
          exact hone id hid member hselected hyields
    · cases hselect
      cases hyields

/-- **Private services are kept.** Where what is looked up once more is unmasked, the public gets a
private service by nothing but a type, and that only if no other service is listed under it. -/
theorem private_kept (reachable : registry.Reachable) (engine : registry.Engine container)
    (unmasks : container.Unmasks registry name) {options : ResolveOptions} {depth : Nat}
    {selection : Selection} (hselect : container.select options depth true name = some selection)
    {p : String} (hyields : selection.Yields p) (hprivate : registry.isHidden p = true) :
    registry.contains (container.canonical name) = false ∧
      registry.types.lookup (container.canonical name) = [p] := by
  have indexed := reachable.indexed
  cases depth with
  | zero => cases hselect
  | succ depth =>
      rw [Container.select] at hselect
      rcases engine.lookup_public indexed unmasks with
        ⟨id, hlookup, hpublic⟩ | hlookup | ⟨habsent, ids, hlookup, hperm, hrereads⟩
      · rw [hlookup] at hselect
        cases hselect
        cases hyields
        rw [hprivate] at hpublic
        cases hpublic
      · rw [hlookup] at hselect
        cases hselect
        cases hyields
      · rw [hlookup] at hselect
        have hids : ∀ id ∈ ids, ∀ selection, container.select options depth false id =
            some selection → ∃ found, selection = .definition found ∧
              (found = id ∨ registry.isHidden found = false) := fun id hid _ =>
          engine.select_candidate indexed unmasks (hperm.mem_iff.mp hid) (hrereads id hid)
        have hp := hperm.mem_iff.mp (mem_of_yields hprivate hids hselect hyields)
        exact ⟨habsent, eq_singleton_of_selected hp hprivate⟩

/-- A private service `p` of type `U` and a public one `q` of type `T`. -/
def sheltering : Registry :=
  let p := Registration.autowire "p" ((Definition.ofValue (.int 1)).withFlags [.hidden] true) ["U"]
  let q := Registration.autowire "q" (.ofValue (.int 2)) ["T"]
  q.after (p.after ∅ {}) {}

/-- The same with an alias that is named like the public service and leads to the type of the
private one. -/
def unveiling : Registry :=
  let added := Registration.addAlias "q" "U"
  added.after sheltering {}

def interpretingAnew (registry : Registry) : Container :=
  .interpreting (.ofRegistry registry {} .silent)

def runningAnew (registry : Registry) : Container :=
  .running (.load ((registry.compile {}).toOption.getD default) registry.catalog 100 .silent)

theorem sheltering_reachable : sheltering.Reachable := .step _ _ (.step _ _ .empty)

/-- By its type both kinds of container give the private service, which is the only one. -/
theorem private_kept_sole :
    ((interpretingAnew sheltering).select {} 2 true "U" = some (.definition "p") ∧
      sheltering.types.lookup ((interpretingAnew sheltering).canonical "U") = ["p"]) ∧
    (runningAnew sheltering).select {} 2 true "U" = some (.definition "p") ∧
      sheltering.types.lookup ((runningAnew sheltering).canonical "U") = ["p"] := by
  have hrereads : ∀ container : Container, container.rereads "U" ⊆ ["p", "U"] →
      container.canonical "p" = "p" → container.canonical "U" = "U" →
        container.Unmasks sheltering "U" := by
    intro container hsubset hp hU id hid _
    rcases List.mem_cons.mp (hsubset hid) with rfl | hlast
    · exact .inl hp
    · rw [List.mem_singleton.mp hlast]
      exact .inl hU
  have interpreting : sheltering.Engine (interpretingAnew sheltering) :=
    .interpreting ⟨sheltering.frozen, sheltering.tags, rfl⟩
  have hcompile : sheltering.compile {} = .ok ((sheltering.compile {}).toOption.getD default) := rfl
  have running : sheltering.Engine (runningAnew sheltering) := .running hcompile
  have hinterpreting : (interpretingAnew sheltering).select {} 2 true "U" =
      some (.definition "p") := rfl
  have hrunning : (runningAnew sheltering).select {} 2 true "U" = some (.definition "p") := rfl
  have unmasks := hrereads (interpretingAnew sheltering) (by decide) rfl rfl
  have unmasks' := hrereads (runningAnew sheltering) (by decide) rfl rfl
  exact ⟨⟨hinterpreting,
      (private_kept sheltering_reachable interpreting unmasks hinterpreting .definition rfl).2⟩,
    hrunning, (private_kept sheltering_reachable running unmasks' hrunning .definition rfl).2⟩

/-- An alias that is named like the service of a type makes both kinds of container give the public
a private service of another type. -/
theorem alias_unveils_private :
    unveiling.Reachable ∧ unveiling.isHidden "p" = true ∧
      unveiling.types.lookup "T" = ["q"] ∧ unveiling.resolveAlias "T" = "T" ∧
      (interpretingAnew unveiling).select {} 3 true "T" = some (.definition "p") ∧
      (runningAnew unveiling).select {} 3 true "T" = some (.definition "p") ∧
      (Call.run 4 (.get ⟨0⟩ "T" {}) { containers := #[some (interpretingAnew unveiling)] }).1 =
        .ok (.int 1) ∧
      (Call.run 4 (.get ⟨0⟩ "T" {}) { containers := #[some (runningAnew unveiling)] }).1 =
        .ok (.int 1) :=
  ⟨.step _ _ sheltering_reachable, rfl, rfl, rfl, rfl, rfl, rfl, rfl⟩

end Registry
end Wiring
