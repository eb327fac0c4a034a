import Wiring.Proofs.Absence
import Wiring.Proofs.Privacy
import Wiring.Proofs.Steps
import Wiring.Proofs.TracedCalls

/-!
# What is there can be asked for

A container tells whether a name is there in one way and follows it in another. Where no alias is
named like a definition the two agree: a name that is not there is given up at once, and behind one
that is there stand one or several definitions, each of which is found when it is looked up again. If
something is missing after all, it is missing while the service of one of them is made.
-/

namespace Wiring

open Run

/-- No alias is named like a definition. -/
def Registry.AliasesApart (registry : Registry) : Prop :=
  ∀ name, registry.aliases.contains name → registry.contains name = false

theorem mapM_congr {α β : Type} {f g : α → Option β} {items : List α}
    (h : ∀ item ∈ items, f item = g item) : items.mapM f = items.mapM g := by
  induction items with
  | nil => rfl
  | cons item rest ih =>
      rw [List.mapM_cons, List.mapM_cons, h item List.mem_cons_self,
        ih fun other hother => h other (List.mem_cons_of_mem _ hother)]

theorem Selection.among_congr {options : ResolveOptions} {select select' : String → Option Selection}
    {ids : List String} (h : ∀ id ∈ ids, select id = select' id) :
    among options select ids = among options select' ids := by
  rcases ids with _ | ⟨first, _ | ⟨second, rest⟩⟩
  · rfl
  · exact h first List.mem_cons_self
  · rw [among_several, among_several]
    split
    · exact congrArg _ (mapM_congr h)
    · rfl

namespace Container

/-- The definitions that stand behind a name for the public. -/
def eligible (name : String) (container : Container) : List String :=
  match container.lookup true name with
  | .definition id => [id]
  | .withheld => []
  | .services _ ids => ids

/-- What decorates a new service of the definition. -/
def decorators (id : String) : Container → List Decorator
  | .interpreting c => ((c.registry.definition? id).map Definition.decorators).getD []
  | .running c => ((c.program.routine? id).map Routine.decorators).getD []

end Container

namespace Registry

variable {registry : Registry} {container : Container} {name id : String}

namespace Engine

theorem defines_eq (engine : registry.Engine container) (id : String) :
    container.defines id = registry.contains id := by
  cases engine with
  | @interpreting interpreter hregistry =>
      obtain ⟨frozen, tags, hregistry⟩ := hregistry
      rw [Container.defines, hregistry]
      rfl
  | @running machine config hcompile =>
      rw [Container.defines, (compiled_of_compile hcompile).routine?_eq]
      cases registry.contains id <;> rfl

theorem of_base {other : Container} (engine : registry.Engine container)
    (hbase : other.base = container.base) : registry.Engine other := by
  cases engine with
  | @interpreting interpreter hregistry =>
      obtain ⟨frozen, tags, hregistry⟩ := hregistry
      cases other with
      | running machine => cases hbase
      | interpreting now =>
          have hsame := congrArg Interpreter.registry (Container.interpreting.inj hbase)
          dsimp only at hsame
          rw [hregistry] at hsame
          refine .interpreting ⟨now.registry.frozen, now.registry.tags, ?_⟩
          exact congrArg (fun bared : Registry =>
            { bared with frozen := now.registry.frozen, tags := now.registry.tags }) hsame
  | @running machine config hcompile =>
      obtain ⟨now, rfl⟩ := Container.running_of_base hbase
      have hprogram := congrArg Machine.program (Container.running.inj hbase)
      dsimp only at hprogram
      have hnow : registry.compile config = .ok now.program := hprogram ▸ hcompile
      exact .running hnow

/-- A definition's id is not led away from it. -/
theorem canonical_self (engine : registry.Engine container) (apart : registry.AliasesApart)
    (hid : registry.contains id) : container.canonical id = id := by
  have hfree : registry.aliases.contains id = false :=
    Bool.eq_false_iff.mpr fun halias => by
      rw [apart id halias] at hid
      cases hid
  have hself : registry.resolveAlias id = id := AliasTable.resolve_of_not_contains hfree
  cases engine with
  | @interpreting interpreter hregistry =>
      obtain ⟨frozen, tags, hregistry⟩ := hregistry
      rw [Container.canonical, hregistry]
      exact hself
  | @running machine config hcompile =>
      refine ((compiled_of_compile hcompile).canonical_of_exposed fun halias => ?_).trans hself
      rw [hfree] at halias
      cases halias

theorem lookup_self (engine : registry.Engine container) (apart : registry.AliasesApart)
    (hid : registry.contains id) : container.lookup false id = .definition id := by
  have hself := engine.canonical_self apart hid
  rw [engine.lookup_internal (hself.symm ▸ hid), hself]

section Names

variable (engine : registry.Engine container) (apart : registry.AliasesApart)

include engine apart

/-- **A name is there** if a definition stands behind it. -/
theorem has_eq (name : String) : container.has name = !(container.eligible name).isEmpty := by
  cases engine with
  | @interpreting interpreter hregistry =>
      change interpreter.registry.has name =
        !(Container.eligible name (.interpreting interpreter)).isEmpty
      rw [Registry.has, Container.eligible, Container.lookup]
      cases hfound : interpreter.registry.definition? (interpreter.registry.resolveAlias name) with
      | none =>
          rw [lookup_of_undefined hfound]
      | some definition =>
          rw [lookup_of_definition hfound]
          dsimp only
          cases definition.flags.hidden <;> rfl
  | @running machine config hcompile =>
      have compiled := compiled_of_compile hcompile
      change machine.has name = !(Container.eligible name (.running machine)).isEmpty
      rw [Machine.has, Container.eligible, Container.lookup, Machine.lookup, if_pos rfl,
        Machine.publicLookup, compiled.contains_methods, compiled.routine?_eq]
      cases hdefined : registry.contains (machine.canonical name) with
      | false => rfl
      | true =>
          cases hhidden : registry.isHidden (machine.canonical name) with
          | true => rfl
          | false =>
              have hself : machine.internalLookup (machine.canonical name) = _ :=
                lookup_self (.running hcompile) apart hdefined
              rw [hself]
              rfl

variable (indexed : registry.Indexed)

include indexed

theorem contains_of_eligible (hid : id ∈ container.eligible name) : registry.contains id := by
  have unmasks : container.Unmasks registry name := fun id _ hid =>
    .inl (engine.canonical_self apart hid)
  rw [Container.eligible] at hid
  rcases engine.lookup_public indexed unmasks with
    ⟨found, hlookup, -⟩ | hlookup | ⟨-, ids, hlookup, hperm, -⟩
  · rw [hlookup] at hid
    rw [← engine.defines_eq, List.mem_singleton.mp hid]
    exact Container.defines_of_lookup hlookup
  · rw [hlookup] at hid
    cases hid
  · rw [hlookup] at hid
    exact contains_of_candidate indexed (hperm.mem_iff.mp hid)

/-- **What is selected** for a name are the definitions that stand behind it. -/
theorem select_eq (options : ResolveOptions) (depth : Nat) (name : String) :
    container.select options (depth + 2) true name =
      Selection.among options (fun id => some (.definition id)) (container.eligible name) := by
  have hids : ∀ id ∈ container.eligible name,
      container.select options (depth + 1) false id = some (.definition id) := by
    intro id hid
    rw [Container.select,
      engine.lookup_self apart (engine.contains_of_eligible apart indexed hid)]
  rw [Container.select]
  rw [Container.eligible] at hids ⊢
  cases hlookup : container.lookup true name with
  | definition id => rfl
  | withheld => rfl
  | services typeName ids =>
      rw [hlookup] at hids
      exact Selection.among_congr hids

end Names

end Engine

end Registry

/-! ### What the public is answered -/

namespace Call

variable {world : World} {c : ContainerRef} {container : Container} {name : String}
  (hat : world.container? c = some container)

include hat

/-- Where no definition stands behind the name, nothing is done. -/
theorem step_get_none (hnone : container.eligible name = []) (options : ResolveOptions) :
    ∃ missing, ∀ recur : Caller,
      step recur (.get c name options) world = (.error (.error (.notFound missing)), world) := by
  have hstep := fun recur : Caller => step_locate hat recur true name options
  rw [Container.eligible] at hnone
  cases hlookup : container.lookup true name with
  | definition id =>
      rw [hlookup] at hnone
      cases hnone
  | withheld =>
      rw [hlookup] at hstep
      exact ⟨name, hstep⟩
  | services typeName ids =>
      rw [hlookup] at hnone hstep
      dsimp only at hnone
      subst hnone
      exact ⟨typeName, hstep⟩

/-- Several are told of, unless all of them were asked for. -/
theorem step_get_several (hseveral : 2 ≤ (container.eligible name).length)
    {options : ResolveOptions} (hoptions : options.ignoreAmbiguity = false) :
    ∃ typeName, ∀ recur : Caller, step recur (.get c name options) world =
      (.error (.error (.ambiguousType typeName (container.eligible name))), world) := by
  have hstep := fun recur : Caller => step_locate hat recur true name options
  rw [Container.eligible] at hseveral ⊢
  cases hlookup : container.lookup true name with
  | definition id =>
      rw [hlookup] at hseveral
      exact absurd hseveral (by simp)
  | withheld =>
      rw [hlookup] at hseveral
      exact absurd hseveral (by simp)
  | services typeName ids =>
      rw [hlookup] at hseveral hstep
      dsimp only at hseveral ⊢
      rcases ids with _ | ⟨first, _ | ⟨second, rest⟩⟩
      · exact absurd hseveral (by simp)
      · exact absurd hseveral (by simp)
      · refine ⟨typeName, fun recur => (hstep recur).trans ?_⟩
        rw [Lookup.run, resolveType_several, hoptions]
        rfl

end Call

/-! ### What is missing later -/

theorem Chain.enter_ne_notFound (maxDepth : Nat) (chain : List String) (id name : String) :
    Chain.enter maxDepth chain id ≠ .error (.notFound name) := by
  unfold Chain.enter
  split_ifs <;> simp

namespace Run.Lacks

variable {α : Type} {names : String → Prop} {c : ContainerRef}

theorem container {next : Container → Run α} (h : ∀ container, (next container).Lacks names) :
    Lacks names (Run.container c >>= next) := by
  refine Lacks.bind (fun world name later hrun => ?_) h
  cases hat : world.container? c with
  | none =>
      rw [Run.container_absent hat] at hrun
      cases hrun
  | some container =>
      rw [Run.container_apply hat] at hrun
      cases hrun

/-- What is left to do with a new service. -/
theorem announced_kept (container : Container) (id : String) (notice : Option Deprecation)
    (options : ResolveOptions) (service : Value) :
    Lacks names (do
      Run.announce c id notice
      container.keep c id options service) := by
  refine Lacks.bind (.container fun _ => ?_) fun _ => ?_
  · split
    · exact .of_ok fun _ => ⟨(), rfl⟩
    · exact .pure ()
  · unfold Container.keep
    split
    · exact Lacks.bind (.container fun _ => .of_ok fun _ => ⟨(), rfl⟩) fun _ => .pure _
    · exact .pure service

end Run.Lacks

/-- The caller, with an alarm where something is missing. -/
def Caller.alarmed (alarm : Run Value) (recur : Caller) : Caller := fun call world =>
  match recur call world with
  | (.error (.error (.notFound _)), _) => alarm world
  | answer => answer

theorem Caller.alarmed_lacks {names : String → Prop} (recur : Caller) (call : Call) :
    (recur.alarmed (throw .unfinished) call).Lacks names := by
  intro world name later hrun
  unfold alarmed at hrun
  split at hrun
  · cases hrun
  · next hother => exact absurd hrun (hother name later)

/-- User code that making the service may run ends, from some world, with `missing` missing. -/
inductive Container.Tells (container : Container) (c : ContainerRef) (id : String) (recur : Caller)
    (missing : String) : Prop
  | construct {className : String} {spec : ClassSpec} {construct : CallArgs → Behaviour ObjectRef}
      {args : CallArgs} {world later : World}
      (hspec : container.catalog.class? className = some spec)
      (hconstruct : spec.construct = some construct)
      (hrun : (construct args).run recur world = (.error (.error (.notFound missing)), later)) :
      Tells container c id recur missing
  | method {o : ObjectRef} {name : String} {method : ObjectRef → CallArgs → Behaviour Value}
      {args : CallArgs} {world later : World}
      (hmethod : container.catalog.method? o name = some method)
      (hrun : (method o args).run recur world = (.error (.error (.notFound missing)), later)) :
      Tells container c id recur missing
  | decorator {decorator : Decorator} {service : Value} {world later : World}
      (hdecorator : decorator ∈ container.decorators id)
      (hrun : (decorator.apply c service).run recur world =
        (.error (.error (.notFound missing)), later)) : Tells container c id recur missing

namespace Registry

variable {registry : Registry} {container : Container} {world : World} {c : ContainerRef}
  {id : String}

theorem parameter_ne_notFound (registry : Registry) (name missing : String) :
    registry.parameter name ≠ .error (.notFound missing) := by
  unfold parameter
  split <;> simp

/-- **Making a service** misses nothing by itself: what is missing was missed by a further call or
by user code. -/
theorem Engine.make_lacks (engine : registry.Engine container) (hid : registry.contains id)
    {names : String → Prop} {recur : Caller} (hcalls : ∀ call, (recur call).Lacks names)
    (hcatalog : container.catalog.Lacks names recur)
    (hdecorators : ∀ decorator ∈ container.decorators id, ∀ service,
      Run.Lacks names ((decorator.apply c service).run recur)) :
    (container.make recur c id).Lacks names := by
  obtain ⟨definition, hfound⟩ := Option.isSome_iff_exists.mp hid
  cases engine with
  | @interpreting interpreter hregistry =>
      have hsame : interpreter.registry.definition? id = some definition := by
        obtain ⟨frozen, tags, hregistry⟩ := hregistry
        rw [hregistry]
        exact hfound
      rw [Container.decorators, hsame] at hdecorators
      rw [Container.make, hsame]
      dsimp only
      rw [Interpreter.create_reading]
      exact Reading.Lacks.create ⟨hcalls, parameter_ne_notFound _, hcatalog⟩ hdecorators
  | @running machine config hcompile =>
      have compiled := compiled_of_compile hcompile
      have hroutine := Hosts.routine?_of_definition hfound compiled
      rw [Container.decorators, hroutine] at hdecorators
      rw [Container.make, hroutine]
      dsimp only
      rw [Machine.create_reading]
      refine Reading.Lacks.create ⟨hcalls, fun name missing => ?_, hcatalog⟩ hdecorators
      change machine.parameter name ≠ _
      unfold Machine.parameter
      split <;> simp

/-- **Who missed it.** Where making a service ends because something is missing, a call on the way
was told so, or user code ends so although no call of its own was. -/
theorem Engine.missed (engine : registry.Engine container) (hid : registry.contains id)
    {recur : Caller} {missing : String} {later : World}
    (hmake : container.make recur c id world = (.error (.error (.notFound missing)), later)) :
    (∃ alarm, container.make (recur.alarmed alarm) c id world ≠ container.make recur c id world) ∨
      container.Tells c id (recur.alarmed (throw .unfinished)) missing := by
  by_contra hnot
  obtain ⟨hquiet, hsilent⟩ := not_or.mp hnot
  have hcalls : ∀ call, (recur.alarmed (throw .unfinished) call).Lacks (· ≠ missing) :=
    fun call => recur.alarmed_lacks call
  have hmakes : (container.make (recur.alarmed (throw .unfinished)) c id).Lacks (· ≠ missing) := by
    refine engine.make_lacks hid hcalls ⟨?_, ?_⟩ ?_
    · rintro className spec construct hspec hconstruct args world name later hrun rfl
      exact hsilent (.construct hspec hconstruct hrun)
    · rintro o name method hmethod args world missing later hrun rfl
      exact hsilent (.method hmethod hrun)
    · rintro decorator hdecorator service world name later hrun rfl
      exact hsilent (.decorator hdecorator hrun)
  have hsame := not_not.mp (not_exists.mp hquiet (throw .unfinished))
  exact hmakes world missing later (hsame.trans hmake) rfl

end Registry

/-- After calls the id was put under construction in the container at `c`, but its service could not
be made: a call on the way, or else user code, missed something. -/
inductive World.Lacks (world : World) (c : ContainerRef) (id missing : String) : Prop
  | intro {depth : Nat} {before entered between : World} {container : Container}
      {longer : List String} (hleads : World.Leads (fun _ _ => True) world before)
      (hat : before.container? c = some container)
      (henter : Chain.enter container.maxDepth container.loading id = .ok longer)
      (hentered : entered = before.put c (container.setLoading longer))
      (hmake : container.make (Call.run depth) c id entered =
        (.error (.error (.notFound missing)), between))
      (hcause : (∃ alarm : Run Value,
          container.make (Caller.alarmed alarm (Call.run depth)) c id entered ≠
            container.make (Call.run depth) c id entered) ∨
        container.Tells c id (Caller.alarmed (throw .unfinished) (Call.run depth)) missing) :
      Lacks world c id missing

section Missing

variable {world before later : World} {c : ContainerRef} {container : Container} {id missing : String}
  {options : ResolveOptions} {depth : Nat}

/-- A definition is found, and only making its service can miss something. -/
theorem Registry.Engine.lacks_of_obtain {registry : Registry} (engine : registry.Engine container)
    (hleads : World.Leads (fun _ _ => True) world before)
    (hat : before.container? c = some container) (hdefined : container.defines id)
    (hobtain : container.obtain (Call.run depth) c id options before =
      (.error (.error (.notFound missing)), later)) : world.Lacks c id missing := by
  cases hcached : container.cached? id with
  | some service =>
      rw [Container.obtain_cached hcached] at hobtain
      cases hobtain
  | none =>
      cases henter : Chain.enter container.maxDepth container.loading id with
      | error error =>
          rw [Container.obtain_refused hat hdefined hcached henter] at hobtain
          cases hobtain
          exact absurd henter (Chain.enter_ne_notFound _ _ _ _)
      | ok longer =>
          rw [Container.obtain_made hdefined hcached, entering_apply hat henter] at hobtain
          obtain ⟨hfailed, -⟩ := Prod.mk.inj hobtain
          rcases hmake : container.make (Call.run depth) c id
            (before.put c (container.setLoading longer)) with ⟨halt | service, between⟩
          · rw [bind_of_error hmake] at hfailed
            dsimp only at hfailed
            rw [Except.error.inj hfailed] at hmake
            have hid := (engine.defines_eq id).symm.trans hdefined
            exact .intro hleads hat henter rfl hmake (engine.missed hid hmake)
          · rw [bind_of_ok hmake] at hfailed
            -- Nothing is missing any more once the service is there.
            have hlacks := @Run.Lacks.announced_kept (fun _ => False) c container id
              (container.notice? id) options service
            exact (hlacks between missing _ (Prod.ext hfailed rfl)).elim

theorem mapM_eq_error {α β : Type} {visit : α → Run β} {items : List α} {halt : Halt}
    (hvisit : ∀ item ∈ items, ∀ world b later, visit item world = (.ok b, later) →
      World.Leads (fun _ _ => True) world later)
    (hrun : items.mapM visit world = (.error halt, later)) :
    ∃ item ∈ items, ∃ before, World.Leads (fun _ _ => True) world before ∧
      visit item before = (.error halt, later) := by
  induction items generalizing world with
  | nil => cases hrun
  | cons item rest ih =>
      rw [List.mapM_cons] at hrun
      rcases hfirst : visit item world with ⟨failed | first, between⟩
      · rw [bind_of_error hfirst] at hrun
        cases hrun
        exact ⟨item, List.mem_cons_self, world, .refl world, hfirst⟩
      · rw [bind_of_ok hfirst] at hrun
        rcases hrest : rest.mapM visit between with ⟨failed | others, last⟩
        · rw [bind_of_error hrest] at hrun
          cases hrun
          obtain ⟨found, hfound, before, hleads, hfailed⟩ :=
            ih (fun other hother => hvisit other (List.mem_cons_of_mem _ hother)) hrest
          exact ⟨found, List.mem_cons_of_mem _ hfound, before,
            (hvisit item List.mem_cons_self world first between hfirst).trans hleads, hfailed⟩
        · rw [bind_of_ok hrest] at hrun
          cases hrun

namespace Registry.Engine

variable {registry : Registry} {name : String} (engine : registry.Engine container)
  (apart : registry.AliasesApart)

include engine apart

theorem lacks_of_resolve (hat : world.container? c = some container)
    (hid : registry.contains id) (hleads : World.Leads (fun _ _ => True) world before)
    (hresolve : Call.run depth (.resolve c id options) before =
      (.error (.error (.notFound missing)), later)) : world.Lacks c id missing := by
  obtain ⟨makings, htrace⟩ := hleads
  have hbase := htrace.base_eq c
  rw [hat] at hbase
  obtain ⟨now, hnow, hsame⟩ := Option.map_eq_some_iff.mp hbase
  have engine' := engine.of_base hsame
  cases depth with
  | zero => cases hresolve
  | succ depth =>
      have hstep := Call.step_locate hnow (Call.run depth) false id options
      rw [engine'.lookup_self apart hid] at hstep
      have hobtain := hstep.symm.trans hresolve
      exact engine'.lacks_of_obtain ⟨makings, htrace⟩ hnow ((engine'.defines_eq id).trans hid) hobtain

/-- Behind a name that is there, only making a service can miss something. -/
theorem lacks_of_get (indexed : registry.Indexed) (hat : world.container? c = some container)
    (hsome : container.eligible name ≠ [])
    (hget : Call.run depth (.get c name options) world =
      (.error (.error (.notFound missing)), later)) :
    ∃ id ∈ container.eligible name, world.Lacks c id missing := by
  have hids : ∀ id ∈ container.eligible name, registry.contains id :=
    fun id hid => engine.contains_of_eligible apart indexed hid
  cases depth with
  | zero => cases hget
  | succ depth =>
      have hrun := (Call.step_locate hat (Call.run depth) true name options).symm.trans hget
      rw [Container.eligible] at hsome hids ⊢
      cases hlookup : container.lookup true name with
      | definition id =>
          rw [hlookup] at hrun
          exact ⟨id, List.mem_cons_self, engine.lacks_of_obtain (.refl world) hat
            (Container.defines_of_lookup hlookup) hrun⟩
      | withheld =>
          rw [hlookup] at hsome
          exact absurd rfl hsome
      | services typeName ids =>
          rw [hlookup] at hrun hsome hids
          dsimp only at hsome hids ⊢
          rw [Lookup.run] at hrun
          rcases ids with _ | ⟨first, _ | ⟨second, rest⟩⟩
          · exact absurd rfl hsome
          · have hfirst := hids first List.mem_cons_self
            exact ⟨first, List.mem_cons_self,
              engine.lacks_of_resolve apart hat hfirst (.refl world) hrun⟩
          · rw [resolveType_several] at hrun
            split at hrun
            · rcases hall : (first :: second :: rest).mapM
                (fun id => Call.run depth (.resolve c id options)) world with ⟨halt | services, last⟩
              · rw [bind_of_error hall] at hrun
                cases hrun
                obtain ⟨id, hid, before, hleads, hfailed⟩ := mapM_eq_error
                  (fun id _ world _ _ hok => (Call.run_traced depth _ world).leads hok) hall
                exact ⟨id, hid, engine.lacks_of_resolve apart hat (hids id hid) hleads hfailed⟩
              · rw [bind_of_ok hall] at hrun
                cases hrun
            · cases hrun

end Registry.Engine

end Missing

namespace Registry

variable {registry : Registry} {container : Container} {world : World} {c : ContainerRef}

/-- **What is there can be asked for.** Let no alias be named like a definition. Whatever the state
of a container of either kind, a name is not there exactly when nothing is selected for it, and then
asking for it fails at once: no call is made and the world stays as it is. Where the name is there,
the definitions behind it are what is selected: the only one, or else all of them or an ambiguity
that names them, as the options have it. If something is missing all the same, it is missing while the
service of one of these definitions is made, with its id under construction, and then a call on the
way or user code missed it. -/
theorem presence_decides (reachable : registry.Reachable) (apart : registry.AliasesApart)
    (engine : registry.Engine container) (hat : world.container? c = some container)
    (name : String) (options : ResolveOptions) :
    (∀ depth, container.has name = false ↔
      container.select options (depth + 2) true name = some .notFound) ∧
    (container.has name = false → ∃ missing, ∀ recur : Caller,
      Call.step recur (.get c name options) world =
        (.error (.error (.notFound missing)), world)) ∧
    (container.has name = true →
      container.eligible name ≠ [] ∧ (∀ id ∈ container.eligible name, registry.contains id) ∧
      (∀ depth, container.select options (depth + 2) true name =
        Selection.among options (fun id => some (.definition id)) (container.eligible name)) ∧
      (2 ≤ (container.eligible name).length → options.ignoreAmbiguity = false →
        ∃ typeName, ∀ recur : Caller, Call.step recur (.get c name options) world =
          (.error (.error (.ambiguousType typeName (container.eligible name))), world)) ∧
      ∀ depth missing later, Call.run depth (.get c name options) world =
          (.error (.error (.notFound missing)), later) →
        ∃ id ∈ container.eligible name, world.Lacks c id missing) := by
  have indexed := reachable.indexed
  have hhas := engine.has_eq apart name
  have hselect := fun depth => engine.select_eq apart indexed options depth name
  have hnone : container.has name = false ↔ container.eligible name = [] := by
    rw [hhas]
    simp
  have hsome : container.has name = true → container.eligible name ≠ [] := by
    rw [hhas]
    simp
  refine ⟨fun depth => ?_, fun habsent => Call.step_get_none hat (hnone.mp habsent) options,
    fun hpresent => ⟨hsome hpresent, fun id => engine.contains_of_eligible apart indexed, hselect,
      fun hseveral hoptions => Call.step_get_several hat hseveral hoptions,
      fun depth missing later => engine.lacks_of_get apart indexed hat (hsome hpresent)⟩⟩
  rw [hnone, hselect]
  rcases container.eligible name with _ | ⟨first, _ | ⟨second, rest⟩⟩
  · exact iff_of_true rfl rfl
  · exact iff_of_false (List.cons_ne_nil _ _) fun h => by cases h
  · refine iff_of_false (List.cons_ne_nil _ _) fun h => ?_
    rw [Selection.among_several] at h
    split at h
    · obtain ⟨members, -, hmembers⟩ := Option.map_eq_some_iff.mp h
      cases hmembers
    · cases h

theorem aliased_apart : (aliased "x" "q").AliasesApart := by
  intro name hname
  have hfound : ((aliased "x" "q").aliases.target? name).isSome := hname
  rw [(aliased_aliases "q" rfl (by decide) name).1] at hfound
  by_cases here : name = "x"
  · subst here
    rfl
  · simp [here] at hfound

/-- An interpreter is asked for a private service, and a machine for a public one by its alias. -/
theorem presence_decides_aliased :
    let world : World := { containers := #[
      some (.interpreting (aliasedInterpreting "x" "q")), some (.running (aliasedRunning "x" "q"))] }
    (∃ missing, ∀ recur : Caller, Call.step recur (.get ⟨0⟩ "p" {}) world =
      (.error (.error (.notFound missing)), world)) ∧
    (Container.running (aliasedRunning "x" "q")).select {} 2 true "x" = some (.definition "q") := by
  intro world
  have hcompile : (aliased "x" "q").compile {} = .ok (aliasedProgram "x" "q") := rfl
  have interpreting : (aliased "x" "q").Engine (.interpreting (aliasedInterpreting "x" "q")) :=
    .interpreting ⟨(aliased "x" "q").frozen, (aliased "x" "q").tags, rfl⟩
  have running : (aliased "x" "q").Engine (.running (aliasedRunning "x" "q")) := .running hcompile
  have hinterpreter : world.container? ⟨0⟩ = some (.interpreting (aliasedInterpreting "x" "q")) := rfl
  have hmachine : world.container? ⟨1⟩ = some (.running (aliasedRunning "x" "q")) := rfl
  have hprivate := presence_decides (aliased_reachable "x" "q") aliased_apart interpreting
    hinterpreter "p" {}
  have hpublic := presence_decides (aliased_reachable "x" "q") aliased_apart running hmachine "x" {}
  exact ⟨hprivate.2.1 rfl, (hpublic.2.2 rfl).2.2.1 0⟩

end Registry

end Wiring
