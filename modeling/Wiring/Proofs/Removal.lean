import Wiring.Proofs.Chains
import Wiring.Proofs.Indexing
import Wiring.Proofs.Steps
import Wiring.Proofs.TracedCalls
import Wiring.Proofs.Traceless

/-!
# Removal

To remove an id is to remove all that is kept under it, in six tables, and every alias that leads to
it; the rest stays, each thing in its place. A container forgets the service too. So whatever the id
was, it can be set anew, and what it is set to is what the next service is made of.

Aliases are looked at after the one of that name has gone: a chain that went through it ends there
then, and what ends there goes.
-/

namespace Wiring

open Run

namespace AliasTable

variable {table : AliasTable} {id name target : String}

/-- What is left of the table where the id goes. -/
def without (table : AliasTable) (id : String) : AliasTable := (table.erase id).eraseTargeting id

theorem Leads.mono {other : AliasTable} (h : table.Leads name target)
    (hsub : ∀ one next, table.Hop one next → other.Hop one next) : other.Leads name target :=
  Relation.ReflTransGen.mono hsub name target h

theorem hop_of_hop_erase (h : (table.erase id).Hop name target) : table.Hop name target := by
  rw [Hop, target?_erase] at h
  split at h
  · cases h
  · exact h

/-- A chain goes the same way in both tables until it comes to the id. -/
theorem leads_erase_iff : (table.erase id).Leads name id ↔ table.Leads name id := by
  constructor
  · exact fun h => h.mono fun _ _ => hop_of_hop_erase
  · intro h
    induction h using Relation.ReflTransGen.head_induction_on with
    | refl => exact .refl
    | @head here next hhop _ ih =>
        by_cases hhere : here = id
        · rw [hhere]
          exact .refl
        · have hkept : (table.erase id).Hop here next := by
            rw [Hop, target?_erase, if_neg hhere]
            exact hhop
          exact .head hkept ih

/-- Where the id is no alias any more, what led to it ends there. -/
theorem resolve_erase_iff : (table.erase id).resolve name = id ↔ table.Leads name id := by
  rw [← leads_erase_iff]
  constructor
  · intro h
    have hleads := (table.erase id).leads_resolve name
    rwa [h] at hleads
  · intro h
    have hend : (table.erase id).target? id = none := by rw [target?_erase, if_pos rfl]
    exact resolve_of_leads h (target?_eq_none_iff.mp hend)

theorem hop_without_iff :
    (table.without id).Hop name target ↔ table.Hop name target ∧ ¬ table.Leads name id := by
  rw [Hop, without, target?_eraseTargeting, target?_erase]
  by_cases hleads : table.Leads name id
  · rw [if_pos (resolve_erase_iff.mpr hleads)]
    exact iff_of_false (fun h => by cases h) fun h => h.2 hleads
  · have hne : name ≠ id := fun hsame => hleads (hsame ▸ .refl)
    rw [if_neg (fun h => hleads (resolve_erase_iff.mp h)), if_neg hne]
    exact (and_iff_left hleads).symm

theorem target?_without_self (table : AliasTable) (id : String) :
    (table.without id).target? id = none :=
  Option.eq_none_iff_forall_ne_some.mpr fun _ hhop => (hop_without_iff.mp hhop).2 .refl

theorem aliases_without_sublist (table : AliasTable) (id : String) :
    (table.without id).aliases.Sublist table.aliases := by
  have herase : (table.erase id).aliases = table.aliases.filter (· ≠ id) :=
    Table.keys_erase table.targets id
  have htargeting : (table.without id).aliases.Sublist (table.erase id).aliases := by
    refine Entries.keys_filterMap_sublist _ (fun entry kept hkept => ?_) _
    obtain ⟨_, _, rfl⟩ := Option.map_eq_some_iff.mp hkept
    rfl
  exact htargeting.trans (herase ▸ List.filter_sublist)

/-- Nothing but the id itself leads to it. -/
theorem eq_of_leads_without (h : (table.without id).Leads name id) : name = id := by
  rcases h.cases_head with heq | ⟨next, hhop, hrest⟩
  · exact heq
  · obtain ⟨hfirst, hfree⟩ := hop_without_iff.mp hhop
    have hold : table.Leads next id :=
      Leads.mono hrest fun _ _ hstep => (hop_without_iff.mp hstep).1
    exact absurd (.head hfirst hold) hfree

theorem resolve_without_ne (hne : name ≠ id) : (table.without id).resolve name ≠ id := by
  intro h
  have hleads := (table.without id).leads_resolve name
  rw [h] at hleads
  exact hne (eq_of_leads_without hleads)

end AliasTable

namespace TypeIndex

theorem eq_singleton_of_filter_ne {ids : List String} {id : String} (hstocked : ids ≠ [])
    (hnodup : ids.Nodup) (hleft : ids.filter (· ≠ id) = []) : ids = [id] := by
  have hsame : ∀ other ∈ ids, other = id := by simpa [List.filter_eq_nil_iff] using hleft
  match ids with
  | [] => exact absurd rfl hstocked
  | [only] => rw [hsame only (List.mem_singleton_self only)]
  | first :: second :: rest =>
      have hfirst := hsame first List.mem_cons_self
      have hsecond := hsame second (List.mem_cons_of_mem _ List.mem_cons_self)
      rw [hfirst, hsecond] at hnodup
      exact absurd List.mem_cons_self (List.nodup_cons.mp hnodup).1

/-- Where each type has services, and none twice, a type goes if the id was all that it had. -/
theorem entries_erase {index : TypeIndex} (id : String)
    (hstored : ∀ typeName ids, (typeName, ids) ∈ index.entries → ids ≠ [] ∧ ids.Nodup) :
    (index.erase id).entries = (index.entries.filter (·.2 ≠ [id])).map fun entry =>
      (entry.1, entry.2.filter (· ≠ id)) := by
  have herased : (index.erase id).entries = index.entries.filterMap fun entry =>
      (if (entry.2.filter (· ≠ id)).isEmpty then none
        else some (entry.2.filter (· ≠ id))).map (entry.1, ·) := rfl
  rw [herased, ← List.filterMap_eq_map, List.filterMap_filter]
  refine List.filterMap_congr fun entry hmem => ?_
  obtain ⟨hstocked, hnodup⟩ := hstored entry.1 entry.2 hmem
  by_cases hsole : entry.2 = [id]
  · simp [hsole]
  · have hsome : entry.2.filter (· ≠ id) ≠ [] := fun hempty =>
      hsole (eq_singleton_of_filter_ne hstocked hnodup hempty)
    rw [if_neg (fun hempty => hsome (List.isEmpty_iff.mp hempty)), if_pos (decide_eq_true hsole)]
    rfl

end TypeIndex

namespace Registry

/-- What is left of the registry where the id goes: nothing that is kept under the id or leads to it,
and everything else in its place. -/
structure Removed (id : String) (registry left : Registry) : Prop where
  undefined : left.definition? id = none
  unlisted : ∀ typeName, id ∉ left.types.lookup typeName
  untagged : left.tags.get? id = none
  unfrozen : left.isFrozen id = false
  unaliased : left.aliases.target? id = none
  unled : ∀ name, name ≠ id → left.resolveAlias name ≠ id
  definitions : left.definitions.entries = registry.definitions.entries.filter (·.1 ≠ id)
  /-- A type goes if the id was all that it had. -/
  types : left.types.entries = (registry.types.entries.filter (·.2 ≠ [id])).map fun entry =>
    (entry.1, entry.2.filter (· ≠ id))
  aliases : ∀ name target,
    left.aliases.Hop name target ↔ registry.aliases.Hop name target ∧
      ¬ registry.aliases.Leads name id
  ordered : left.aliases.aliases.Sublist registry.aliases.aliases
  tags : left.tags.entries = registry.tags.entries.filter (·.1 ≠ id)
  frozen : ∀ other, other ≠ id → left.isFrozen other = registry.isFrozen other
  excluded : left.types.excluded = registry.types.excluded
  parameters : left.parameters = registry.parameters
  catalog : left.catalog = registry.catalog
  providers : left.providers = registry.providers

variable {registry : Registry}

theorem Reachable.stored (reachable : registry.Reachable) (typeName : String) (ids : List String)
    (hids : (typeName, ids) ∈ registry.types.entries) : ids ≠ [] ∧ ids.Nodup := by
  obtain ⟨past, hpast⟩ := reachable_iff_past.mp reachable
  have hempty : Remembers [] ∅ :=
    ⟨fun _ _ hids => (by cases hids), fun _ => iff_of_false Bool.false_ne_true List.not_mem_nil⟩
  have hget : registry.types.types.get? typeName = some ids := Table.mem_entries_iff.mp hids
  have hlookup : registry.types.lookup typeName = ids := by rw [TypeIndex.lookup, hget]; rfl
  exact ⟨(hpast.induct closed_remembers hempty).stocked typeName ids hget,
    hlookup ▸ reachable.indexed.nodup typeName⟩

/-- Six tables are written, and each one forgets the id. -/
theorem Reachable.removed (reachable : registry.Reachable) (id : String) :
    registry.Removed id (registry.remove id) where
  undefined := (Table.get?_erase _ _ _).trans (if_pos rfl)
  unlisted typeName hlisted := by
    have hlookup : (registry.remove id).types.lookup typeName =
        (registry.types.lookup typeName).filter (· ≠ id) := TypeIndex.lookup_erase _ _ _
    rw [hlookup, List.mem_filter] at hlisted
    exact of_decide_eq_true hlisted.2 rfl
  untagged := (Table.get?_erase _ _ _).trans (if_pos rfl)
  unfrozen := (isFrozen_remove registry id id).trans (if_pos rfl)
  unaliased := AliasTable.target?_without_self registry.aliases id
  unled name hne := AliasTable.resolve_without_ne hne
  definitions := rfl
  types := TypeIndex.entries_erase id reachable.stored
  aliases name target := AliasTable.hop_without_iff
  ordered := AliasTable.aliases_without_sublist registry.aliases id
  tags := rfl
  frozen other hne := (isFrozen_remove registry id other).trans (if_neg hne)
  excluded := rfl
  parameters := rfl
  catalog := rfl
  providers := rfl

end Registry

/-! ### What leaves an id alone -/

/-- The registration is not about what stands under the id. -/
def Registration.Ignores (id : String) : Registration → Prop
  | .set other _ => other ≠ id
  | .autowire other _ _ => other ≠ id
  | .update other _ => other ≠ id
  | .decorate other _ => other ≠ id
  | .remove other => other ≠ id
  | .addAlias name _ => name ≠ id
  | .freeze other => other ≠ id
  | _ => True

def Deed.Ignores (id : String) : Deed → Prop
  | .single op => op.Ignores id
  | .added _ => True

namespace Registry

/-- Under the id stands what stood there before, and it has not become an alias or frozen. -/
structure Same (id : String) (registry later : Registry) : Prop where
  definition : later.definition? id = registry.definition? id
  unaliased : registry.Unaliased id → later.Unaliased id
  unfrozen : registry.isFrozen id = false → later.isFrozen id = false

variable {registry later last : Registry} {id other : String}

namespace Same

open Registering

theorem refl (id : String) (registry : Registry) : registry.Same id registry :=
  ⟨rfl, fun h => h, fun h => h⟩

theorem trans (h : registry.Same id later) (h' : later.Same id last) : registry.Same id last where
  definition := h'.definition.trans h.definition
  unaliased hfree := h'.unaliased (h.unaliased hfree)
  unfrozen hfree := h'.unfrozen (h.unfrozen hfree)

theorem set {definition : Definition} (hne : other ≠ id)
    (hset : registry.set other definition = .ok later) : registry.Same id later where
  definition := by
    obtain ⟨-, rfl⟩ := set_eq_ok hset
    rw [definition?_place, if_neg hne.symm]
    rfl
  unaliased hfree := hfree.set hset
  unfrozen hfree := by
    obtain ⟨-, rfl⟩ := set_eq_ok hset
    exact hfree

theorem update {change : Definition → Definition} (hne : other ≠ id)
    (hupdate : registry.update other change = .ok later) : registry.Same id later where
  definition := by
    obtain ⟨old, -, -, rfl⟩ := update_eq_ok hupdate
    rw [definition?_place, if_neg hne.symm]
  unaliased hfree := hfree.update hupdate
  unfrozen hfree := by
    obtain ⟨old, -, -, rfl⟩ := update_eq_ok hupdate
    exact hfree

theorem decorate {decorator : Decorator} (hne : other ≠ id)
    (hdecorate : registry.decorate other decorator = .ok later) : registry.Same id later where
  definition := by
    obtain ⟨old, -, -, rfl⟩ := decorate_eq_ok hdecorate
    exact Table.get?_insert_of_ne _ hne.symm _
  unaliased hfree := hfree.decorate hdecorate
  unfrozen hfree := by
    obtain ⟨old, -, -, rfl⟩ := decorate_eq_ok hdecorate
    exact hfree

theorem remove (hne : other ≠ id) : registry.Same id (registry.remove other) where
  definition := (Table.get?_erase _ _ _).trans (if_neg hne.symm)
  unaliased hfree := hfree.remove other
  unfrozen hfree := by rw [isFrozen_remove, if_neg hne.symm, hfree]

theorem addAlias {target : String} (hne : other ≠ id)
    (halias : registry.addAlias other target = .ok later) : registry.Same id later where
  definition := by
    obtain ⟨aliases, -, rfl⟩ := addAlias_eq_ok halias
    rfl
  unaliased hfree := hfree.addAlias hne.symm halias
  unfrozen hfree := by
    obtain ⟨aliases, -, rfl⟩ := addAlias_eq_ok halias
    exact hfree

theorem freeze (hne : other ≠ id) : registry.Same id (registry.freeze other) where
  definition := rfl
  unaliased hfree := hfree
  unfrozen hfree := by rw [isFrozen_freeze_of_ne registry hne.symm, hfree]

theorem deed {deed : Deed} (hdoes : deed.Does registry later) (hignores : deed.Ignores id) :
    registry.Same id later := by
  cases deed with
  | added provider =>
      obtain rfl : later = registry.addProvider provider := hdoes
      exact ⟨rfl, fun h => h, fun h => h⟩
  | single op =>
      have hrun := hdoes.2 {}
      cases op with
      | set other definition =>
          exact .set hignores (change_eq_ok (f := (·.set other definition)) hrun)
      | autowire other definition types =>
          exact .set hignores (change_eq_ok (f := (·.autowire other definition types)) hrun)
      | update other change =>
          exact .update hignores (change_eq_ok (f := (·.update other change)) hrun)
      | decorate other decorator =>
          exact .decorate hignores (change_eq_ok (f := (·.decorate other decorator)) hrun)
      | remove other =>
          cases hrun
          exact .remove hignores
      | addAlias name target =>
          exact .addAlias hignores (change_eq_ok (f := (·.addAlias name target)) hrun)
      | freeze other =>
          cases hrun
          exact .freeze hignores
      | resetRuntimeState =>
          cases hrun
          exact ⟨rfl, fun h => h, fun _ => rfl⟩
      | provider provider config => exact hdoes.1.elim
      | _ =>
          cases hrun
          exact ⟨rfl, fun h => h, fun h => h⟩

/-- **What takes effect elsewhere** leaves the id alone. -/
theorem replays {deeds : List Deed} (h : registry.Replays deeds later)
    (hignores : ∀ deed ∈ deeds, deed.Ignores id) : registry.Same id later := by
  induction h with
  | nil registry => exact .refl id registry
  | cons hdoes _ ih =>
      have hfirst := Same.deed hdoes (hignores _ List.mem_cons_self)
      exact hfirst.trans (ih fun deed hmem => hignores deed (List.mem_cons_of_mem _ hmem))

end Same

end Registry

/-- A registration at an interpreter takes effect elsewhere. -/
def Interpreter.Passes (container : Interpreter) (store : Store) (op : Registration) (id : String) :
    Prop :=
  ∀ deed ∈ (Builder.throughAlias container.registry op).deeds ⟨container.registry, store⟩,
    deed.Ignores id

theorem Interpreter.Passes.same {container : Interpreter} {store : Store} {op : Registration}
    {id : String} (h : container.Passes store op id) :
    container.registry.Same id (container.after store op).registry := by
  unfold after
  cases op with
  | decorate name decorator =>
      rw [register]
      cases hextend : container.extend name decorator with
      | error error => exact .refl id _
      | ok extended =>
          obtain ⟨registry, hchanged, rfl⟩ := extend_eq_ok hextend
          have hsingle : (Registration.decorate (container.registry.resolveAlias name)
              decorator).Single := trivial
          have hdoes := Registration.does_of_run (f := (·.decorate _ decorator)) hsingle rfl hchanged
          have hignores := h (.single _) (Registration.mem_deeds hsingle (hdoes.2 store))
          exact .decorate hignores hchanged
  | _ => exact .replays (Registry.replays _ ⟨container.registry, store⟩) h

/-! ### An id that was removed and is set anew -/

namespace Interpreter

/-- What is kept is what was made. -/
theorem keep_eq_ok {c : ContainerRef} {id : String} {flags : Flags} {options : ResolveOptions}
    {made service : Value} {world later : World}
    (h : keep c id flags options made world = (.ok service, later)) : service = made := by
  unfold keep at h
  split at h
  · obtain ⟨_, mid, _, hpure⟩ := bind_eq_ok h
    exact (Except.ok.inj (Prod.mk.inj hpure).1).symm
  · exact (Except.ok.inj (Prod.mk.inj h).1).symm

/-- The id has neither a definition nor a service, and it is not frozen. -/
structure Lacks (id : String) (container : Interpreter) : Prop where
  undefined : container.registry.definition? id = none
  unfrozen : container.registry.isFrozen id = false
  uncached : container.services.get? id = none

/-- The definition is registered under the id, which is no alias, and nothing is cached. -/
structure Awaits (id : String) (definition : Definition) (container : Interpreter) : Prop where
  found : container.registry.definition? id = some definition
  unaliased : container.registry.Unaliased id
  uncached : container.services.get? id = none

variable {container : Interpreter} {id : String} {definition : Definition} {store : Store}
  {op : Registration}

theorem uncached_after (h : container.services.get? id = none) (store : Store)
    (op : Registration) : (container.after store op).services.get? id = none := by
  by_cases hremove : op = .remove id
  · rw [hremove, services_after_remove]
  · rw [services_after store op hremove, h]

theorem Lacks.after (h : container.Lacks id) (hpasses : container.Passes store op id) :
    (container.after store op).Lacks id where
  undefined := hpasses.same.definition.trans h.undefined
  unfrozen := hpasses.same.unfrozen h.unfrozen
  uncached := uncached_after h.uncached store op

theorem Awaits.after (h : container.Awaits id definition) (hpasses : container.Passes store op id) :
    (container.after store op).Awaits id definition where
  found := hpasses.same.definition.trans h.found
  unaliased := hpasses.same.unaliased h.unaliased
  uncached := uncached_after h.uncached store op

theorem lacks_remove (container : Interpreter) (id : String) : (container.remove id).Lacks id where
  undefined := (Table.get?_erase _ _ _).trans (if_pos rfl)
  unfrozen := (Registry.isFrozen_remove container.registry id id).trans (if_pos rfl)
  uncached := (Table.get?_erase _ _ _).trans (if_pos rfl)

/-- What has no definition is not made, and so it is neither cached nor frozen by a call. -/
theorem withstands_lacks (c : ContainerRef) (id : String) :
    World.Withstands (fun _ _ => True) c (Lacks id) where
  chain _ h := ⟨h.undefined, h.unfrozen, h.uncached⟩
  cache {before now other made} service hfound _ hbefore hnow := by
    have hne : id ≠ other := by
      rintro rfl
      rw [hbefore.undefined] at hfound
      cases hfound
    refine ⟨hnow.undefined, Bool.eq_false_iff.mpr fun hfrozen => ?_, ?_⟩
    · rcases (isFrozen_cache now other service).mp hfrozen with hsame | hold
      · exact hne hsame
      · rw [hnow.unfrozen] at hold
        cases hold
    · rw [get?_cache, if_neg hne, hnow.uncached]
  clearCache _ h := ⟨h.undefined, h.unfrozen, rfl⟩
  clearRuntimeState _ h := ⟨h.undefined, rfl, h.uncached⟩

/-- **An id that lacks a definition can be set.** -/
theorem Lacks.set (h : container.Lacks id) (store : Store) (definition : Definition) :
    (container.register store (.set id definition)).1 = .ok () ∧
      (container.after store (.set id definition)).Awaits id (definition.attach id) := by
  obtain ⟨changed, hset⟩ : ∃ changed, container.registry.set id definition = .ok changed := by
    rw [Registry.set, Registry.ensureNotFrozen, h.unfrozen]
    exact ⟨_, rfl⟩
  have hrun : (Registering.change (·.set id definition)).run ⟨container.registry, store⟩ =
      (.ok (), ⟨changed, store⟩) := by
    rw [Registering.run_change, hset]
  have hresult : (container.register store (.set id definition)).1 =
      ((Registering.change (·.set id definition)).run ⟨container.registry, store⟩).1 := rfl
  have hregistry : (container.after store (.set id definition)).registry =
      ((Registering.change (·.set id definition)).run ⟨container.registry, store⟩).2.registry := rfl
  obtain ⟨-, rfl⟩ := Registry.set_eq_ok hset
  refine ⟨by rw [hresult, hrun], ?_, ?_, uncached_after h.uncached store _⟩
  · rw [hregistry, hrun]
    exact (Registry.definition?_place _ id id _).trans (if_pos rfl)
  · rw [hregistry, hrun]
    exact (AliasTable.target?_erase _ _ _).trans (if_pos rfl)

end Interpreter

namespace World

variable {c : ContainerRef} {id : String} {world later : World} {definition : Definition}

/-- One thing that happens while the id is left alone: nothing is registered under it, and it does not
become an alias. Whatever is asked for leaves a world that is `allowed`. -/
inductive Passes (allowed : World → Prop) (c : ContainerRef) (id : String) : World → World → Prop
  /-- Whatever leaves the container alone. -/
  | elsewhere {world later : World} (h : later.container? c = world.container? c) :
      Passes allowed c id world later
  | register {world : World} {container : Interpreter} {op : Registration}
      (hat : world.container? c = some (.interpreting container))
      (hpasses : container.Passes world.store op id) :
      Passes allowed c id world (world.register c op).2
  | answer {world later : World} {request : Request} {reply : request.Reply} {depth : Nat}
      (hanswer : request.perform (Call.run depth) world = (.ok reply, later))
      (hallowed : allowed later) : Passes allowed c id world later

/-- Nothing is cached for the id. -/
def Uncached (c : ContainerRef) (id : String) : World → Prop :=
  Hosts (fun container => container.services.get? id = none) c

theorem Passes.lacks {allowed : World → Prop} (h : Passes allowed c id world later)
    (hlacks : Hosts (Interpreter.Lacks id) c world) : Hosts (Interpreter.Lacks id) c later := by
  cases h with
  | elsewhere hsame => exact hlacks.of_eq hsame
  | register hat hpasses =>
      exact ⟨_, container?_register hat _, (hlacks.at hat).after hpasses⟩
  | answer hanswer _ =>
      obtain ⟨-, makings, htrace⟩ := Request.perform_of_vouches (Call.run_traced _) hanswer
      exact htrace.hosts (Interpreter.withstands_lacks c id) hlacks

theorem Passes.awaits (h : Passes (Uncached c id) c id world later)
    (hawaits : Hosts (Interpreter.Awaits id definition) c world) :
    Hosts (Interpreter.Awaits id definition) c later := by
  cases h with
  | elsewhere hsame => exact hawaits.of_eq hsame
  | register hat hpasses =>
      exact ⟨_, container?_register hat _, (hawaits.at hat).after hpasses⟩
  | answer hanswer hnew =>
      obtain ⟨-, hleads⟩ := Request.perform_of_vouches (Call.run_traced _) hanswer
      obtain ⟨container, hat, hkind⟩ := hawaits
      obtain ⟨now, hnow, hdefinitions, haliases⟩ := hleads.interpreter hat
      refine ⟨now, hnow, ?_, ?_, hnew.at hnow⟩
      · rw [Registry.definition?, hdefinitions]
        exact hkind.found
      · rw [Registry.Unaliased, haliases]
        exact hkind.unaliased

/-- Who asks for the id begins the construction of a service, unless it is hidden; and if a service
is given, it was made of the definition then. -/
structure Constructs (c : ContainerRef) (id : String) (definition : Definition) (world : World) :
    Prop where
  begun : definition.flags.hidden = false → ∀ options : ResolveOptions,
    world.opens (.get c id options) = some (c, id)
  made : ∀ (options : ResolveOptions) (depth : Nat) (service : Value) (later : World),
    Call.run depth (.get c id options) world = (.ok service, later) →
      ∃ (container : Interpreter) (longer : List String) (ended : World),
        world.container? c = some (.interpreting container) ∧
          Makes c { container with loading := longer } id definition service
            (world.put c (.interpreting { container with loading := longer })) ended

theorem Constructs.of_awaits (h : Hosts (Interpreter.Awaits id definition) c world) :
    world.Constructs c id definition := by
  obtain ⟨container, hat, hfound, hunaliased, huncached⟩ := h
  have hend : container.registry.resolveAlias id = id := AliasTable.resolve_of_free hunaliased
  have hfound' : container.registry.definition? (container.registry.resolveAlias id) =
      some definition := hend.symm ▸ hfound
  have hlookup : container.registry.lookup true id =
      if definition.flags.hidden then .withheld else .definition id := by
    rw [Registry.lookup_of_definition hfound', hend, Bool.true_and]
  constructor
  · intro hshown options
    rw [hshown] at hlookup
    refine opens_eq_some.mpr ⟨wants_eq_some.mpr ⟨rfl, _, hat, ?_⟩, ?_⟩
    · change (container.registry.lookup true id).definition? = some id
      rw [hlookup]
      rfl
    · rw [cached?_eq hat, Container.cached?, hfound, Option.bind_some, huncached, ite_self]
  · intro options depth service later hget
    cases depth with
    | zero => cases hget
    | succ depth =>
        change Call.step (Call.run depth) (Call.locate true c id options) world = _ at hget
        rw [Call.step_locate hat, Container.lookup, hlookup] at hget
        split at hget
        · cases hget
        · rw [Lookup.run, Container.obtain, hfound] at hget
          dsimp only at hget
          rw [Interpreter.resolveDefinition_made (.inr huncached)] at hget
          obtain ⟨longer, inner, hbody, -⟩ := entering_eq_ok hat hget
          obtain ⟨made, ended, hcreate, hrest⟩ := bind_eq_ok hbody
          obtain ⟨_, announced, _, hkeep⟩ := bind_eq_ok hrest
          obtain rfl := Interpreter.keep_eq_ok hkeep
          have hinner := container?_put_self world c
            (.interpreting { container with loading := longer }) _ hat
          exact ⟨container, longer, ended, hat, hinner, hfound, depth, hcreate⟩

/-- **Removal is complete and touches nothing else.** A registry keeps nothing of an id that is
removed, and everything else as it was. A container forgets the service too; as long as the id is left
alone after that, it can be set, whatever is asked for; and as long as it is left alone then and
nothing is cached for it, the service that is asked for next is made of what it was set to. -/
theorem removal_complete :
    (∀ registry : Registry, registry.Reachable → ∀ id, registry.Removed id (registry.remove id)) ∧
    ∀ (world : World) (c : ContainerRef) (container : Interpreter) (id : String),
      world.container? c = some (.interpreting container) →
        (world.register c (.remove id)).1 = .ok () ∧
        Hosts (fun now => now.registry = container.registry.remove id ∧
            now.services.entries = container.services.entries.filter (·.1 ≠ id)) c
          (world.register c (.remove id)).2 ∧
        ∀ idle, Relation.ReflTransGen (Passes (fun _ => True) c id)
            (world.register c (.remove id)).2 idle →
          Hosts (fun now => now.services.get? id = none) c idle ∧
          ∀ definition : Definition, (idle.register c (.set id definition)).1 = .ok () ∧
            ∀ last, Relation.ReflTransGen (Passes (Uncached c id) c id)
                (idle.register c (.set id definition)).2 last →
              last.Constructs c id (definition.attach id) := by
  refine ⟨fun registry reachable id => reachable.removed id, fun world c container id hat => ?_⟩
  have hremoved := container?_register hat (.remove id)
  have hkept : container.after world.store (.remove id) = container.remove id := rfl
  have hlacks : Hosts (Interpreter.Lacks id) c (world.register c (.remove id)).2 :=
    ⟨_, hremoved, hkept ▸ Interpreter.lacks_remove container id⟩
  refine ⟨by rw [World.register, hat]; rfl, ⟨_, hremoved, rfl, rfl⟩, fun idle hidle => ?_⟩
  have hfree : Hosts (Interpreter.Lacks id) c idle := by
    induction hidle with
    | refl => exact hlacks
    | tail _ hpasses ih => exact hpasses.lacks ih
  obtain ⟨now, hnow, hlack⟩ := hfree
  refine ⟨⟨now, hnow, hlack.uncached⟩, fun definition => ?_⟩
  obtain ⟨hset, hawaits⟩ := hlack.set idle.store definition
  refine ⟨by rw [World.register, hnow]; exact hset, fun last hlast => ?_⟩
  have hwaiting : Hosts (Interpreter.Awaits id (definition.attach id)) c last := by
    induction hlast with
    | refl => exact ⟨_, container?_register hnow _, hawaits⟩
    | tail _ hpasses ih => exact hpasses.awaits ih
  exact .of_awaits hwaiting

/-- The service `a`, its alias `b`, and `c` as an alias of that. -/
def chained : World :=
  let service := (Registration.set "a" (.ofValue (.int 1))).after ∅ {}
  let near := (Registration.addAlias "b" "a").after service {}
  let far := (Registration.addAlias "c" "b").after near {}
  { containers := #[some (.interpreting { registry := far })] }

/-- The alias `b` is removed, then a parameter is set, then `b` is set to 2, and `a` is asked for. -/
def renewed : World :=
  let idle := ((chained.register ⟨0⟩ (.remove "b")).2.register ⟨0⟩ (.parameter "p" .null)).2
  (Call.run 2 (.get ⟨0⟩ "a" {}) (idle.register ⟨0⟩ (.set "b" (.ofValue (.int 2)))).2).2

/-- With `b` the alias of it goes, and 2 is what `b` is made of then. -/
theorem removal_complete_renewed :
    (∃ registry : Registry, chained.container? ⟨0⟩ = some (.interpreting { registry }) ∧
      registry.aliases.aliases = ["b", "c"] ∧ (registry.remove "b").aliases.aliases = [] ∧
        registry.Removed "b" (registry.remove "b")) ∧
      renewed.Constructs ⟨0⟩ "b" ((Definition.ofValue (.int 2)).attach "b") := by
  obtain ⟨hregistry, hcontainer⟩ := removal_complete
  constructor
  · have reachable : Registry.Reachable _ := .step (.addAlias "c" "b") {}
      (.step (.addAlias "b" "a") {} (.step (.set "a" (.ofValue (.int 1))) {} .empty))
    exact ⟨_, rfl, rfl, rfl, hregistry _ reachable "b"⟩
  · obtain ⟨-, -, hcourse⟩ := hcontainer chained ⟨0⟩ _ "b" rfl
    have hidle : Passes (fun _ => True) ⟨0⟩ "b" (chained.register ⟨0⟩ (.remove "b")).2
        ((chained.register ⟨0⟩ (.remove "b")).2.register ⟨0⟩ (.parameter "p" .null)).2 := by
      refine .register rfl fun deed hdeed => ?_
      obtain rfl := List.mem_singleton.mp hdeed
      trivial
    obtain ⟨-, hset⟩ := hcourse _ (.single hidle)
    refine (hset (.ofValue (.int 2))).2 renewed (.single ?_)
    have hanswer : (Request.get ⟨0⟩ "a" {}).perform (Call.run 2)
        (((chained.register ⟨0⟩ (.remove "b")).2.register ⟨0⟩ (.parameter "p" .null)).2.register ⟨0⟩
          (.set "b" (.ofValue (.int 2)))).2 = (.ok (.ok (.int 1)), renewed) := rfl
    exact .answer hanswer ⟨_, rfl, rfl⟩

end World
end Wiring
