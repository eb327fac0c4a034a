import Wiring.Proofs.Exports
import Wiring.Proofs.Frozen

/-!
# The type index and its past

A type that was excluded is never listed again, so that what the index lists depends on what was done
to the registry and not only on what is registered now. The past of a registry is the list of the
single registrations that were tried on it, by providers too. The index lists an id under a type
exactly if an autowired definition of that id declares the type, and the type is not excluded
anywhere in the past.
-/

namespace Wiring

mutual

/-- The single registrations that are tried, in order, where this one is run; the configuration that a
provider brings along is none of them. -/
def Registration.performed : Registration → Setup → List Registration
  | .provider provider config, setup => provider.performed config setup
  | op, _ => [op]

/-- A provider whose configuration is refused performs nothing. -/
def Provider.performed : Provider → Value → Setup → List Registration
  | .mk name register _, config, setup =>
      match (Registering.change (·.keepConfig name config)).run setup with
      | (.ok _, kept) => (register config).performed kept
      | (.error _, _) => []

def Hook.performed : Hook → Setup → List Registration
  | .done, _ => []
  | .fail _, _ => []
  | .record event next, setup => next.performed ((Registering.record event).run setup).2
  | .create what next, setup =>
      (next (setup.store.create what).1).performed ((Registering.create what).run setup).2
  | .perform step next, setup =>
      step.performed setup ++ (next (step.run.run setup).1).performed (step.run.run setup).2

end

theorem Registration.performed_single {op : Registration} (hsingle : op.Single) (setup : Setup) :
    op.performed setup = [op] := by
  cases op with
  | provider provider config => exact hsingle.elim
  | _ => rfl

namespace Registry

open Registering

/-- The registry comes from the empty one by registrations, which tried these single ones. -/
inductive Past : List Registration → Registry → Prop
  | empty : Past [] ∅
  | step {past : List Registration} {registry : Registry} (op : Registration) (store : Store) :
      Past past registry →
        Past (past ++ op.performed ⟨registry, store⟩) (op.after registry store)

theorem reachable_iff_past {registry : Registry} :
    registry.Reachable ↔ ∃ past, Past past registry := by
  constructor
  · intro reachable
    induction reachable with
    | empty => exact ⟨[], .empty⟩
    | step op store _ ih =>
        obtain ⟨past, hpast⟩ := ih
        exact ⟨_, hpast.step op store⟩
  · rintro ⟨past, hpast⟩
    induction hpast with
    | empty => exact .empty
    | step op store _ ih => exact ih.step op store

/-- What single registrations keep of a registry and its past, and what is kept where a provider
keeps its configuration and is added. -/
structure ClosedAlong (P : List Registration → Registry → Prop) : Prop where
  single : ∀ {past : List Registration} (op : Registration) (setup : Setup), op.Single →
    P past setup.registry → P (past ++ [op]) (op.run.run setup).2.registry
  set : ∀ {past : List Registration} {registry changed : Registry} (id : String)
    (definition : Definition), P past registry → registry.set id definition = .ok changed →
      P past changed
  setParameter : ∀ {past : List Registration} {registry : Registry} (name : String) (value : Value),
    P past registry → P past (registry.setParameter name value)
  addProvider : ∀ {past : List Registration} {registry : Registry} (provider : Provider),
    P past registry → P past (registry.addProvider provider)

namespace ClosedAlong

variable {P : List Registration → Registry → Prop}

theorem keepConfig (closed : ClosedAlong P) (name : String) (config : Value)
    (past : List Registration) : Keeps (P past) (change (·.keepConfig name config)) :=
  .change fun _ _ h hchanged => by
    rcases keepConfig_eq_ok hchanged with ⟨-, rfl⟩ | ⟨-, registered, hset, rfl⟩
    · exact h
    · exact closed.setParameter name config (closed.set _ _ h hset)

theorem along_inductive (closed : ClosedAlong P) : Registration.Inductive
    (fun op => ∀ (past : List Registration) (setup : Setup), P past setup.registry →
      P (past ++ op.performed setup) (op.run.run setup).2.registry)
    (fun hook => ∀ (past : List Registration) (setup : Setup), P past setup.registry →
      P (past ++ hook.performed setup) (hook.run.run setup).2.registry) where
  single op hsingle past setup h := by
    rw [Registration.performed_single hsingle]
    exact closed.single op setup hsingle h
  provider name register beforeCompile config ih past setup h := by
    have hkept := closed.keepConfig name config past setup h
    change P (past ++ Provider.performed (.mk name register beforeCompile) config setup)
      ((Provider.install (.mk name register beforeCompile) config).run setup).2.registry
    rw [Provider.install, run_bind, Provider.performed]
    generalize (change (·.keepConfig name config)).run setup = ran at hkept ⊢
    obtain ⟨result, kept⟩ := ran
    cases result with
    | error error =>
        rw [List.append_nil]
        exact hkept
    | ok =>
        have hhook := ih past kept hkept
        dsimp only
        rw [run_bind]
        generalize (register config).run.run kept = ran at hhook ⊢
        obtain ⟨result, later⟩ := ran
        cases result with
        | error error => exact hhook
        | ok => exact closed.addProvider _ hhook
  done past setup h := by
    rw [Hook.performed, List.append_nil]
    exact h
  fail error past setup h := by
    rw [Hook.performed, List.append_nil]
    exact h
  record event next ih past setup h := ih past _ h
  create what next ih past setup h := ih (setup.store.create what).1 past _ h
  perform step next ih ih' past setup h := by
    rw [Hook.performed, ← List.append_assoc]
    exact ih' (step.run.run setup).1 _ _ (ih past setup h)

theorem along_registration (closed : ClosedAlong P) (op : Registration)
    (past : List Registration) (setup : Setup) (h : P past setup.registry) :
    P (past ++ op.performed setup) (op.run.run setup).2.registry :=
  closed.along_inductive.registration op past setup h

end ClosedAlong

/-- What holds of the empty registry and is kept along, holds of each past. -/
theorem Past.induct {P : List Registration → Registry → Prop} (closed : ClosedAlong P)
    (empty : P [] ∅) {past : List Registration} {registry : Registry} (h : Past past registry) :
    P past registry := by
  induction h with
  | empty => exact empty
  | step op store _ ih => exact closed.along_registration op _ ⟨_, store⟩ ih

end Registry

/-! ### What becomes of the index -/

namespace TypeIndex

/-- Indexing that excludes nothing. -/
inductive Moves (start : TypeIndex) : TypeIndex → Prop
  | refl : Moves start start
  | register {index : TypeIndex} (id : String) (types : List String) :
      Moves start index → Moves start (index.register id types)
  | erase {index : TypeIndex} (id : String) : Moves start index → Moves start (index.erase id)
  | clear {index : TypeIndex} : Moves start index → Moves start index.clear

/-- No type is stored without a service. -/
def Stocked (index : TypeIndex) : Prop :=
  ∀ typeName ids, index.types.get? typeName = some ids → ids ≠ []

namespace Stocked

variable {index : TypeIndex}

theorem addType (h : index.Stocked) (id typeName : String) :
    (TypeIndex.addType id index typeName).Stocked := by
  intro other ids hids
  unfold TypeIndex.addType at hids
  dsimp only at hids
  split at hids
  · exact h other ids hids
  · split at hids
    · exact h other ids hids
    · rw [Table.get?_insert] at hids
      split at hids
      · obtain rfl := Option.some.inj hids
        simp
      · exact h other ids hids

/-- Whatever was stored before. -/
theorem erase (index : TypeIndex) (id : String) : (index.erase id).Stocked := by
  intro typeName ids hids
  rw [TypeIndex.erase, Table.get?_filterMap] at hids
  obtain ⟨held, -, hleft⟩ := Option.bind_eq_some_iff.mp hids
  dsimp only at hleft
  split at hleft
  · cases hleft
  · next hnonempty =>
      obtain rfl := Option.some.inj hleft
      exact fun hempty => hnonempty (List.isEmpty_iff.mpr hempty)

theorem register (index : TypeIndex) (id : String) (types : List String) :
    (index.register id types).Stocked :=
  List.foldlRecOn types _ (erase index id) fun _ kept typeName _ => kept.addType id typeName

theorem exclude (h : index.Stocked) (typeName : String) : (index.exclude typeName).Stocked := by
  intro other ids hids
  rw [TypeIndex.exclude, Table.get?_erase] at hids
  split at hids
  · cases hids
  · exact h other ids hids

theorem of_moves {later : TypeIndex} (h : index.Stocked) (moves : index.Moves later) :
    later.Stocked := by
  cases moves with
  | refl => exact h
  | register id types _ => exact register _ id types
  | erase id _ => exact erase _ id
  | clear _ => exact fun _ _ hids => by cases hids

end Stocked

theorem Moves.excluded_eq {index later : TypeIndex} (moves : index.Moves later) :
    later.excluded = index.excluded := by
  induction moves with
  | refl => rfl
  | register id types _ ih => rw [excluded_register, ih]
  | erase _ _ ih => exact ih
  | clear _ ih => exact ih

end TypeIndex

namespace Registry

open Registering

variable {registry changed : Registry} {start : TypeIndex}

theorem moves_place (moves : start.Moves registry.types) (id : String) (definition : Definition) :
    start.Moves (registry.place id definition).types := by
  unfold place indexTypes
  dsimp only
  split
  · exact moves.register id _
  · exact moves.erase id

theorem moves_set (moves : start.Moves registry.types) {id : String} {definition : Definition}
    (hset : registry.set id definition = .ok changed) : start.Moves changed.types := by
  obtain ⟨-, rfl⟩ := set_eq_ok hset
  exact moves_place moves id _

theorem moves_update (moves : start.Moves registry.types) {id : String}
    {change : Definition → Definition} (hupdate : registry.update id change = .ok changed) :
    start.Moves changed.types := by
  obtain ⟨definition, -, -, rfl⟩ := update_eq_ok hupdate
  exact moves_place moves id _

theorem moves_decorate (moves : start.Moves registry.types) {id : String} {decorator : Decorator}
    (hdecorate : registry.decorate id decorator = .ok changed) : start.Moves changed.types := by
  obtain ⟨definition, -, -, rfl⟩ := decorate_eq_ok hdecorate
  exact moves

theorem moves_addAlias (moves : start.Moves registry.types) {name target : String}
    (halias : registry.addAlias name target = .ok changed) : start.Moves changed.types := by
  obtain ⟨aliases, -, rfl⟩ := addAlias_eq_ok halias
  exact moves

theorem moves_reindex (moves : start.Moves registry.types) : start.Moves registry.reindex.types := by
  refine List.foldlRecOn registry.definitions.entries _ moves.clear fun index kept entry _ => ?_
  unfold indexEntry
  split
  · exact kept.register entry.1 _
  · exact kept

/-- Whatever else is registered, only exclusion excludes. -/
theorem keeps_moves (start : TypeIndex) (op : Registration) (hsingle : op.Single)
    (hop : ∀ typeName, op ≠ .exclude typeName) :
    Keeps (fun registry => start.Moves registry.types) op.run := by
  cases op with
  | set id definition => exact .change fun _ _ h hset => moves_set h hset
  | autowire id definition types => exact .change fun _ _ h hset => moves_set h hset
  | update id change => exact .change fun _ _ h hupdate => moves_update h hupdate
  | decorate id decorator => exact .change fun _ _ h hdecorate => moves_decorate h hdecorate
  | addAlias name target => exact .change fun _ _ h halias => moves_addAlias h halias
  | remove id => exact fun _ h => h.erase id
  | registerClass spec => exact fun _ h => moves_reindex h
  | reindex => exact fun _ h => moves_reindex h
  | exclude typeName => exact absurd rfl (hop typeName)
  | provider provider config => exact hsingle.elim
  | _ => exact fun _ h => h

/-- The exclusions are those of the past, and what is stored has services. -/
structure Remembers (past : List Registration) (registry : Registry) : Prop where
  stocked : registry.types.Stocked
  excluded_iff : ∀ typeName,
    registry.types.excluded.contains typeName ↔ .exclude typeName ∈ past

theorem Remembers.of_moves {past : List Registration} (h : Remembers past registry)
    (moves : registry.types.Moves changed.types) : Remembers past changed where
  stocked := h.stocked.of_moves moves
  excluded_iff typeName := by rw [moves.excluded_eq, h.excluded_iff]

theorem closed_remembers : ClosedAlong Remembers where
  single {past} op setup hsingle h := by
    by_cases hop : ∃ typeName, op = .exclude typeName
    · obtain ⟨typeName, rfl⟩ := hop
      have hexclude : ((Registration.exclude typeName).run.run setup).2.registry =
          setup.registry.exclude typeName := rfl
      rw [hexclude]
      refine ⟨h.stocked.exclude typeName, fun other => ?_⟩
      have hcontains : (setup.registry.exclude typeName).types.excluded.contains other ↔
          other = typeName ∨ setup.registry.types.excluded.contains other :=
        Dict.contains_insert _ _ _ _
      rw [hcontains, h.excluded_iff, List.mem_append, List.mem_singleton,
        Registration.exclude.injEq, or_comm]
    · have hmoves := keeps_moves setup.registry.types op hsingle (not_exists.mp hop) setup .refl
      obtain ⟨hstocked, hexcluded⟩ := h.of_moves hmoves
      refine ⟨hstocked, fun other => ?_⟩
      rw [hexcluded, List.mem_append, List.mem_singleton]
      exact ⟨.inl, fun hother => hother.resolve_right fun hsame => hop ⟨other, hsame.symm⟩⟩
  set _ _ h hset := h.of_moves (moves_set .refl hset)
  setParameter _ _ h := ⟨h.stocked, h.excluded_iff⟩
  addProvider _ h := ⟨h.stocked, h.excluded_iff⟩

/-- The index of the registry, the one that a compilation builds, and what both containers select
from them, as told by the definitions and the past. -/
structure IndexedAlong (past : List Registration) (registry : Registry) : Prop where
  listed : ∀ typeName id, id ∈ registry.types.lookup typeName ↔
    (∃ definition, registry.definition? id = some definition ∧ definition.flags.autowired = true ∧
      typeName ∈ definition.declaredTypes registry.catalog) ∧ .exclude typeName ∉ past
  stored : ∀ typeName ids, (typeName, ids) ∈ registry.types.entries → ids ≠ [] ∧ ids.Nodup
  rebuilt : ∀ (config : Config) (typeName : String),
    ((registry.plan config).types.lookup typeName).Perm (registry.types.lookup typeName)
  linked : ∀ (config : Config) (typeName : String),
    ((registry.plan config).candidates typeName).Perm (registry.candidates typeName)
  exported : ∀ (config : Config) (program : Program), registry.compile config = .ok program →
    ∀ typeName, ((program.types.get? typeName).getD []).Perm (registry.candidates typeName)

/-- **The type index is exact**, whatever was registered, changed, removed, excluded or refused
before: it lists what the definitions declare and the past does not exclude, and so does the index of
a compilation. -/
theorem types_indexed {past : List Registration} (h : Past past registry) :
    IndexedAlong past registry := by
  have indexed := (reachable_iff_past.mpr ⟨past, h⟩).indexed
  have hempty : Remembers [] ∅ :=
    ⟨fun _ _ hids => (by cases hids), fun _ => iff_of_false Bool.false_ne_true List.not_mem_nil⟩
  have remembers := h.induct closed_remembers hempty
  exact {
    listed := fun typeName id => by
      rw [indexed.mem_lookup_iff, ← remembers.excluded_iff, Bool.not_eq_true]
      constructor
      · rintro ⟨definition, hfound, hdeclares, hfree⟩
        exact ⟨⟨definition, hfound, hdeclares⟩, hfree⟩
      · rintro ⟨⟨definition, hfound, hdeclares⟩, hfree⟩
        exact ⟨definition, hfound, hdeclares, hfree⟩
    stored := fun typeName ids hids => by
      have hget : registry.types.types.get? typeName = some ids := Table.mem_entries_iff.mp hids
      have hlookup : registry.types.lookup typeName = ids := by rw [TypeIndex.lookup, hget]; rfl
      exact ⟨remembers.stocked typeName ids hget, hlookup ▸ indexed.nodup typeName⟩
    rebuilt := fun config typeName => Plan.lookup_types_perm registry config.maxDepth indexed typeName
    linked := fun config typeName => Plan.candidates_perm registry config.maxDepth indexed typeName
    exported := fun config program hcompile typeName => by
      rw [(compiled_of_compile hcompile).candidates_eq]
      exact Plan.candidates_perm registry config.maxDepth indexed typeName }

/-- What is tried, and what has come of it, where these are registered one after the other. -/
def performing (ops : List Registration) : List Registration × Registry :=
  ops.foldl (fun (past, registry) op => (past ++ op.performed ⟨registry, {}⟩, op.after registry {}))
    ([], ∅)

theorem past_performing (ops : List Registration) :
    Past (performing ops).1 (performing ops).2 := by
  let Held (before : List Registration × Registry) : Prop := Past before.1 before.2
  exact List.foldlRecOn (motive := Held) ops _ Past.empty fun _ h op _ => h.step op {}

/-- A class tells later what its service stands for, a provider excludes a type that two services
declare, one of them before and one after, and one service is no longer found by its types. -/
def retyped : List Registration :=
  [.autowire "disc" (.ofEntity (.construct "Disc")) [],
    .registerClass { name := "Disc", implements := ["Shape"] },
    .autowire "plan" (.ofValue (.int 1)) ["Shape", "Label"],
    .provider (.mk "labels" (fun _ => .perform (.exclude "Label") fun _ => .done) .done) .null,
    .autowire "plate" (.ofValue (.int 2)) ["Label", "Shape"],
    .update "plan" (·.withFlags [.autowired] false),
    .decorate "none" ⟨"same", fun _ value => return value⟩]

theorem retyped_indexed :
    Past (performing retyped).1 (performing retyped).2 ∧
      IndexedAlong (performing retyped).1 (performing retyped).2 ∧
      .exclude "Label" ∈ (performing retyped).1 ∧
      (performing retyped).2.types.lookup "Label" = [] ∧
      "disc" ∈ (performing retyped).2.types.lookup "Shape" := by
  have past := past_performing retyped
  have indexed := types_indexed past
  have htried : (performing retyped).1 = retyped.take 3 ++ .exclude "Label" :: retyped.drop 4 := rfl
  have hexcluded : .exclude "Label" ∈ (performing retyped).1 := by simp [htried]
  have hfree : .exclude "Shape" ∉ (performing retyped).1 := by
    rw [htried]
    simp [retyped]
  have hcatalog : (performing retyped).2.catalog =
      Catalog.register ∅ { name := "Disc", implements := ["Shape"] } := rfl
  have hshape : "Shape" ∈ (performing retyped).2.catalog.typesOf "Disc" := by
    have hundeclared : (∅ : Catalog).classes.get? "Shape" = none := rfl
    rw [hcatalog, Catalog.typesOf]
    simp [Catalog.visit, Catalog.implements, Catalog.class?, Catalog.register, hundeclared]
  refine ⟨past, indexed, hexcluded, List.eq_nil_iff_forall_not_mem.mpr fun id hid => ?_, ?_⟩
  · exact ((indexed.listed "Label" id).mp hid).2 hexcluded
  · exact (indexed.listed "Shape" "disc").mpr ⟨⟨_, rfl, rfl, hshape⟩, hfree⟩

end Registry
end Wiring
