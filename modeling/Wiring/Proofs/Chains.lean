import Mathlib.Data.Finset.Card
import Mathlib.Logic.Relation
import Wiring.Proofs.Exports

/-!
# Chains of aliases

An alias leads to its target, the target perhaps further, and so on. Where no chain comes back to
where it was, each of them ends, and its end is what the name resolves to. A new alias closes a ring
if its target leads back to it, and is refused then. An alias that is pointed at a new target is
refused only if that target is its own name, or else it may be put into a ring of its own.
-/

namespace Wiring

namespace AliasTable

variable {table : AliasTable} {name target : String}

/-- One step along a chain. -/
def Hop (table : AliasTable) (name target : String) : Prop := table.target? name = some target

def Leads (table : AliasTable) : String → String → Prop := Relation.ReflTransGen table.Hop

/-- No chain comes back. -/
def Acyclic (table : AliasTable) : Prop := ∀ name, ¬ Relation.TransGen table.Hop name name

/-- The table in which `name` is an alias for `target`, whatever it was before. -/
def point (table : AliasTable) (name target : String) : AliasTable :=
  { targets := table.targets.insert name target }

theorem hop_rightUnique (table : AliasTable) : Relator.RightUnique table.Hop :=
  fun _ _ _ h h' => Option.some.inj (h.symm.trans h')

theorem contains_of_hop (h : table.Hop name target) : table.contains name = true :=
  Option.isSome_of_eq_some h

theorem target?_eq_none_iff : table.target? name = none ↔ table.contains name = false :=
  Option.isNone_iff_eq_none.symm.trans Option.isSome_eq_false_iff.symm

/-! ### Ends -/

/-- From a name that is no alias there is nowhere to go. -/
theorem eq_of_leads {last : String} (hlast : table.contains last = false)
    (h : table.Leads last name) : last = name := by
  rcases h.cases_head with heq | ⟨next, hhop, -⟩
  · exact heq
  · rw [contains_of_hop hhop] at hlast
    cases hlast

/-- A chain has one end. -/
theorem end_unique {last other : String} (h : table.Leads name last) (h' : table.Leads name other)
    (hlast : table.contains last = false) (hother : table.contains other = false) :
    last = other := by
  rcases Relation.ReflTransGen.total_of_right_unique table.hop_rightUnique h h' with hto | hfrom
  · exact eq_of_leads hlast hto
  · exact (eq_of_leads hother hfrom).symm

theorem leads_follow (table : AliasTable) (hops : Nat) (name : String) :
    table.Leads name (table.follow hops name) := by
  induction hops generalizing name with
  | zero => exact .refl
  | succ hops ih =>
      rw [follow]
      cases hhop : table.target? name with
      | none => exact .refl
      | some target => exact .head hhop (ih target)

/-- Whatever a ring leads to is in the ring. -/
theorem ring_of_leads (hring : Relation.TransGen table.Hop name name)
    (h : table.Leads name target) : Relation.TransGen table.Hop target target := by
  induction h with
  | refl => exact hring
  | @tail here next _ hhop ih =>
      obtain ⟨after, hafter, hback⟩ := Relation.TransGen.head'_iff.mp ih
      obtain rfl : next = after := table.hop_rightUnique hhop hafter
      exact .tail' hback hhop

open Classical in
/-- The aliases on the chain of a name. -/
noncomputable def ahead (table : AliasTable) (name : String) : Finset String :=
  table.aliases.toFinset.filter (table.Leads name)

theorem mem_ahead {other : String} :
    other ∈ table.ahead name ↔ table.contains other = true ∧ table.Leads name other := by
  classical
  rw [ahead, Finset.mem_filter, List.mem_toFinset]
  exact and_congr_left' Table.contains_iff.symm

theorem contains_of_card_ahead (h : (table.ahead name).card ≤ 0) : table.contains name = false := by
  refine Bool.eq_false_iff.mpr fun halias => ?_
  have hmem : name ∈ table.ahead name := mem_ahead.mpr ⟨halias, .refl⟩
  rw [Finset.card_eq_zero.mp (Nat.le_zero.mp h)] at hmem
  exact Finset.notMem_empty name hmem

theorem card_ahead_le (table : AliasTable) (name : String) :
    (table.ahead name).card ≤ table.size := by
  classical
  calc
    (table.ahead name).card ≤ table.aliases.toFinset.card := Finset.card_filter_le _ _
    _ ≤ table.aliases.length := table.aliases.toFinset_card_le
    _ = table.size := List.length_map _

theorem card_ahead_lt (hring : ¬ Relation.TransGen table.Hop name name)
    (hhop : table.Hop name target) : (table.ahead target).card < (table.ahead name).card := by
  have hsubset : table.ahead target ⊆ table.ahead name := by
    intro other hother
    obtain ⟨halias, hleads⟩ := mem_ahead.mp hother
    exact mem_ahead.mpr ⟨halias, .head hhop hleads⟩
  have hname : name ∈ table.ahead name := mem_ahead.mpr ⟨contains_of_hop hhop, .refl⟩
  have hleft : name ∉ table.ahead target := fun hmem =>
    hring (.head' hhop (mem_ahead.mp hmem).2)
  exact Finset.card_lt_card (Finset.ssubset_iff_of_subset hsubset |>.mpr ⟨name, hname, hleft⟩)

theorem Acyclic.contains_follow (acyclic : table.Acyclic) {hops : Nat}
    (hhops : (table.ahead name).card ≤ hops) : table.contains (table.follow hops name) = false := by
  induction hops generalizing name with
  | zero => exact contains_of_card_ahead hhops
  | succ hops ih =>
      rw [follow]
      cases hhop : table.target? name with
      | none => exact target?_eq_none_iff.mp hhop
      | some target =>
          have hlt := card_ahead_lt (acyclic name) hhop
          exact ih (Nat.le_of_lt_succ (hlt.trans_le hhops))

/-- **What a name resolves to** is no alias. -/
theorem Acyclic.contains_resolve (acyclic : table.Acyclic) (name : String) :
    table.contains (table.resolve name) = false :=
  acyclic.contains_follow ((table.card_ahead_le name).trans (Nat.le_succ _))

/-- A chain that ends leads round no ring, whatever rings there are elsewhere. -/
theorem not_ring_of_leads {last : String} (h : table.Leads name last)
    (hlast : table.contains last = false) : ¬ Relation.TransGen table.Hop name name := by
  intro hring
  obtain ⟨next, hhop, -⟩ := Relation.TransGen.head'_iff.mp (ring_of_leads hring h)
  rw [contains_of_hop hhop] at hlast
  cases hlast

theorem follow_of_leads {last : String} (h : table.Leads name last)
    (hlast : table.contains last = false) {hops : Nat} (hhops : (table.ahead name).card ≤ hops) :
    table.follow hops name = last := by
  induction hops generalizing name with
  | zero => exact eq_of_leads (contains_of_card_ahead hhops) h
  | succ hops ih =>
      rw [follow]
      cases hhop : table.target? name with
      | none => exact eq_of_leads (target?_eq_none_iff.mp hhop) h
      | some target =>
          have hrest : table.Leads target last := by
            rcases h.cases_head with rfl | ⟨next, hnext, hrest⟩
            · rw [contains_of_hop hhop] at hlast
              cases hlast
            · obtain rfl : next = target := table.hop_rightUnique hnext hhop
              exact hrest
          have hlt := card_ahead_lt (not_ring_of_leads h hlast) hhop
          exact ih hrest (Nat.le_of_lt_succ (hlt.trans_le hhops))

/-- A name resolves to the end of its chain, if that has one. -/
theorem resolve_of_leads {last : String} (h : table.Leads name last)
    (hlast : table.contains last = false) : table.resolve name = last :=
  follow_of_leads h hlast ((table.card_ahead_le name).trans (Nat.le_succ _))

theorem leads_resolve (table : AliasTable) (name : String) :
    table.Leads name (table.resolve name) :=
  table.leads_follow _ name

theorem getD_flatten (table : AliasTable) (name : String) :
    (table.flatten.get? name).getD name = table.resolve name := by
  rw [get?_flatten]
  cases halias : table.contains name with
  | true => rfl
  | false => exact (resolve_of_not_contains halias).symm

/-! ### Rings -/

theorem Acyclic.mono {other : AliasTable} (acyclic : table.Acyclic)
    (h : ∀ name target, other.Hop name target → table.Hop name target) : other.Acyclic :=
  fun name hring => acyclic name (Relation.TransGen.mono h name name hring)

theorem acyclic_empty : (∅ : AliasTable).Acyclic := by
  intro name hring
  obtain ⟨target, hhop, -⟩ := Relation.TransGen.head'_iff.mp hring
  cases hhop

theorem Acyclic.erase (acyclic : table.Acyclic) (name : String) : (table.erase name).Acyclic := by
  refine acyclic.mono fun other target hhop => ?_
  rw [Hop, target?_erase] at hhop
  split at hhop
  · cases hhop
  · exact hhop

theorem Acyclic.eraseTargeting (acyclic : table.Acyclic) (id : String) :
    (table.eraseTargeting id).Acyclic := by
  refine acyclic.mono fun other target hhop => ?_
  rw [Hop, target?_eraseTargeting] at hhop
  split at hhop
  · cases hhop
  · exact hhop

theorem target?_point (table : AliasTable) (name target other : String) :
    (table.point name target).target? other =
      if other = name then some target else table.target? other :=
  Table.get?_insert _ _ _ _

theorem hop_point_of_ne {other next : String} (hne : other ≠ name) :
    (table.point name target).Hop other next ↔ table.Hop other next := by
  rw [Hop, target?_point, if_neg hne, Hop]

theorem hop_point_self : (table.point name target).Hop name target := by
  rw [Hop, target?_point, if_pos rfl]

/-- A chain on which `name` is not met is the same in both tables. -/
theorem leads_of_leads_point {start other : String} (habsent : ¬ table.Leads start name)
    (h : (table.point name target).Leads start other) : table.Leads start other := by
  induction h with
  | refl => exact .refl
  | @tail here next _ hhop ih =>
      have hne : here ≠ name := fun hhere => habsent (hhere ▸ ih)
      exact ih.tail ((hop_point_of_ne hne).mp hhop)

/-- A chain goes the same way in both tables until it comes to `name`. -/
theorem leads_point_of_leads {start : String} (h : table.Leads start name) :
    (table.point name target).Leads start name := by
  induction h using Relation.ReflTransGen.head_induction_on with
  | refl => exact .refl
  | @head here next hhop _ ih =>
      by_cases hhere : here = name
      · rw [hhere]
        exact .refl
      · exact .head ((hop_point_of_ne hhere).mpr hhop) ih

/-- **A ring is closed** where the target leads back to the alias. -/
theorem Acyclic.point_iff (acyclic : table.Acyclic) :
    (table.point name target).Acyclic ↔ ¬ table.Leads target name := by
  constructor
  · intro hpoint hleads
    exact hpoint name (.head' hop_point_self (leads_point_of_leads hleads))
  · intro habsent other hring
    by_cases hmeets : table.Leads other name
    · have hname := ring_of_leads hring (leads_point_of_leads hmeets)
      obtain ⟨next, hhop, hback⟩ := Relation.TransGen.head'_iff.mp hname
      obtain rfl : next = target := (table.point name target).hop_rightUnique hhop hop_point_self
      exact habsent (leads_of_leads_point habsent hback)
    · obtain ⟨next, hhop, hback⟩ := Relation.TransGen.head'_iff.mp hring
      have hne : other ≠ name := fun hsame => hmeets (hsame ▸ .refl)
      have hfirst := (hop_point_of_ne hne).mp hhop
      have hfree : ¬ table.Leads next name := fun hnext => hmeets (.head hfirst hnext)
      exact acyclic other (.head' hfirst (leads_of_leads_point hfree hback))

theorem insert_eq_error_iff {error : Error} :
    table.insert name target = .error error ↔
      (name = target ∨ table.resolve target = name) ∧ error = .aliasToItself name := by
  unfold AliasTable.insert
  split
  · next hrefused =>
      rw [Except.error.injEq]
      exact ⟨fun heq => ⟨hrefused, heq.symm⟩, fun heq => heq.2.symm⟩
  · next haccepted =>
      constructor
      · intro hok
        cases hok
      · intro h
        exact absurd h.1 haccepted

/-- A target that leads to a new name, or to its own, is refused, and no other. -/
theorem Acyclic.refused_iff (acyclic : table.Acyclic)
    (hnew : table.contains name → name ≠ target → ¬ table.Leads target name) :
    name = target ∨ table.resolve target = name ↔ table.Leads target name := by
  constructor
  · rintro (rfl | rfl)
    · exact .refl
    · exact table.leads_resolve target
  · intro hleads
    by_cases hself : name = target
    · exact .inl hself
    · have hname : table.contains name = false :=
        Bool.eq_false_iff.mpr fun halias => hnew halias hself hleads
      exact .inr (end_unique (table.leads_resolve target) hleads
        (acyclic.contains_resolve target) hname)

/-- A table that comes from the empty one by insertions and removals, where an alias that is there
already is never pointed at a name that leads back to it. -/
inductive Tended : AliasTable → Prop
  | empty : Tended ∅
  | insert {table longer : AliasTable} {name target : String} (tended : Tended table)
      (hnew : table.contains name → name ≠ target → ¬ table.Leads target name)
      (hinsert : table.insert name target = .ok longer) : Tended longer
  | erase {table : AliasTable} (name : String) (tended : Tended table) : Tended (table.erase name)
  | eraseTargeting {table : AliasTable} (id : String) (tended : Tended table) :
      Tended (table.eraseTargeting id)

theorem Tended.acyclic (tended : table.Tended) : table.Acyclic := by
  induction tended with
  | empty => exact acyclic_empty
  | @insert table longer name target _ hnew hinsert ih =>
      obtain ⟨hself, hends, rfl⟩ := insert_eq_ok_iff.mp hinsert
      refine ih.point_iff.mpr fun hleads => ?_
      rcases (ih.refused_iff hnew).mpr hleads with hsame | hback
      · exact hself hsame
      · exact hends hback
  | erase name _ ih => exact ih.erase name
  | eraseTargeting id _ ih => exact ih.eraseTargeting id

/-- **Chains end.** In a tended table no chain comes back. An alias is refused exactly where it
would close a ring, unless it is there already and is pointed at another name. Each name resolves to
the end of its chain, in the flat table too. -/
theorem chains_end (tended : table.Tended) :
    table.Acyclic ∧
    (∀ name target, (table.contains name → name ≠ target → ¬ table.Leads target name) →
      (table.insert name target = .error (.aliasToItself name) ↔
        ¬ (table.point name target).Acyclic) ∧
      (table.insert name target = .ok (table.point name target) ↔
        (table.point name target).Acyclic)) ∧
    ∀ name, table.Leads name (table.resolve name) ∧ table.contains (table.resolve name) = false ∧
      table.resolve (table.resolve name) = table.resolve name ∧
      (table.flatten.get? name).getD name = table.resolve name := by
  have acyclic := tended.acyclic
  refine ⟨acyclic, fun name target hnew => ?_, fun name => ?_⟩
  · have hrefused := acyclic.refused_iff hnew
    rw [acyclic.point_iff, not_not, insert_eq_error_iff, insert_eq_ok_iff, ← hrefused, not_or]
    exact ⟨and_iff_left rfl, fun h => ⟨h.1, h.2.1⟩, fun h => ⟨h.1, h.2, rfl⟩⟩
  · have hend := acyclic.contains_resolve name
    exact ⟨table.leads_resolve name, hend, resolve_of_not_contains hend, table.getD_flatten name⟩

/-- At the end of two aliases there is `"y"`, which cannot become an alias for the first of them. -/
theorem chains_end_two :
    let table := ((∅ : AliasTable).point "x" "y").point "z" "x"
    table.Tended ∧ table.Acyclic ∧ table.Leads "z" "y" ∧
      table.insert "y" "z" = .error (.aliasToItself "y") := by
  intro table
  have hfresh : ∀ (longer : AliasTable) (name target : String), longer.contains name = false →
      longer.contains name → name ≠ target → ¬ longer.Leads target name :=
    fun _ _ _ hfree halias => absurd halias (Bool.eq_false_iff.mp hfree)
  have hone : ((∅ : AliasTable).point "x" "y").Tended :=
    .insert .empty (hfresh _ _ _ (by decide)) (insert_eq_ok_iff.mpr ⟨by decide, by decide, rfl⟩)
  have htwo : table.Tended :=
    .insert hone (hfresh _ _ _ (by decide)) (insert_eq_ok_iff.mpr ⟨by decide, by decide, rfl⟩)
  obtain ⟨acyclic, hguard, hends⟩ := chains_end htwo
  have hleads : table.Leads "z" "y" := by
    have hend := (hends "z").1
    rwa [show table.resolve "z" = "y" by decide] at hend
  have hring : ¬ (table.point "y" "z").Acyclic :=
    fun hpoint => acyclic.point_iff.mp hpoint hleads
  exact ⟨htwo, acyclic, hleads, (hguard "y" "z" (hfresh _ _ _ (by decide))).1.mpr hring⟩

/-- An alias that is pointed at a name that leads to it closes a ring, and is not refused. -/
theorem repointing_closes_ring :
    ∃ one two ring : AliasTable,
      (∅ : AliasTable).insert "a" "x" = .ok one ∧ one.insert "b" "a" = .ok two ∧
        two.insert "a" "b" = .ok ring ∧ ¬ ring.Acyclic ∧
        ring.contains (ring.resolve "a") = true ∧
        ring.resolve (ring.resolve "a") ≠ ring.resolve "a" := by
  let ring := (((∅ : AliasTable).point "a" "x").point "b" "a").point "a" "b"
  have hhop : ring.Hop "a" "b" := by rw [Hop]; decide
  have hback : ring.Hop "b" "a" := by rw [Hop]; decide
  refine ⟨(∅ : AliasTable).point "a" "x", ((∅ : AliasTable).point "a" "x").point "b" "a", ring,
    insert_eq_ok_iff.mpr ⟨by decide, by decide, rfl⟩,
    insert_eq_ok_iff.mpr ⟨by decide, by decide, rfl⟩,
    insert_eq_ok_iff.mpr ⟨by decide, by decide, rfl⟩, ?_, by decide, by decide⟩
  exact fun acyclic => acyclic "a" (.tail (.single hhop) hback)

end AliasTable
end Wiring
