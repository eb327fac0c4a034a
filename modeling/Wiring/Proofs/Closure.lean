import Mathlib.Data.List.Nodup
import Mathlib.Data.Prod.Lex
import Mathlib.Logic.Relation
import Mathlib.Order.WellFounded
import Wiring.Catalog

/-!
# What a class implements

The types of a class are found with a stack of names that are still to be looked at: the top is
taken off, and if it is new it is noted and what it implements is put on top. Written by recursion
the same traversal needs no stack, since a name is then left only after everything below it has been
visited. Both end for the same reason: each step lowers the number of declared classes that are not
noted, or leaves it and shortens what is pending, because a name that nobody declared implements
nothing. So a relation that goes in circles is walked through all the same. What the loop finds is
read off what each of its turns keeps.
-/

namespace Wiring

namespace Catalog

variable (catalog : Catalog) {seen later names pending : List String} {name : String}

/-! ### The recursive traversal -/

theorem unseen_le_of_subset (hsub : seen ⊆ later) : catalog.unseen later ≤ catalog.unseen seen :=
  (List.monotone_filter_right _ fun _ hnew => by
    simp only [decide_eq_true_eq] at hnew ⊢
    exact fun hseen => hnew (hsub hseen)).length_le

/-- Noting a new name is progress, whatever is pending afterwards if the name is declared. -/
theorem noted_lt (hnew : name ∉ seen) {length before : Nat}
    (hshorter : catalog.implements name = [] → length < before) :
    Prod.Lex (· < ·) (· < ·) (catalog.unseen (seen ++ [name]), length)
      (catalog.unseen seen, before) := by
  by_cases hdeclared : name ∈ catalog.classes.keys
  · exact Prod.Lex.left _ _ (unseen_append_lt hdeclared hnew)
  · have hless := hshorter (implements_eq_nil hdeclared)
    rcases Nat.lt_or_eq_of_le (catalog.unseen_append_le seen name) with hlt | heq
    · exact Prod.Lex.left _ _ hlt
    · rw [heq]
      exact Prod.Lex.right _ hless

/-- Visits each name and, right after it, what it implements; names already seen are skipped. What
was seen stays seen, which is why the recursion ends. -/
def walk (seen : List String) : List String → { later : List String // seen ⊆ later }
  | [] => ⟨seen, List.Subset.refl seen⟩
  | name :: rest =>
      if name ∈ seen then walk seen rest
      else
        let inner := walk (seen ++ [name]) (catalog.implements name)
        have hkept : seen ⊆ inner.1 := List.Subset.trans (List.subset_append_left ..) inner.2
        let outer := walk inner.1 rest
        ⟨outer.1, List.Subset.trans hkept outer.2⟩
termination_by names => (catalog.unseen seen, names.length)
decreasing_by
  · exact Prod.Lex.right _ (by simp)
  · next hnew => exact catalog.noted_lt hnew fun hnone => by simp [hnone]
  · rcases Nat.lt_or_eq_of_le (catalog.unseen_le_of_subset hkept) with hlt | heq
    · exact Prod.Lex.left _ _ hlt
    · rw [heq]
      exact Prod.Lex.right _ (by simp)

/-- The traversal from one name, after `seen` has been visited. -/
def preorder (seen : List String) (name : String) : List String := (catalog.walk seen [name]).1

theorem walk_nil (seen : List String) : (catalog.walk seen []).1 = seen := by
  rw [walk]

theorem walk_seen (hseen : name ∈ seen) (rest : List String) :
    catalog.walk seen (name :: rest) = catalog.walk seen rest := by
  rw [walk, if_pos hseen]

theorem walk_new (hnew : name ∉ seen) (rest : List String) :
    (catalog.walk seen (name :: rest)).1 =
      (catalog.walk (catalog.walk (seen ++ [name]) (catalog.implements name)).1 rest).1 := by
  rw [walk, if_neg hnew]

theorem walk_cons (seen : List String) (name : String) (rest : List String) :
    (catalog.walk seen (name :: rest)).1 =
      (catalog.walk (catalog.preorder seen name) rest).1 := by
  by_cases hseen : name ∈ seen
  · rw [preorder, walk_seen catalog hseen, walk_seen catalog hseen, walk_nil]
  · rw [preorder, walk_new catalog hseen, walk_new catalog hseen, walk_nil]

theorem walk_eq_foldl (seen names : List String) :
    (catalog.walk seen names).1 = names.foldl catalog.preorder seen := by
  induction names generalizing seen with
  | nil => exact catalog.walk_nil seen
  | cons name rest ih => rw [walk_cons, ih, List.foldl_cons]

theorem preorder_of_mem (hseen : name ∈ seen) : catalog.preorder seen name = seen := by
  rw [preorder, walk_seen catalog hseen, walk_nil]

theorem preorder_of_not_mem (hnew : name ∉ seen) :
    catalog.preorder seen name =
      (catalog.implements name).foldl catalog.preorder (seen ++ [name]) := by
  rw [preorder, walk_new catalog hnew, walk_nil, walk_eq_foldl]

/-! ### The loop -/

/-- One turn of the loop on what is noted and what is pending, the top of the stack first. -/
inductive Turn : List String × List String → List String × List String → Prop
  | again {seen pending : List String} {name : String} (hseen : name ∈ seen) :
      Turn (seen, name :: pending) (seen, pending)
  | fresh {seen pending : List String} {name : String} (hnew : name ∉ seen) :
      Turn (seen, name :: pending) (seen ++ [name], catalog.implements name ++ pending)

/-- There is no endless run of the loop, from whatever it starts. -/
theorem turn_wellFounded : WellFounded (Function.swap catalog.Turn) := by
  refine Subrelation.wf (fun {after before} hturn => ?_)
    (InvImage.wf (fun state : List String × List String =>
      (catalog.unseen state.1, state.2.length)) (Prod.lex Nat.lt_wfRel Nat.lt_wfRel).wf)
  cases hturn with
  | again hseen => exact Prod.Lex.right _ (Nat.lt_succ_self _)
  | fresh hnew => exact catalog.noted_lt hnew fun hnone => by simp [hnone]

theorem turns_visit (seen pending : List String) :
    Relation.ReflTransGen catalog.Turn (seen, pending) (catalog.visit seen pending, []) := by
  induction seen, pending using visit.induct catalog with
  | case1 seen => rw [visit]
  | case2 seen name pending hseen ih =>
      rw [visit, if_pos hseen]
      exact .head (.again hseen) ih
  | case3 seen name pending hnew ih =>
      rw [visit, if_neg hnew]
      exact .head (.fresh hnew) ih

/-- What is on top is walked through completely before the loop comes to what is below. -/
theorem visit_append (seen names pending : List String) :
    catalog.visit seen (names ++ pending) = catalog.visit (catalog.walk seen names).1 pending := by
  induction seen, names using walk.induct catalog generalizing pending with
  | case1 seen => rw [walk_nil, List.nil_append]
  | case2 seen name rest hseen ih =>
      rw [List.cons_append, visit, if_pos hseen, walk_seen catalog hseen, ih]
  | case3 seen name rest hnew inner hkept ihinner ihrest =>
      rw [List.cons_append, visit, if_neg hnew, walk_new catalog hnew, ihinner, ihrest]

/-! ### What a turn keeps -/

/-- One class names the other among what it implements. -/
def Implements (className implemented : String) : Prop :=
  implemented ∈ catalog.implements className

/-- A name that the loop has come across is noted or pending. -/
def Known (state : List String × List String) (name : String) : Prop :=
  name ∈ state.1 ∨ name ∈ state.2

/-- What a noted name implements has been come across. -/
def Closed (state : List String × List String) : Prop :=
  ∀ className ∈ state.1, ∀ implemented, catalog.Implements className implemented →
    Known state implemented

section Turns

variable {catalog} {before after : List String × List String} (turn : catalog.Turn before after)

include turn

theorem Turn.noted : before.1 <+: after.1 := by
  cases turn with
  | again hseen => exact List.prefix_rfl
  | fresh hnew => exact List.prefix_append ..

theorem Turn.nodup (hnodup : before.1.Nodup) : after.1.Nodup := by
  cases turn with
  | again hseen => exact hnodup
  | fresh hnew => exact List.nodup_append.2 ⟨hnodup, List.nodup_singleton _, by grind⟩

/-- What has been come across is not lost. -/
theorem Turn.known (hknown : Known before name) : Known after name := by
  cases turn with
  | again hseen =>
      rcases hknown with hnoted | hpending
      · exact .inl hnoted
      · rcases List.mem_cons.1 hpending with rfl | hpending
        · exact .inl hseen
        · exact .inr hpending
  | fresh hnew =>
      rcases hknown with hnoted | hpending
      · exact .inl (List.mem_append_left _ hnoted)
      · rcases List.mem_cons.1 hpending with rfl | hpending
        · exact .inl (List.mem_append_right _ List.mem_cons_self)
        · exact .inr (List.mem_append_right _ hpending)

/-- What is new is what the name on top implements. -/
theorem Turn.known_before (hknown : Known after name) :
    Known before name ∨ ∃ top, Known before top ∧ catalog.Implements top name := by
  cases turn with
  | again hseen => exact .inl (hknown.imp_right (List.mem_cons_of_mem _))
  | fresh hnew =>
      rcases hknown with hnoted | hpending
      · rcases List.mem_append.1 hnoted with hnoted | htop
        · exact .inl (.inl hnoted)
        · rw [List.mem_singleton.1 htop]
          exact .inl (.inr List.mem_cons_self)
      · rcases List.mem_append.1 hpending with himplemented | hpending
        · exact .inr ⟨_, .inr List.mem_cons_self, himplemented⟩
        · exact .inl (.inr (List.mem_cons_of_mem _ hpending))

theorem Turn.closed (hclosed : catalog.Closed before) : catalog.Closed after := by
  intro className hnoted implemented himplements
  by_cases hold : className ∈ before.1
  · exact turn.known (hclosed className hold implemented himplements)
  · cases turn with
    | again hseen => exact absurd hnoted hold
    | fresh hnew =>
        -- It is the name that was noted just now.
        rcases List.mem_append.1 hnoted with hnoted | htop
        · exact absurd hnoted hold
        · rw [List.mem_singleton.1 htop] at himplements
          exact .inr (List.mem_append_left _ himplements)

end Turns

/-! ### What is reached -/

/-- What every turn keeps holds when the loop has ended. -/
theorem visit_keeps (kept : List String × List String → Prop)
    (hturn : ∀ {before after}, catalog.Turn before after → kept before → kept after)
    (hstart : kept (seen, pending)) : kept (catalog.visit seen pending, []) := by
  have hkept : ∀ {state},
      Relation.ReflTransGen catalog.Turn (seen, pending) state → kept state := by
    intro state hturns
    induction hturns with
    | refl => exact hstart
    | tail _ hlast ih => exact hturn hlast ih
  exact hkept (catalog.turns_visit seen pending)

theorem visit_noted (seen pending : List String) : seen <+: catalog.visit seen pending :=
  catalog.visit_keeps (seen <+: ·.1) (fun turn hnoted => hnoted.trans turn.noted) List.prefix_rfl

@[simp]
theorem known_done : Known (seen, []) name ↔ name ∈ seen := by
  simp [Known]

theorem mem_typesOf_iff (className : String) :
    name ∈ catalog.typesOf className ↔
      Relation.ReflTransGen catalog.Implements className name := by
  constructor
  · intro hmem
    have hreached : ∀ name, Known (catalog.typesOf className, []) name →
        Relation.ReflTransGen catalog.Implements className name := by
      refine catalog.visit_keeps (fun state => ∀ name, Known state name →
          Relation.ReflTransGen catalog.Implements className name)
        (fun turn hbefore name hknown => ?_) fun name hknown => ?_
      · rcases turn.known_before hknown with hold | ⟨top, htop, himplements⟩
        · exact hbefore name hold
        · exact (hbefore top htop).tail himplements
      · obtain rfl : name = className := by simpa [Known] using hknown
        exact .refl
    exact hreached name (known_done.2 hmem)
  · intro hleads
    have hclosed : catalog.Closed (catalog.typesOf className, []) :=
      catalog.visit_keeps catalog.Closed Turn.closed fun _ hmem => absurd hmem List.not_mem_nil
    induction hleads with
    | refl =>
        have hknown := catalog.visit_keeps (Known · className) Turn.known
          (.inr List.mem_cons_self : Known ([], [className]) className)
        exact known_done.1 hknown
    | tail _ himplements ih => exact known_done.1 (hclosed _ ih _ himplements)

/-- **The closure in depth-first order.** The loop that finds the types of a class runs out of
pending names, whatever the classes implement, in circles or not. What it has noted by then is the
order of the recursive traversal: it starts with the class, names no type twice, and names exactly
what can be reached from the class by going from a class to what it implements. The recursive
traversal leaves what was seen already, and after a new name it visits what that implements, as
declared and one after the other. -/
theorem typesOf_depth_first (className : String) :
    WellFounded (Function.swap catalog.Turn) ∧
      Relation.ReflTransGen catalog.Turn ([], [className]) (catalog.typesOf className, []) ∧
      (catalog.typesOf className).head? = some className ∧
      (catalog.typesOf className).Nodup ∧
      (∀ name, name ∈ catalog.typesOf className ↔
        Relation.ReflTransGen catalog.Implements className name) ∧
      catalog.typesOf className = catalog.preorder [] className ∧
      ∀ seen name, catalog.preorder seen name =
        if name ∈ seen then seen
        else (catalog.implements name).foldl catalog.preorder (seen ++ [name]) := by
  refine ⟨catalog.turn_wellFounded, catalog.turns_visit [] [className], ?_,
    catalog.visit_keeps (·.1.Nodup) Turn.nodup List.nodup_nil,
    fun name => catalog.mem_typesOf_iff className, ?_, fun seen name => ?_⟩
  · rw [typesOf, visit, if_neg List.not_mem_nil]
    obtain ⟨rest, hrest⟩ := catalog.visit_noted ([] ++ [className])
      (catalog.implements className ++ [])
    rw [← hrest]
    rfl
  · have hwalk := catalog.visit_append [] [className] []
    rwa [List.append_nil, visit] at hwalk
  · split
    · next hseen => exact catalog.preorder_of_mem hseen
    · next hnew => exact catalog.preorder_of_not_mem hnew

end Catalog

end Wiring
