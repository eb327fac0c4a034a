import Wiring.Proofs.EagerGraph
import Wiring.Resolution

/-!
# Names at run time and at compile time

An interpreter looks a name up when it meets it, the compiler once and for all. Both find the same
definition, lazy or not, where no alias stands before a definition and candidates are in order.
-/

namespace Wiring

theorem AliasTable.resolve_of_free {aliases : AliasTable} {id : String}
    (hfree : aliases.target? id = none) : aliases.resolve id = id := by
  rw [resolve, follow, hfree]

namespace Plan

variable (registry : Registry) (maxDepth : Nat)

/-- Whatever a name leads to can be linked. -/
theorem select_of_target {name id : String}
    (htarget : (ofRegistry registry maxDepth).target name = .ok id) :
    ∃ position, (ofRegistry registry maxDepth).select name = .ok ⟨id, position⟩ := by
  have hcontains := contains_of_target registry maxDepth htarget
  obtain ⟨position, hlink⟩ := link_isOk_of_mem ((mem_ids_iff registry maxDepth).mpr hcontains)
  exact ⟨position, by rw [select, htarget]; exact hlink⟩

theorem select_of_target_error {name : String} {error : Error}
    (htarget : (ofRegistry registry maxDepth).target name = .error error) :
    (ofRegistry registry maxDepth).select name = .error error := by
  rw [select, htarget]
  rfl

theorem target_of_contains {registry : Registry} {maxDepth : Nat} {name : String}
    (hcontains : registry.contains (registry.resolveAlias name)) :
    (ofRegistry registry maxDepth).target name = .ok (registry.resolveAlias name) := by
  unfold target
  exact if_pos hcontains

theorem target_of_absent {registry : Registry} {maxDepth : Nat} {name : String}
    (hfound : registry.definition? (registry.resolveAlias name) = none) :
    (ofRegistry registry maxDepth).target name =
      match (ofRegistry registry maxDepth).candidates (registry.resolveAlias name) with
      | [] => .error (.notFound (registry.resolveAlias name))
      | [only] => .ok only
      | ids => .error (.ambiguousType (registry.resolveAlias name) ids) := by
  unfold target
  exact if_neg (Option.not_isSome_iff_eq_none.mpr hfound)

end Plan

namespace Interpreter

variable {registry : Registry} {maxDepth : Nat}

/-- What the interpreter and the compiler have to agree on before names can be resolved. -/
structure Unambiguous (registry : Registry) (maxDepth : Nat) : Prop where
  free : ∀ id, registry.contains id → registry.aliases.target? id = none
  candidates : ∀ typeName, registry.candidates typeName =
    (Plan.ofRegistry registry maxDepth).candidates typeName

theorem Unambiguous.ofReachable (reachable : registry.Reachable)
    (free : ∀ id, registry.contains id → registry.aliases.target? id = none)
    (ascending : ∀ typeName, (registry.candidates typeName).Pairwise (· < ·)) :
    Unambiguous registry maxDepth :=
  ⟨free, fun typeName =>
    (Plan.candidates_eq registry maxDepth reachable.indexed typeName (ascending typeName)).symm⟩

theorem lazyTarget_eq (unambiguous : Unambiguous registry maxDepth) (name : String) :
    registry.lazyTarget? name =
      ((Plan.ofRegistry registry maxDepth).target name).toOption.filter registry.isLazy := by
  unfold Registry.lazyTarget?
  dsimp only
  cases hfound : registry.definition? (registry.resolveAlias name) with
  | some definition =>
      have hcontains : registry.contains (registry.resolveAlias name) :=
        Option.isSome_of_eq_some hfound
      rw [if_pos hcontains, Plan.target_of_contains hcontains]
      rfl
  | none =>
      have hcontains : ¬ registry.contains (registry.resolveAlias name) :=
        Option.not_isSome_iff_eq_none.mpr hfound
      rw [if_neg hcontains, Plan.target_of_absent hfound, unambiguous.candidates]
      rcases (Plan.ofRegistry registry maxDepth).candidates (registry.resolveAlias name) with
        _ | ⟨only, _ | ⟨second, rest⟩⟩ <;> rfl

end Interpreter
end Wiring
