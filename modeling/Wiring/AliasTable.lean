import Wiring.Error
import Wiring.Table
import Wiring.Dict

/-!
Aliases: names that stand for another name. A lookup follows the chain to its end. An alias may be
pointed at a new target, and its place in the table stays.
-/

namespace Wiring

structure AliasTable where
  targets : Table String := ∅

namespace AliasTable

instance : EmptyCollection AliasTable := ⟨{ targets := ∅ }⟩

instance : Inhabited AliasTable := ⟨∅⟩

def target? (table : AliasTable) (name : String) : Option String := table.targets.get? name

def contains (table : AliasTable) (name : String) : Bool := table.targets.contains name

def aliases (table : AliasTable) : List String := table.targets.keys

def size (table : AliasTable) : Nat := table.targets.size

def isEmpty (table : AliasTable) : Bool := table.targets.isEmpty

/-- At most `hops` steps along the chain. -/
def follow (table : AliasTable) : Nat → String → String
  | 0, id => id
  | hops + 1, id =>
      match table.target? id with
      | some target => table.follow hops target
      | none => id

/-- A chain without repetition has fewer steps than the table has entries. -/
def resolve (table : AliasTable) (id : String) : String := table.follow (table.size + 1) id

/-- Refuses an alias for itself, directly or at the end of the target's chain. -/
def insert (table : AliasTable) (name target : String) : Except Error AliasTable :=
  if name = target ∨ table.resolve target = name then .error (.aliasToItself name)
  else .ok { targets := table.targets.insert name target }

def erase (table : AliasTable) (name : String) : AliasTable :=
  { targets := table.targets.erase name }

theorem insert_eq_ok_iff {table longer : AliasTable} {name target : String} :
    table.insert name target = .ok longer ↔
      name ≠ target ∧ table.resolve target ≠ name ∧
        longer = { targets := table.targets.insert name target } := by
  unfold insert
  split
  · next refused => rcases refused with same | ring <;> simp [*]
  · next accepted =>
      rw [not_or] at accepted
      simp only [Except.ok.injEq, ne_eq, accepted, not_false_eq_true, true_and]
      exact eq_comm

@[simp]
theorem target?_erase (table : AliasTable) (name other : String) :
    (table.erase name).target? other = if other = name then none else table.target? other :=
  Table.get?_erase table.targets name other

/-- Drops every alias whose chain ends at `id`. -/
def eraseTargeting (table : AliasTable) (id : String) : AliasTable :=
  { targets := table.targets.filterMap fun name target =>
      if table.resolve name = id then none else some target }

theorem target?_eraseTargeting (table : AliasTable) (id name : String) :
    (table.eraseTargeting id).target? name =
      if table.resolve name = id then none else table.target? name := by
  unfold target? eraseTargeting
  rw [Table.get?_filterMap]
  cases table.targets.get? name <;> simp

/-- Each alias with the end of its chain. -/
def flatten (table : AliasTable) : Dict String :=
  .ofList (table.aliases.map fun name => (name, table.resolve name))

end AliasTable
end Wiring
