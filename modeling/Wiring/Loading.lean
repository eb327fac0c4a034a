import Wiring.Error

/-!
Which services are being constructed. A chain lists them from the outermost to the innermost;
entering one that is in the chain closes a cycle. A loading set keeps one chain for each thread, and
a guard remembers how to leave.
-/

namespace Wiring

def defaultMaxDepth : Nat := 100

namespace Chain

/-- The cycle is told from the first occurrence on; it wins over the depth limit. -/
def enter (maxDepth : Nat) (chain : List String) (id : String) : Except Error (List String) :=
  if id ∈ chain then .error (.circularReference id (chain.dropWhile (· ≠ id) ++ [id]))
  else if maxDepth ≤ chain.length then .error (.resolutionDepthExceeded id maxDepth)
  else .ok (chain ++ [id])

theorem enter_eq_ok_iff {maxDepth : Nat} {chain longer : List String} {id : String} :
    enter maxDepth chain id = .ok longer ↔
      id ∉ chain ∧ chain.length < maxDepth ∧ longer = chain ++ [id] := by
  unfold enter
  by_cases inside : id ∈ chain
  · simp [inside]
  · by_cases full : maxDepth ≤ chain.length
    · simp [inside, full, Nat.not_lt.2 full]
    · simp [inside, full, Nat.not_le.1 full, eq_comm]

end Chain

abbrev ThreadId := Nat

structure LoadingSet where
  maxDepth : Nat := defaultMaxDepth
  chains : List (ThreadId × List String) := []
deriving Inhabited

structure LoadingGuard where
  thread : ThreadId
  depth : Nat
deriving DecidableEq, Inhabited

namespace LoadingSet

def chain (set : LoadingSet) (thread : ThreadId) : List String :=
  (set.chains.lookup thread).getD []

def contains (set : LoadingSet) (thread : ThreadId) (id : String) : Bool := id ∈ set.chain thread

def depth (set : LoadingSet) (thread : ThreadId) : Nat := (set.chain thread).length

/-- No thread has a chain, not even an empty one. -/
def isIdle (set : LoadingSet) : Bool := set.chains.isEmpty

def drop (set : LoadingSet) (thread : ThreadId) : LoadingSet :=
  { set with chains := set.chains.filter (·.1 ≠ thread) }

def store (set : LoadingSet) (thread : ThreadId) (chain : List String) : LoadingSet :=
  { set with chains := (thread, chain) :: (set.drop thread).chains }

/-- A thread that asks to enter has a chain from then on, also when it is refused. -/
def enter (set : LoadingSet) (thread : ThreadId) (id : String) :
    LoadingSet × Except Error LoadingGuard :=
  let chain := set.chain thread
  match Chain.enter set.maxDepth chain id with
  | .error error => (set.store thread chain, .error error)
  | .ok longer => (set.store thread longer, .ok ⟨thread, longer.length⟩)

/-- Cuts the thread's chain to what it was before the guard's entry. -/
def release (set : LoadingSet) (guard : LoadingGuard) : LoadingSet :=
  match set.chains.lookup guard.thread with
  | none => set
  | some chain =>
      match chain.take (guard.depth - 1) with
      | [] => set.drop guard.thread
      | shorter => set.store guard.thread shorter

end LoadingSet
end Wiring
