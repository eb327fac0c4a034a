import Mathlib.Data.List.Basic
import Mathlib.Data.List.Infix
import Mathlib.Data.List.Nodup
import Wiring.Loading

/-!
# Threads that share a loading set

Threads enter services and give their guards back in any interleaving. A guard is given back by
cutting the thread's chain to a remembered depth, and a thread that is refused leaves a trace in the
set as well; yet the chain that the set keeps for a thread is the list of what the thread holds. The
invariant behind it: the guard at position `i` of a thread remembers the depth `i + 1`, so that
giving back the innermost one cuts off one id.
-/

namespace Wiring

namespace Chain

/-- The path of a cycle starts at the id's own position. -/
theorem dropWhile_ne (chain : List String) (id : String) :
    chain.dropWhile (· ≠ id) = chain.drop (chain.idxOf id) := by
  induction chain with
  | nil => rfl
  | cons first rest ih =>
      by_cases hfirst : first = id
      · subst hfirst
        simp
      · have hapart : (first == id) = false := by simp [hfirst]
        rw [List.dropWhile_cons, List.idxOf_cons, hapart]
        simpa [hfirst] using ih

theorem enter_eq_circular_iff {maxDepth : Nat} {chain path : List String} {id asked : String} :
    enter maxDepth chain id = .error (.circularReference asked path) ↔
      asked = id ∧ id ∈ chain ∧ path = chain.drop (chain.idxOf id) ++ [id] := by
  unfold enter
  rw [dropWhile_ne]
  split_ifs with inside full <;> grind

theorem enter_eq_exceeded_iff {maxDepth limit : Nat} {chain : List String} {id asked : String} :
    enter maxDepth chain id = .error (.resolutionDepthExceeded asked limit) ↔
      asked = id ∧ limit = maxDepth ∧ id ∉ chain ∧ maxDepth ≤ chain.length := by
  unfold enter
  split_ifs with inside full <;> grind

end Chain

namespace LoadingSet

variable (set : LoadingSet) (thread other : ThreadId)

theorem lookup_filter_thread (chains : List (ThreadId × List String)) :
    (chains.filter (·.1 ≠ thread)).lookup other =
      if other = thread then none else chains.lookup other := by
  induction chains with
  | nil => simp
  | cons entry rest ih =>
      rw [List.filter_cons]
      by_cases hentry : entry.1 = thread
      · rw [if_neg (by simp [hentry]), ih, List.lookup_cons, hentry]
        by_cases hother : other = thread
        · rw [if_pos hother, if_pos hother]
        · rw [if_neg hother, if_neg hother, beq_false_of_ne hother]
      · rw [if_pos (by simp [hentry]), List.lookup_cons, List.lookup_cons, ih]
        by_cases hother : other = entry.1
        · simp [hother, hentry]
        · rw [beq_false_of_ne hother]

theorem chain_drop :
    (set.drop thread).chain other = if other = thread then [] else set.chain other := by
  unfold chain drop
  rw [lookup_filter_thread]
  split <;> rfl

theorem chain_store (chain : List String) :
    (set.store thread chain).chain other = if other = thread then chain else set.chain other := by
  have hdrop := set.chain_drop thread other
  unfold LoadingSet.chain at hdrop ⊢
  unfold store
  by_cases hother : other = thread
  · simp [hother]
  · rw [if_neg hother] at hdrop ⊢
    rw [List.lookup_cons, beq_false_of_ne hother, hdrop]

theorem enter_of_error {id : String} {error : Error}
    (hrefused : Chain.enter set.maxDepth (set.chain thread) id = .error error) :
    set.enter thread id = (set.store thread (set.chain thread), .error error) := by
  simp only [enter, hrefused]

theorem enter_of_ok {id : String} (hfresh : id ∉ set.chain thread)
    (hroom : (set.chain thread).length < set.maxDepth) :
    set.enter thread id =
      (set.store thread (set.chain thread ++ [id]),
        .ok ⟨thread, (set.chain thread).length + 1⟩) := by
  have henter := Chain.enter_eq_ok_iff.2 ⟨hfresh, hroom, rfl⟩
  simp only [enter, henter, List.length_append, List.length_singleton]

theorem enter_eq_error_iff {id : String} {error : Error} :
    (set.enter thread id).2 = .error error ↔
      Chain.enter set.maxDepth (set.chain thread) id = .error error := by
  cases henter : Chain.enter set.maxDepth (set.chain thread) id with
  | error other => simp [set.enter_of_error thread henter]
  | ok longer =>
      obtain ⟨hfresh, hroom, -⟩ := Chain.enter_eq_ok_iff.1 henter
      rw [set.enter_of_ok thread hfresh hroom]
      simp

theorem enter_eq_ok_iff {id : String} {guard : LoadingGuard} :
    (set.enter thread id).2 = .ok guard ↔
      id ∉ set.chain thread ∧ (set.chain thread).length < set.maxDepth ∧
        guard = ⟨thread, (set.chain thread).length + 1⟩ := by
  constructor
  · intro hok
    cases henter : Chain.enter set.maxDepth (set.chain thread) id with
    | error error =>
        rw [set.enter_of_error thread henter] at hok
        cases hok
    | ok longer =>
        obtain ⟨hfresh, hroom, -⟩ := Chain.enter_eq_ok_iff.1 henter
        rw [set.enter_of_ok thread hfresh hroom] at hok
        cases hok
        exact ⟨hfresh, hroom, rfl⟩
  · rintro ⟨hfresh, hroom, rfl⟩
    rw [set.enter_of_ok thread hfresh hroom]

theorem chain_release (guard : LoadingGuard) :
    (set.release guard).chain other =
      if other = guard.thread then (set.chain guard.thread).take (guard.depth - 1)
      else set.chain other := by
  unfold release
  cases hlookup : set.chains.lookup guard.thread with
  | none =>
      have hchain : set.chain guard.thread = [] := by rw [chain, hlookup, Option.getD_none]
      by_cases hother : other = guard.thread
      · rw [if_pos hother, hother, hchain, List.take_nil]
      · rw [if_neg hother]
  | some held =>
      have hchain : set.chain guard.thread = held := by rw [chain, hlookup, Option.getD_some]
      rw [hchain]
      dsimp only
      split
      · next hcut => rw [chain_drop, hcut]
      · exact set.chain_store guard.thread other _

theorem maxDepth_release (guard : LoadingGuard) : (set.release guard).maxDepth = set.maxDepth := by
  unfold release
  split
  · rfl
  · split <;> rfl

end LoadingSet

/-- What a thread may do next: ask to enter a service, or give back the innermost guard that it
holds. -/
inductive Move where
  | enter (thread : ThreadId) (id : String)
  | release (thread : ThreadId)

def Move.thread : Move → ThreadId
  | .enter thread _ => thread
  | .release thread => thread

/-- A loading set, and what each thread has entered and not given back: the ids with their guards,
in the order of entry. -/
structure Threads where
  set : LoadingSet
  held : ThreadId → List (String × LoadingGuard)

namespace Threads

def start (maxDepth : Nat) : Threads where
  set := { maxDepth }
  held _ := []

def enter (threads : Threads) (thread : ThreadId) (id : String) : Threads :=
  match threads.set.enter thread id with
  | (set, .ok guard) =>
      ⟨set, Function.update threads.held thread (threads.held thread ++ [(id, guard)])⟩
  | (set, .error _) => ⟨set, threads.held⟩

/-- A thread that holds nothing gives nothing back. -/
def release (threads : Threads) (thread : ThreadId) : Threads :=
  match (threads.held thread).getLast? with
  | some (_, guard) =>
      ⟨threads.set.release guard,
        Function.update threads.held thread (threads.held thread).dropLast⟩
  | none => threads

def step (threads : Threads) : Move → Threads
  | .enter thread id => threads.enter thread id
  | .release thread => threads.release thread

def run (threads : Threads) (moves : List Move) : Threads := moves.foldl step threads

def inside (threads : Threads) (thread : ThreadId) : List String :=
  (threads.held thread).map Prod.fst

variable {maxDepth : Nat} {threads : Threads} {thread : ThreadId} {id : String}

theorem enter_of_error {error : Error}
    (hrefused :
      Chain.enter threads.set.maxDepth (threads.set.chain thread) id = .error error) :
    threads.enter thread id =
      ⟨threads.set.store thread (threads.set.chain thread), threads.held⟩ := by
  rw [enter, LoadingSet.enter_of_error _ _ hrefused]

theorem enter_of_ok (hfresh : id ∉ threads.set.chain thread)
    (hroom : (threads.set.chain thread).length < threads.set.maxDepth) :
    threads.enter thread id =
      ⟨threads.set.store thread (threads.set.chain thread ++ [id]),
        Function.update threads.held thread
          (threads.held thread ++ [(id, ⟨thread, (threads.set.chain thread).length + 1⟩)])⟩ := by
  rw [enter, LoadingSet.enter_of_ok _ _ hfresh hroom]

theorem release_nil (hheld : threads.held thread = []) : threads.release thread = threads := by
  rw [release, hheld]
  rfl

theorem release_concat {guard : LoadingGuard} {outer : List (String × LoadingGuard)}
    (hheld : threads.held thread = outer ++ [(id, guard)]) :
    threads.release thread =
      ⟨threads.set.release guard, Function.update threads.held thread outer⟩ := by
  rw [release, hheld, List.getLast?_concat, List.dropLast_concat]

/-- The chain of each thread is what it holds, and its guards remember one depth after the other. -/
structure Exact (maxDepth : Nat) (threads : Threads) : Prop where
  limit : threads.set.maxDepth = maxDepth
  chain : ∀ thread, threads.set.chain thread = threads.inside thread
  guards : ∀ (thread : ThreadId) (i : Nat) (entry : String × LoadingGuard),
    (threads.held thread)[i]? = some entry → entry.2 = ⟨thread, i + 1⟩
  nodup : ∀ thread, (threads.inside thread).Nodup
  bounded : ∀ thread, (threads.inside thread).length ≤ maxDepth

theorem Exact.start (maxDepth : Nat) : Exact maxDepth (start maxDepth) where
  limit := rfl
  chain _ := rfl
  guards _ _ _ h := by simp [Threads.start] at h
  nodup _ := List.nodup_nil
  bounded _ := Nat.zero_le _

/-- Changing what one thread holds keeps the invariant if it keeps it for that thread. -/
theorem Exact.change (exact : Exact maxDepth threads) (thread : ThreadId) {set : LoadingSet}
    {now : List (String × LoadingGuard)} (hlimit : set.maxDepth = threads.set.maxDepth)
    (hchain : ∀ other, set.chain other =
      if other = thread then now.map Prod.fst else threads.set.chain other)
    (hguards : ∀ (i : Nat) (entry : String × LoadingGuard),
      now[i]? = some entry → entry.2 = ⟨thread, i + 1⟩)
    (hnodup : (now.map Prod.fst).Nodup) (hbounded : (now.map Prod.fst).length ≤ maxDepth) :
    Exact maxDepth ⟨set, Function.update threads.held thread now⟩ where
  limit := hlimit.trans exact.limit
  chain other := by
    dsimp only [inside]
    rw [hchain, Function.update_apply, apply_ite (List.map Prod.fst), exact.chain, inside]
  guards other i entry h := by
    dsimp only at h
    rw [Function.update_apply] at h
    split at h
    · next hother => exact hother ▸ hguards i entry h
    · exact exact.guards other i entry h
  nodup other := by
    dsimp only [inside]
    rw [Function.update_apply]
    split
    · exact hnodup
    · exact exact.nodup other
  bounded other := by
    dsimp only [inside]
    rw [Function.update_apply]
    split
    · exact hbounded
    · exact exact.bounded other

theorem Exact.enter (exact : Exact maxDepth threads) (thread : ThreadId) (id : String) :
    Exact maxDepth (threads.enter thread id) := by
  cases henter : Chain.enter threads.set.maxDepth (threads.set.chain thread) id with
  | error error =>
      rw [enter_of_error henter]
      have hchain : ∀ other,
          (threads.set.store thread (threads.set.chain thread)).chain other =
            threads.set.chain other := by
        intro other
        rw [LoadingSet.chain_store]
        split
        · next hother => rw [hother]
        · rfl
      exact { exact with chain := fun other => (hchain other).trans (exact.chain other) }
  | ok longer =>
      obtain ⟨hfresh, hroom, -⟩ := Chain.enter_eq_ok_iff.1 henter
      rw [enter_of_ok hfresh hroom]
      rw [exact.limit] at hroom
      have hlength : (threads.set.chain thread).length = (threads.held thread).length := by
        rw [exact.chain, inside, List.length_map]
      refine exact.change thread rfl (fun other => ?_) (fun i entry h => ?_) ?_ ?_
      · rw [LoadingSet.chain_store, exact.chain thread, inside, List.map_append, List.map_singleton]
      · -- the new guard remembers the length of the longer chain
        rcases Nat.lt_or_ge i (threads.held thread).length with hlt | hge
        · rw [List.getElem?_append_left hlt] at h
          exact exact.guards thread i entry h
        · have hlast : i = (threads.held thread).length := by
            have := (List.getElem?_eq_some_iff.1 h).1
            simp only [List.length_append, List.length_singleton] at this
            omega
          rw [hlast, List.getElem?_concat_length] at h
          cases h
          rw [hlength, hlast]
      · rw [exact.chain, inside] at hfresh
        rw [List.map_append, List.map_singleton]
        exact List.nodup_append.2 ⟨exact.nodup thread, List.nodup_singleton _, by grind⟩
      · rw [List.length_map, List.length_append, List.length_singleton, ← hlength]
        exact hroom

/-- The innermost guard that a thread holds remembers how many it holds. -/
theorem Exact.innermost (exact : Exact maxDepth threads) {guard : LoadingGuard}
    {outer : List (String × LoadingGuard)} (hheld : threads.held thread = outer ++ [(id, guard)]) :
    guard = ⟨thread, outer.length + 1⟩ :=
  exact.guards thread outer.length (id, guard) (by rw [hheld, List.getElem?_concat_length])

theorem Exact.release (exact : Exact maxDepth threads) (thread : ThreadId) :
    Exact maxDepth (threads.release thread) := by
  rcases List.eq_nil_or_concat' (threads.held thread) with hheld | ⟨outer, ⟨id, guard⟩, hheld⟩
  · rw [release_nil hheld]
    exact exact
  · rw [release_concat hheld]
    have hinside : threads.inside thread = outer.map Prod.fst ++ [id] := by
      rw [inside, hheld, List.map_append, List.map_singleton]
    have hnodup := exact.nodup thread
    have hbounded := exact.bounded thread
    rw [hinside] at hnodup hbounded
    refine exact.change thread (LoadingSet.maxDepth_release ..) (fun other => ?_)
      (fun i entry h => ?_) (List.nodup_append.1 hnodup).1 ?_
    · -- cutting to the depth before the entry takes off the innermost id
      rw [LoadingSet.chain_release, exact.innermost hheld, exact.chain thread, hinside]
      simp
    · refine exact.guards thread i entry ?_
      rw [hheld, List.getElem?_append_left (List.getElem?_eq_some_iff.1 h).1]
      exact h
    · rw [List.length_append] at hbounded
      omega

theorem Exact.run (exact : Exact maxDepth threads) (moves : List Move) :
    Exact maxDepth (threads.run moves) := by
  induction moves generalizing threads with
  | nil => exact exact
  | cons move rest ih =>
      cases move with
      | enter thread id => exact ih (exact.enter thread id)
      | release thread => exact ih (exact.release thread)

/-- A step of one thread is not seen by another. -/
theorem Exact.step_apart (exact : Exact maxDepth threads) {move : Move} {other : ThreadId}
    (hother : other ≠ move.thread) :
    (threads.step move).set.chain other = threads.set.chain other ∧
      (threads.step move).held other = threads.held other := by
  cases move with
  | enter thread id =>
      change other ≠ thread at hother
      change (threads.enter thread id).set.chain other = _ ∧ (threads.enter thread id).held other = _
      cases henter : Chain.enter threads.set.maxDepth (threads.set.chain thread) id with
      | error error =>
          rw [enter_of_error henter, LoadingSet.chain_store, if_neg hother]
          exact ⟨rfl, rfl⟩
      | ok longer =>
          obtain ⟨hfresh, hroom, -⟩ := Chain.enter_eq_ok_iff.1 henter
          rw [enter_of_ok hfresh hroom, LoadingSet.chain_store, if_neg hother]
          exact ⟨rfl, Function.update_of_ne hother ..⟩
  | release thread =>
      change other ≠ thread at hother
      change (threads.release thread).set.chain other = _ ∧ (threads.release thread).held other = _
      rcases List.eq_nil_or_concat' (threads.held thread) with hheld | ⟨outer, ⟨id, guard⟩, hheld⟩
      · rw [release_nil hheld]
        exact ⟨rfl, rfl⟩
      · rw [release_concat hheld, LoadingSet.chain_release, exact.innermost hheld, if_neg hother]
        exact ⟨rfl, Function.update_of_ne hother ..⟩

/-- **One stack for each thread.** Whatever the threads have done so far, the chain of a thread is
the list of what it holds, in the order of entry, without repetition and no longer than the limit.
Entering is refused as a cycle exactly when the id is in the thread's own chain, and the path leads
from there back to the id; it is refused for its depth exactly when the id is not there and the
chain is full; otherwise it succeeds. No step of another thread changes the chain. -/
theorem stacks_apart (maxDepth : Nat) (moves : List Move) (thread : ThreadId) :
    let threads := (start maxDepth).run moves
    let chain := threads.set.chain thread
    chain = (threads.held thread).map Prod.fst ∧ chain.Nodup ∧ chain.length ≤ maxDepth ∧
      (∀ id asked path,
        (threads.set.enter thread id).2 = .error (.circularReference asked path) ↔
          asked = id ∧ id ∈ chain ∧ path = chain.drop (chain.idxOf id) ++ [id]) ∧
      (∀ id asked limit,
        (threads.set.enter thread id).2 = .error (.resolutionDepthExceeded asked limit) ↔
          asked = id ∧ limit = maxDepth ∧ id ∉ chain ∧ chain.length = maxDepth) ∧
      (∀ id, (∃ guard, (threads.set.enter thread id).2 = .ok guard) ↔
        id ∉ chain ∧ chain.length ≠ maxDepth) ∧
      ∀ move : Move, move.thread ≠ thread → (threads.step move).set.chain thread = chain := by
  have exact := (Exact.start maxDepth).run moves
  set threads := (start maxDepth).run moves
  have hchain := exact.chain thread
  have hbounded := exact.bounded thread
  rw [← hchain] at hbounded
  refine ⟨hchain, ?_, hbounded, fun id asked path => ?_, fun id asked limit => ?_, fun id => ?_,
    fun move hapart => (exact.step_apart hapart.symm).1⟩
  · rw [hchain]
    exact exact.nodup thread
  · rw [LoadingSet.enter_eq_error_iff, Chain.enter_eq_circular_iff]
  · have hfull : maxDepth ≤ (threads.set.chain thread).length ↔
        (threads.set.chain thread).length = maxDepth :=
      ⟨Nat.le_antisymm hbounded, fun h => h.ge⟩
    rw [LoadingSet.enter_eq_error_iff, Chain.enter_eq_exceeded_iff, exact.limit, hfull]
  · simp only [LoadingSet.enter_eq_ok_iff, exact.limit, exists_and_left, exists_eq, and_true]
    exact and_congr_right fun _ => ⟨Nat.ne_of_lt, Nat.lt_of_le_of_ne hbounded⟩

end Threads

end Wiring
