import Wiring.Proofs.Threads

/-!
# Refused entries and the idle set

A thread that asks to enter is given a place in the set before it is known whether it may, and only
giving a guard back takes the place away. Where the limit lets a thread in at all, a refused thread
already holds something: the id that closes the cycle, or as many as fill its chain. So no thread
has a place for an empty chain, and the set is idle exactly when nothing is held. With a limit of
zero everyone is refused, nobody has a guard to give back, and the place stays.
-/

namespace Wiring

theorem Chain.ne_nil_of_refused {maxDepth : Nat} {chain : List String} {id : String} {error : Error}
    (hlimit : maxDepth ≠ 0) (hrefused : enter maxDepth chain id = .error error) : chain ≠ [] := by
  rintro rfl
  rw [enter, if_neg List.not_mem_nil, if_neg (by simpa using hlimit)] at hrefused
  cases hrefused

namespace LoadingSet

variable {set : LoadingSet} {thread : ThreadId} {id : String}

/-- Each thread that has a place in the set has entered something. -/
def Tended (set : LoadingSet) : Prop := ∀ entry ∈ set.chains, set.chain entry.1 ≠ []

theorem Tended.isIdle_iff (tended : set.Tended) :
    set.isIdle = true ↔ ∀ thread, set.chain thread = [] := by
  rw [isIdle, List.isEmpty_iff]
  constructor
  · intro hnone thread
    rw [chain, hnone]
    rfl
  · intro hempty
    refine List.eq_nil_iff_forall_not_mem.2 fun entry hmem => ?_
    exact tended entry hmem (hempty entry.1)

theorem Tended.drop (tended : set.Tended) (thread : ThreadId) : (set.drop thread).Tended := by
  intro entry hmem
  obtain ⟨hmem, hother⟩ := List.mem_filter.1 hmem
  rw [chain_drop, if_neg (by simpa using hother)]
  exact tended entry hmem

theorem Tended.store (tended : set.Tended) (thread : ThreadId) {chain : List String}
    (hchain : chain ≠ []) : (set.store thread chain).Tended := by
  intro entry hmem
  rw [chain_store]
  split
  · exact hchain
  · next hother =>
      rcases List.mem_cons.1 hmem with rfl | hmem
      · exact absurd rfl hother
      · exact tended entry (List.mem_filter.1 hmem).1

theorem Tended.release (tended : set.Tended) (guard : LoadingGuard) :
    (set.release guard).Tended := by
  unfold LoadingSet.release
  split
  · exact tended
  · split
    · exact tended.drop guard.thread
    · next hcut => exact tended.store guard.thread hcut

/-- Where someone may enter at all, the answer does not matter. -/
theorem Tended.enter (tended : set.Tended) (hlimit : set.maxDepth ≠ 0) (thread : ThreadId)
    (id : String) : (set.enter thread id).1.Tended := by
  cases henter : Chain.enter set.maxDepth (set.chain thread) id with
  | error error =>
      rw [set.enter_of_error thread henter]
      exact tended.store thread (Chain.ne_nil_of_refused hlimit henter)
  | ok longer =>
      obtain ⟨hfresh, hroom, -⟩ := Chain.enter_eq_ok_iff.1 henter
      rw [set.enter_of_ok thread hfresh hroom]
      exact tended.store thread (by simp)

/-- Nobody's chain shows that a thread was refused. -/
theorem chain_enter_of_error {error : Error} (hrefused : (set.enter thread id).2 = .error error)
    (other : ThreadId) : (set.enter thread id).1.chain other = set.chain other := by
  rw [set.enter_of_error thread ((set.enter_eq_error_iff thread).1 hrefused), chain_store]
  split
  · next hother => rw [hother]
  · rfl

theorem isIdle_enter (set : LoadingSet) (thread : ThreadId) (id : String) :
    (set.enter thread id).1.isIdle = false := by
  unfold enter
  dsimp only
  split <;> rfl

end LoadingSet

namespace Threads

variable {maxDepth : Nat} {threads : Threads}

theorem set_enter (threads : Threads) (thread : ThreadId) (id : String) :
    (threads.enter thread id).set = (threads.set.enter thread id).1 := by
  unfold enter
  split <;> next henter => rw [henter]

theorem Exact.step (exact : Exact maxDepth threads) (move : Move) :
    Exact maxDepth (threads.step move) := by
  cases move with
  | enter thread id => exact exact.enter thread id
  | release thread => exact exact.release thread

theorem tended_step (exact : Exact maxDepth threads) (hlimit : maxDepth ≠ 0)
    (tended : threads.set.Tended) (move : Move) : (threads.step move).set.Tended := by
  cases move with
  | enter thread id =>
      change (threads.enter thread id).set.Tended
      rw [set_enter]
      exact tended.enter (exact.limit ▸ hlimit) thread id
  | release thread =>
      change (threads.release thread).set.Tended
      unfold release
      split
      · exact tended.release _
      · exact tended

theorem tended_run (exact : Exact maxDepth threads) (hlimit : maxDepth ≠ 0)
    (tended : threads.set.Tended) (moves : List Move) : (threads.run moves).set.Tended := by
  induction moves generalizing threads with
  | nil => exact tended
  | cons move rest ih => exact ih (exact.step move) (tended_step exact hlimit tended move)

theorem Exact.isIdle_iff (exact : Exact maxDepth threads) (tended : threads.set.Tended) :
    threads.set.isIdle = true ↔ ∀ thread, threads.held thread = [] := by
  rw [tended.isIdle_iff]
  refine forall_congr' fun thread => ?_
  rw [exact.chain, inside, List.map_eq_nil_iff]

theorem Exact.held_zero (exact : Exact 0 threads) (thread : ThreadId) : threads.held thread = [] :=
  List.map_eq_nil_iff.1 (List.length_eq_zero_iff.1 (Nat.le_zero.1 (exact.bounded thread)))

/-- With no room at all the first thread that asks leaves a place that nobody gives back. -/
theorem Exact.isIdle_run_zero (exact : Exact 0 threads) (moves : List Move) :
    (threads.run moves).set.isIdle = true ↔
      threads.set.isIdle = true ∧ ∀ thread id, Move.enter thread id ∉ moves := by
  induction moves generalizing threads with
  | nil => exact (and_iff_left fun _ _ hmem => absurd hmem List.not_mem_nil).symm
  | cons move rest ih =>
      cases move with
      | enter thread id =>
          have hrun := ih (exact.enter thread id)
          rw [set_enter, LoadingSet.isIdle_enter] at hrun
          change ((threads.enter thread id).run rest).set.isIdle = true ↔ _
          rw [hrun]
          constructor
          · rintro ⟨⟨⟩, -⟩
          · rintro ⟨-, hnone⟩
            exact absurd List.mem_cons_self (hnone thread id)
      | release thread =>
          change ((threads.release thread).run rest).set.isIdle = true ↔ _
          rw [release_nil (exact.held_zero thread), ih exact]
          simp

/-- **Refusals leave no mark, where there is room.** Whatever the threads have done so far, a thread
that is refused, for a cycle or for its depth, changes no chain, no depth and nothing of what a
chain contains, for no thread; and unless the limit is zero it does not change whether the set is
idle either. The set is idle exactly when no guard is outstanding, with one exception: a limit of
zero, under which no guard is ever given out, and the set is idle until someone asks. -/
theorem refusals_unmarked (maxDepth : Nat) (moves : List Move) :
    let threads := (start maxDepth).run moves
    (∀ thread id error, (threads.set.enter thread id).2 = .error error →
      let after := (threads.set.enter thread id).1
      (∀ other, after.chain other = threads.set.chain other ∧
        after.depth other = threads.set.depth other ∧
        ∀ asked, after.contains other asked = threads.set.contains other asked) ∧
      (maxDepth ≠ 0 → after.isIdle = threads.set.isIdle)) ∧
    (maxDepth ≠ 0 →
      (threads.set.isIdle = true ↔ ∀ thread, threads.held thread = [])) ∧
    (maxDepth = 0 →
      (∀ thread, threads.held thread = []) ∧
      (threads.set.isIdle = true ↔ ∀ thread id, Move.enter thread id ∉ moves)) := by
  intro threads
  have exact : Exact maxDepth threads := (Exact.start maxDepth).run moves
  have htended : maxDepth ≠ 0 → threads.set.Tended := fun hlimit =>
    tended_run (Exact.start maxDepth) hlimit (fun _ hmem => absurd hmem List.not_mem_nil) moves
  refine ⟨fun thread id error hrefused => ⟨fun other => ?_, fun hlimit => ?_⟩,
    fun hlimit => exact.isIdle_iff (htended hlimit), ?_⟩
  · have hchain := LoadingSet.chain_enter_of_error hrefused other
    exact ⟨hchain, congrArg List.length hchain, fun asked => by
      rw [LoadingSet.contains, hchain, LoadingSet.contains]⟩
  · have tended := (htended hlimit).enter (exact.limit ▸ hlimit) thread id
    rw [Bool.eq_iff_iff, tended.isIdle_iff, (htended hlimit).isIdle_iff]
    exact forall_congr' fun other => by rw [LoadingSet.chain_enter_of_error hrefused]
  · rintro rfl
    refine ⟨exact.held_zero, ?_⟩
    rw [(Exact.start 0).isIdle_run_zero]
    exact and_iff_right rfl

/-- With a limit of zero a thread that was refused keeps its place: nobody holds a guard, and the
set, idle before, is so no longer. -/
theorem refusal_without_room :
    let before := start 0
    let after := before.run [.enter 0 "a"]
    (before.set.enter 0 "a").2 = .error (.resolutionDepthExceeded "a" 0) ∧
      before.set.isIdle = true ∧ after.set.isIdle = false ∧
      ∀ thread, after.held thread = [] :=
  ⟨rfl, rfl, rfl, fun _ => rfl⟩

end Threads

end Wiring
