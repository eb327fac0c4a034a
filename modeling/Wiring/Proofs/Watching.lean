import Wiring.Proofs.Steps

/-!
# Calls that are watched

A watcher sees every call of a run, nested ones too, with its answer and with a book of the
constructions that are in progress; it may then let the answer pass or put another in its place. The
book is kept apart from the world: a construction is entered in it when it begins, and only for the
calls that are made meanwhile. So what the book says does not depend on what containers keep.

Something holds throughout a run if a watcher that raises an alarm where it does not hold, whatever
the alarm, changes nothing. Alarms that end the run cannot be ignored by user code.
-/

namespace Wiring

/-- Constructions, from the outermost to the innermost. -/
abbrev Book := List (ContainerRef × String)

/-- What the book says of one container. -/
def Book.ids (book : Book) (c : ContainerRef) : List String :=
  book.filterMap fun entry => if entry.1 = c then some entry.2 else none

theorem Book.ids_append_self (book : Book) (c : ContainerRef) (id : String) :
    (book ++ [(c, id)]).ids c = book.ids c ++ [id] := by
  simp [ids, List.filterMap_append]

theorem Book.ids_append_other (book : Book) {c d : ContainerRef} (hother : d ≠ c) (id : String) :
    (book ++ [(c, id)]).ids d = book.ids d := by
  simp [ids, List.filterMap_append, hother.symm]

abbrev Answer := Except Halt Value × World

abbrev Watcher := Book → Call → World → Answer → Answer

namespace Call

/-- The call, with each answer on the way handed to the watcher. -/
def attended (watcher : Watcher) : Nat → Book → Caller
  | 0, _, _ => throw .unfinished
  | depth + 1, book, call => fun world =>
      watcher book call world
        (step (attended watcher depth (book ++ (world.opens call).toList)) call world)

open Classical in
/-- The call, with an alarm where an answer is not allowed. -/
noncomputable def watched (allows : Book → Call → World → Answer → Prop) (alarm : Run Value) :
    Nat → Book → Caller :=
  attended fun book call world answer =>
    if allows book call world answer then answer else alarm world

variable {watcher : Watcher} {world : World} {call : Call} {book : Book}

theorem attended_succ (watcher : Watcher) (depth : Nat) (book : Book) (call : Call) (world : World) :
    attended watcher (depth + 1) book call world =
      watcher book call world
        (step (attended watcher depth (book ++ (world.opens call).toList)) call world) := rfl

/-- Where no construction begins the book stays as it is. -/
theorem attended_plain (hopens : world.opens call = none) (depth : Nat) :
    attended watcher (depth + 1) book call world =
      watcher book call world (step (attended watcher depth book) call world) := by
  rw [attended_succ, hopens, Option.toList_none, List.append_nil]

theorem attended_opening {entry : ContainerRef × String} (hopens : world.opens call = some entry)
    (depth : Nat) :
    attended watcher (depth + 1) book call world =
      watcher book call world (step (attended watcher depth (book ++ [entry])) call world) := by
  rw [attended_succ, hopens, Option.toList_some]

variable {allows : Book → Call → World → Answer → Prop} {alarm : Run Value} {answer : Answer}

theorem watched_eq (depth : Nat) (hstep : step (watched allows alarm depth
      (book ++ (world.opens call).toList)) call world = answer)
    (hallows : allows book call world answer) :
    watched allows alarm (depth + 1) book call world = answer := by
  rw [watched, attended_succ, ← watched, hstep]
  exact if_pos hallows

theorem watched_alarm (depth : Nat) (hstep : step (watched allows alarm depth
      (book ++ (world.opens call).toList)) call world = answer)
    (hforbidden : ¬ allows book call world answer) :
    watched allows alarm (depth + 1) book call world = alarm world := by
  rw [watched, attended_succ, ← watched, hstep]
  exact if_neg hforbidden

/-- The call, with an alarm where something happens. -/
noncomputable def alarmed (happens : Book → Call → World → Answer → Prop) (alarm : Run Value) :
    Nat → Book → Caller :=
  watched (fun book call world answer => ¬ happens book call world answer) alarm

variable {happens : Book → Call → World → Answer → Prop}

theorem alarmed_eq (depth : Nat) (hstep : step (alarmed happens alarm depth
      (book ++ (world.opens call).toList)) call world = answer)
    (hquiet : ¬ happens book call world answer) :
    alarmed happens alarm (depth + 1) book call world = answer :=
  watched_eq depth hstep hquiet

theorem alarmed_alarm (depth : Nat) (hstep : step (alarmed happens alarm depth
      (book ++ (world.opens call).toList)) call world = answer)
    (hhappens : happens book call world answer) :
    alarmed happens alarm (depth + 1) book call world = alarm world :=
  watched_alarm depth hstep (not_not_intro hhappens)

end Call

namespace Request

/-- Every call on the way is allowed. -/
def Throughout (request : Request) (depth : Nat)
    (allows : Book → Call → World → Answer → Prop) (world : World) : Prop :=
  ∀ alarm : Run Value, request.perform (Call.watched allows alarm depth []) world =
    request.perform (Call.run depth) world

/-- Some call on the way is like that: there is an alarm for it that makes a difference. -/
def Sometimes (request : Request) (depth : Nat)
    (happens : Book → Call → World → Answer → Prop) (world : World) : Prop :=
  ∃ alarm : Run Value, request.perform (Call.alarmed happens alarm depth []) world ≠
    request.perform (Call.run depth) world

end Request

end Wiring
