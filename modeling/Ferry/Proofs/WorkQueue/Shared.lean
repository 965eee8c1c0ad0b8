import Ferry.WorkQueue

/-!
A work queue that several callers share. One caller at a time holds the queue, so that whatever
happens is a sequence of moments at which somebody does. A caller who finds no room, or no item,
and has time left waits and looks again at later moments, whether woken or not; once its time is
over it looks a last time.

`turn_outcome` says once what a moment can come to. `run_putWaiting` finds the put that waits for
one take among these runs.
-/
namespace Ferry.WorkQueue

variable {α : Type}

/-- What a caller wants of a queue, and how long it is ready to wait. -/
inductive Call (α : Type)
  | put (patience : Patience) (a : α)
  | take (patience : Patience)

/-- What counts of a call before its time is over: a limit is still ahead. -/
def Call.inTime : Call α → Call α
  | .put .none a => .put .none a
  | .put _ a => .put .forever a
  | .take .none => .take .none
  | .take _ => .take .forever

/-- What a moment comes to. -/
inductive Answer (α : Type)
  | accepted (a : α)
  | refused (a : α)
  | served (a : α)
  | nothing
  | waitsForRoom
  | waitsForItem
  /-- There was nobody to hold the queue. -/
  | idle

/-- Whether the caller goes on waiting. -/
def Answer.isWait : Answer α → Bool
  | .waitsForRoom | .waitsForItem => true
  | _ => false

section
variable [Prioritized α]

/-- A call that holds the queue: its answer, and the queue afterwards. -/
def turn (q : WorkQueue α) : Call α → Answer α × WorkQueue α
  | .put patience a =>
    match q.putWith patience a with
    | .accepted q' => (.accepted a, q')
    | .waits => (.waitsForRoom, q)
    | .refused reason => (.refused reason.item, q)
  | .take patience =>
    match q.takeWith patience with
    | .served a q' => (.served a, q')
    | .waits => (.waitsForItem, q)
    | .nothing => (.nothing, q)

/-- All that a moment can come to, with what has to hold for it. -/
inductive Outcome (q : WorkQueue α) : Answer α → WorkQueue α → Prop
  | accepted (a : α) (room : q.isFull = false) : Outcome q (.accepted a) (q.accept a)
  | refused (a : α) (full : q.isFull = true) : Outcome q (.refused a) q
  | waitsForRoom (full : q.isFull = true) : Outcome q .waitsForRoom q
  | served {a : α} {q' : WorkQueue α} (first : q.take? = some (a, q')) : Outcome q (.served a) q'
  | nothing (empty : q.take? = none) : Outcome q .nothing q
  | waitsForItem (empty : q.take? = none) : Outcome q .waitsForItem q
  | idle : Outcome q .idle q

theorem turn_put_of_room {q : WorkQueue α} (room : q.isFull = false) (patience : Patience) (a : α) :
    q.turn (.put patience a) = (.accepted a, q.accept a) := by
  simp [turn, putWith, put, room]

theorem turn_take_of_some {q q' : WorkQueue α} {a : α} (first : q.take? = some (a, q'))
    (patience : Patience) : q.turn (.take patience) = (.served a, q') := by
  simp [turn, takeWith, first]

theorem turn_outcome (q : WorkQueue α) (call : Call α) :
    Outcome q (q.turn call).1 (q.turn call).2 := by
  cases call with
  | put patience a =>
    cases full : q.isFull with
    | false => rw [turn_put_of_room full]; exact .accepted a full
    | true =>
      cases patience with
      | forever => simpa [turn, putWith, put, full] using Outcome.waitsForRoom full
      | upTo _ => simpa [turn, putWith, put, full] using Outcome.refused a full
      | none => simpa [turn, putWith, put, full] using Outcome.refused a full
  | take patience =>
    cases first : q.take? with
    | some r => rw [turn_take_of_some first]; exact .served first
    | none =>
      cases patience with
      | forever => simpa [turn, takeWith, first] using Outcome.waitsForItem first
      | upTo _ => simpa [turn, takeWith, first] using Outcome.nothing first
      | none => simpa [turn, takeWith, first] using Outcome.nothing first

end

/-- A moment at a shared queue. -/
inductive Moment (α : Type)
  /-- Somebody comes with a call. -/
  | comes (who : Nat) (call : Call α)
  /-- Somebody who waits looks again. -/
  | looks (who : Nat)
  /-- The time of somebody who waits is over. -/
  | expires (who : Nat)

/-- A shared queue: the queue, and who waits with which call. -/
structure Shared (α : Type) where
  queue : WorkQueue α
  waiting : Nat → Option (Call α)

namespace Shared

/-- A queue without items, and nobody there. -/
def start (capacity : Nat) (ceiling : Int) : Shared α := ⟨.empty capacity ceiling, fun _ => none⟩

/-- Where somebody does not wait, it makes no difference to say so. -/
theorem waiting_of_free {waiting : Nat → Option (Call α)} {who : Nat} (free : waiting who = none) :
    (fun n => if n = who then none else waiting n) = waiting := by
  funext n
  by_cases h : n = who
  · rw [if_pos h, h, free]
  · rw [if_neg h]

variable [Prioritized α]

/-- Somebody holds the queue with a call, of which `now` is what counts at this moment. -/
def hold (s : Shared α) (who : Nat) (call now : Call α) : Answer α × Shared α :=
  let (answer, queue) := s.queue.turn now
  let left := if answer.isWait then some call else none
  (answer, ⟨queue, fun n => if n = who then left else s.waiting n⟩)

/-- One moment. Who waits can do nothing else, and who does not wait has nothing to look for. -/
def step (s : Shared α) : Moment α → Answer α × Shared α
  | .comes who call =>
    match s.waiting who with
    | none => s.hold who call call.inTime
    | some _ => (.idle, s)
  | .looks who =>
    match s.waiting who with
    | some call => s.hold who call call.inTime
    | none => (.idle, s)
  | .expires who =>
    match s.waiting who with
    | some call => s.hold who call call
    | none => (.idle, s)

/-- Moments one after another, with their answers. -/
def run (s : Shared α) : List (Moment α) → List (Answer α) × Shared α
  | [] => ([], s)
  | m :: moments =>
    let (answer, s') := s.step m
    let (answers, s'') := s'.run moments
    (answer :: answers, s'')

theorem run_cons (s : Shared α) (m : Moment α) (moments : List (Moment α)) :
    s.run (m :: moments) =
      ((s.step m).1 :: ((s.step m).2.run moments).1, ((s.step m).2.run moments).2) := rfl

theorem hold_outcome (s : Shared α) (who : Nat) (call now : Call α) :
    Outcome s.queue (s.hold who call now).1 (s.hold who call now).2.queue :=
  turn_outcome s.queue now

/-- Whoever comes, looks or gives up: the queue changes as a turn changes it, or not at all. -/
theorem step_outcome (s : Shared α) (m : Moment α) :
    Outcome s.queue (s.step m).1 (s.step m).2.queue := by
  cases m with
  | comes who call =>
    simp only [step]
    split
    · exact hold_outcome s who call call.inTime
    · exact .idle
  | looks who =>
    simp only [step]
    split
    · exact hold_outcome s who _ _
    · exact .idle
  | expires who =>
    simp only [step]
    split
    · exact hold_outcome s who _ _
    · exact .idle

/-- A put that comes while there is room is accepted, whatever its patience. -/
theorem step_comes_put {s : Shared α} {who : Nat} (free : s.waiting who = none)
    (room : s.queue.isFull = false) (patience : Patience) (a : α) :
    s.step (.comes who (.put patience a)) = (.accepted a, ⟨s.queue.accept a, s.waiting⟩) := by
  have turned : s.queue.turn (Call.put patience a).inTime = (.accepted a, s.queue.accept a) := by
    cases patience <;> exact turn_put_of_room room _ a
  simp only [step, free, hold, turned, Answer.isWait, Bool.false_eq_true, if_false,
    waiting_of_free free]

/-- A take that comes while items wait is served, whatever its patience. -/
theorem step_comes_take {s : Shared α} {other : Nat} {a : α} {q : WorkQueue α}
    (free : s.waiting other = none) (first : s.queue.take? = some (a, q)) (patience : Patience) :
    s.step (.comes other (.take patience)) = (.served a, ⟨q, s.waiting⟩) := by
  have turned : s.queue.turn (Call.take patience).inTime = (.served a, q) := by
    cases patience <;> exact turn_take_of_some first _
  simp only [step, free, hold, turned, Answer.isWait, Bool.false_eq_true, if_false,
    waiting_of_free free]

/-- A put that waits is accepted when it looks and finds room, whatever its patience. -/
theorem step_looks_put {s : Shared α} {who : Nat} {patience : Patience} {a : α}
    (waits : s.waiting who = some (.put patience a)) (room : s.queue.isFull = false) :
    s.step (.looks who) =
      (.accepted a, ⟨s.queue.accept a, fun n => if n = who then none else s.waiting n⟩) := by
  have turned : s.queue.turn (Call.put patience a).inTime = (.accepted a, s.queue.accept a) := by
    cases patience <;> exact turn_put_of_room room _ a
  simp only [step, waits, hold, turned, Answer.isWait, Bool.false_eq_true, if_false]

end Shared

theorem size_of_take? {q q' : WorkQueue α} {a : α} (first : q.take? = some (a, q')) :
    q.size = q'.size + 1 ∧ q'.capacity = q.capacity := by
  obtain ⟨e, rest, popped, rfl, rfl⟩ := exists_pop_of_take? first
  exact ⟨(Queued.pop_spec popped).1.length_eq, rfl⟩

/-- A full queue that holds no more than it may gets room by one take. -/
theorem isFull_of_take? {q q' : WorkQueue α} {a : α} (snug : q.size ≤ q.capacity)
    (first : q.take? = some (a, q')) : q'.isFull = false := by
  obtain ⟨shorter, same⟩ := size_of_take? first
  have : ¬ q'.capacity ≤ q'.size := by omega
  simp [isFull, this]

/-- A put that waits while one item is taken: what it answers and leaves is what two moments come
to, the take of another caller and the next look of the one who waits. -/
theorem run_putWaiting [Prioritized α] {s : Shared α} {who other : Nat} {patience : Patience}
    {a : α} (waits : s.waiting who = some (.put patience a)) (free : s.waiting other = none)
    (full : s.queue.isFull = true) (snug : s.queue.size ≤ s.queue.capacity) (p : Patience) :
    ∃ b, (s.queue.putWaiting a).1 = some b ∧
      (s.run [.comes other (.take p), .looks who]).1 = [.served b, .accepted a] ∧
      (s.run [.comes other (.take p), .looks who]).2.queue = (s.queue.putWaiting a).2 := by
  cases first : s.queue.take? with
  | none =>
    have : s.queue.size = 0 := take?_eq_none_iff.1 first
    simp [isFull, this] at full
    omega
  | some r =>
    obtain ⟨b, q⟩ := r
    have room : q.isFull = false := isFull_of_take? snug first
    refine ⟨b, by simp [putWaiting, full, first], ?_⟩
    simp only [Shared.run, Shared.step_comes_take free first p,
      Shared.step_looks_put (s := ⟨q, s.waiting⟩) waits room, putWaiting, full, first, if_true,
      and_self]

end Ferry.WorkQueue
