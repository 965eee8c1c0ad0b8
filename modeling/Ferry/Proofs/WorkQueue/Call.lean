import Ferry.Proofs.WorkQueue.Balance

/-!
The calls behind the moments of a shared queue. A moment is nobody's, or that of a call with which
somebody holds the queue (`Shared.step_eq`): one that he waits with already, or comes with.

What a moment says of its call is proved of one turn and carried over to the moment: a call goes on
as long as nothing has come of it, and gets its item back when it fails.
-/
namespace Ferry.WorkQueue

variable {α : Type}

/-- The item that a call puts. -/
def Call.item? : Call α → Option α
  | .put _ a => some a
  | .take _ => none

namespace Moment

/-- Who does something. -/
def who : Moment α → Nat
  | .comes n _ | .looks n | .expires n => n

/-- The item that somebody comes with. -/
def item? : Moment α → Option α
  | .comes _ call => call.item?
  | _ => none

/-- What counts of a call at a moment. -/
def now : Moment α → Call α → Call α
  | .comes _ _, call | .looks _, call => call.inTime
  | .expires _, call => call

theorem item?_now (m : Moment α) (call : Call α) : (m.now call).item? = call.item? := by
  have inTime : call.inTime.item? = call.item? := by
    cases call with
    | put patience _ => cases patience <;> rfl
    | take patience => cases patience <;> rfl
  cases m with
  | comes _ _ => exact inTime
  | looks _ => exact inTime
  | expires _ => rfl

end Moment

namespace Answer
variable {answer : Answer α}

/-- Whether a call ends without success. -/
def isFailure : Answer α → Bool
  | .refused _ | .nothing => true
  | _ => false

/-- The item that is given back. -/
def returned? : Answer α → Option α
  | .refused a => some a
  | _ => none

/-- Whether nothing has come of a call yet. -/
def isPending : Answer α → Bool
  | .waitsForRoom | .waitsForItem | .idle => true
  | _ => false

/-- Whether no item moves. -/
def isQuiet (answer : Answer α) : Bool := answer.isPending || answer.isFailure

theorem isWait_of_isFailure (fails : answer.isFailure = true) : answer.isWait = false := by
  cases answer <;> first | rfl | cases fails

theorem served?_of_isQuiet (quiet : answer.isQuiet = true) : answer.served? = none := by
  cases answer <;> first | rfl | cases quiet

end Answer

theorem Outcome.queue_eq [Prioritized α] {q q' : WorkQueue α} {answer : Answer α}
    (outcome : Outcome q answer q') (quiet : answer.isQuiet = true) : q' = q := by
  cases outcome <;> first | rfl | cases quiet

/-! What a single turn says of the call that has it. -/

section
variable [Prioritized α] {q : WorkQueue α} {call : Call α}

/-- A turn that leaves a call pending makes it wait. -/
theorem isWait_turn (pending : (q.turn call).1.isPending = true) :
    (q.turn call).1.isWait = true := by
  cases call with
  | put patience a =>
    simp only [turn] at pending ⊢
    split <;> simp_all [Answer.isPending, Answer.isWait]
  | take patience =>
    simp only [turn] at pending ⊢
    split <;> simp_all [Answer.isPending, Answer.isWait]

theorem item?_of_turn {a : α} (accepted : (q.turn call).1 = .accepted a) :
    call.item? = some a := by
  cases call with
  | put patience b =>
    simp only [turn] at accepted
    split at accepted <;> cases accepted
    rfl
  | take patience =>
    simp only [turn] at accepted
    split at accepted <;> cases accepted

/-- A put that fails gets its item back, and a take that fails has none to get. -/
theorem returned?_turn (fails : (q.turn call).1.isFailure = true) :
    (q.turn call).1.returned? = call.item? := by
  cases call with
  | put patience a =>
    cases full : q.isFull with
    | false => simp [turn_put_of_room full, Answer.isFailure] at fails
    | true =>
      cases patience <;>
        simp_all [turn, putWith, put, Answer.isFailure, Answer.returned?, Call.item?]
  | take patience =>
    cases first : q.take? <;> cases patience <;>
      simp_all [turn, takeWith, Answer.isFailure, Answer.returned?, Call.item?]

end

namespace Shared

/-- The call with which somebody holds the queue at a moment. -/
def callAt (s : Shared α) : Moment α → Option (Call α)
  | .comes who call => if (s.waiting who).isNone then some call else none
  | .looks who | .expires who => s.waiting who

section
variable {s : Shared α} {m : Moment α} {call : Call α}

/-- Who waits can hold the queue with the call that he waits with only. -/
theorem callAt_of_waits (waits : s.waiting m.who = some call) :
    s.callAt m = none ∨ s.callAt m = some call := by
  cases m with
  | comes who call' =>
    have busy : s.waiting who = some call := waits
    exact .inl (by simp [callAt, busy])
  | looks who => exact .inr waits
  | expires who => exact .inr waits

/-- The call of a moment is one that somebody waits with, or comes with. -/
theorem waits_or_comes_of_callAt (has : s.callAt m = some call) :
    s.waiting m.who = some call ∨ m.item? = call.item? := by
  cases m with
  | comes who call' =>
    simp only [callAt] at has
    split at has <;> cases has
    exact .inr rfl
  | looks who => exact .inl has
  | expires who => exact .inl has

variable [Prioritized α]

/-- A moment is nobody's, or that of a call, which counts as it does at that moment. -/
theorem step_eq (s : Shared α) (m : Moment α) :
    s.step m = match s.callAt m with
      | none => (.idle, s)
      | some call => s.hold m.who call (m.now call) := by
  cases m with
  | comes who call =>
    cases waits : s.waiting who <;> simp [step, callAt, waits, Moment.now, Moment.who]
  | looks who => cases waits : s.waiting who <;> simp [step, callAt, waits, Moment.now, Moment.who]
  | expires who =>
    cases waits : s.waiting who <;> simp [step, callAt, waits, Moment.now, Moment.who]

theorem step_of_callAt_eq_none (nobody : s.callAt m = none) : s.step m = (.idle, s) := by
  rw [step_eq, nobody]

theorem step_of_callAt_eq_some (has : s.callAt m = some call) :
    s.step m = s.hold m.who call (m.now call) := by
  rw [step_eq, has]

theorem hold_waiting_self (s : Shared α) (who : Nat) (call now : Call α) :
    (s.hold who call now).2.waiting who =
      if (s.hold who call now).1.isWait then some call else none := if_pos rfl

/-- A moment concerns nobody's waiting but that of the one who does something. -/
theorem step_waiting_of_ne (s : Shared α) {n : Nat} (other : m.who ≠ n) :
    (s.step m).2.waiting n = s.waiting n := by
  rw [step_eq]
  split
  · rfl
  · exact if_neg (Ne.symm other)

/-- As long as nothing has come of a call, it goes on. -/
theorem step_waiting_of_isPending (has : s.callAt m = some call)
    (pending : (s.step m).1.isPending = true) : (s.step m).2.waiting m.who = some call := by
  rw [step_of_callAt_eq_some has] at pending ⊢
  rw [hold_waiting_self]
  exact if_pos (isWait_turn (q := s.queue) pending)

/-- Who fails has nothing to wait for. -/
theorem step_waiting_of_isFailure (fails : (s.step m).1.isFailure = true) :
    (s.step m).2.waiting m.who = none := by
  rw [step_eq] at fails ⊢
  split at fails
  · cases fails
  · rw [hold_waiting_self, Answer.isWait_of_isFailure fails]
    rfl

/-- Who fails gets back what he put. -/
theorem returned?_step (has : s.callAt m = some call) (fails : (s.step m).1.isFailure = true) :
    (s.step m).1.returned? = call.item? := by
  rw [step_of_callAt_eq_some has] at fails ⊢
  rw [← m.item?_now]
  exact returned?_turn (q := s.queue) fails

/-- What is accepted was put by the call of the moment. -/
theorem callAt_of_step_accepted {a : α} (accepted : (s.step m).1 = .accepted a) :
    ∃ call, s.callAt m = some call ∧ call.item? = some a := by
  rw [step_eq] at accepted
  split at accepted
  · cases accepted
  · rename_i call has
    exact ⟨call, has, (m.item?_now call).symm.trans (item?_of_turn (q := s.queue) accepted)⟩

/-- Nobody waits with an item that he has not come with. -/
theorem waits_or_comes_of_step {n : Nat} (waits : (s.step m).2.waiting n = some call) :
    s.waiting n = some call ∨ m.item? = call.item? := by
  by_cases own : m.who = n
  · subst own
    rw [step_eq] at waits
    split at waits
    · exact .inl waits
    · rename_i call' has
      rw [hold_waiting_self] at waits
      split at waits <;> cases waits
      exact waits_or_comes_of_callAt has
  · rw [step_waiting_of_ne s own] at waits
    exact .inl waits

end

/-! Runs with what is answered at each of their moments. -/

variable [Prioritized α]

/-- A run with what is answered at each of its moments. -/
def record (s : Shared α) (moments : List (Moment α)) : List (Moment α × Answer α) :=
  moments.zip (s.run moments).1

theorem record_cons (s : Shared α) (m : Moment α) (moments : List (Moment α)) :
    s.record (m :: moments) = (m, (s.step m).1) :: (s.step m).2.record moments := rfl

theorem run_append (moments moments' : List (Moment α)) : ∀ s : Shared α,
    (s.run (moments ++ moments')).2 = ((s.run moments).2.run moments').2 := by
  induction moments with
  | nil => exact fun _ => rfl
  | cons m moments ih => exact fun s => ih (s.step m).2

theorem record_append (moments moments' : List (Moment α)) : ∀ s : Shared α,
    s.record (moments ++ moments') = s.record moments ++ (s.run moments).2.record moments' := by
  induction moments with
  | nil => exact fun _ => rfl
  | cons m moments ih =>
    intro s
    rw [List.cons_append, record_cons, record_cons, ih (s.step m).2]
    rfl

theorem map_fst_record (moments : List (Moment α)) : ∀ s : Shared α,
    (s.record moments).map Prod.fst = moments := by
  induction moments with
  | nil => exact fun _ => rfl
  | cons m moments ih => exact fun s => congrArg (m :: ·) (ih (s.step m).2)

theorem map_snd_record (moments : List (Moment α)) : ∀ s : Shared α,
    (s.record moments).map Prod.snd = (s.run moments).1 := by
  induction moments with
  | nil => exact fun _ => rfl
  | cons m moments ih => exact fun s => congrArg ((s.step m).1 :: ·) (ih (s.step m).2)

/-- An item that was accepted in a run was put in it, or by somebody who waited before. -/
theorem put_of_mem_acceptedItems {a : α} (moments : List (Moment α)) : ∀ {s : Shared α},
    a ∈ acceptedItems (s.run moments).1 → (∃ m ∈ moments, m.item? = some a) ∨
      ∃ n call, s.waiting n = some call ∧ call.item? = some a := by
  induction moments with
  | nil => nofun
  | cons m moments ih =>
    intro s mem
    have split : (s.step m).1.accepted? = some a ∨
        a ∈ acceptedItems ((s.step m).2.run moments).1 := by
      have : (s.run (m :: moments)).1 = [(s.step m).1] ++ ((s.step m).2.run moments).1 := rfl
      rw [this, acceptedItems_append, List.mem_append] at mem
      simpa [acceptedItems] using mem
    have seen : ∀ {n call}, s.waiting n = some call ∨ m.item? = call.item? →
        call.item? = some a → (∃ m' ∈ m :: moments, m'.item? = some a) ∨
          ∃ n call, s.waiting n = some call ∧ call.item? = some a := by
      rintro n call (waits | comes) puts
      · exact .inr ⟨n, call, waits, puts⟩
      · exact .inl ⟨m, List.mem_cons_self, comes.trans puts⟩
    rcases split with now | later
    · have accepted : (s.step m).1 = .accepted a := by
        cases answer : (s.step m).1 <;> rw [answer] at now <;> cases now
        rfl
      obtain ⟨call, has, puts⟩ := callAt_of_step_accepted accepted
      exact seen (waits_or_comes_of_callAt has) puts
    · rcases ih later with ⟨m', mem', puts⟩ | ⟨n, call, waits, puts⟩
      · exact .inl ⟨m', List.mem_cons_of_mem m mem', puts⟩
      · exact seen (waits_or_comes_of_step waits) puts

end Shared
end Ferry.WorkQueue
