import Ferry.Proofs.WorkQueue.Call

/-!
Calls that fail. A put that is refused gives back its item, and neither it nor a take that gets
nothing leaves a trace: without the call the run goes on as it did, every other caller with the same
answers (`FailedCall.leaves_no_trace`).

The proof runs both at once. Nothing but an item accepted or served changes the queue, so the two
runs stay alike but for the caller that fails (`AlikeBut`), and are the same when its call is over.
-/
namespace Ferry.WorkQueue

variable {α : Type}

/-- The moments of all but one. -/
def othersOf (who : Nat) (moments : List (Moment α)) : List (Moment α) :=
  moments.filter fun m => m.who ≠ who

/-- What a record says of all but one. -/
def entriesOfOthers (who : Nat) (entries : List (Moment α × Answer α)) :
    List (Moment α × Answer α) :=
  entries.filter fun e => e.1.who ≠ who

/-- The answers that one gets. -/
def answersTo (who : Nat) (entries : List (Moment α × Answer α)) : List (Answer α) :=
  (entries.filter fun e => e.1.who = who).map Prod.snd

section
variable {who : Nat} {m : Moment α} {answer : Answer α} {entries : List (Moment α × Answer α)}

theorem answersTo_cons_own (own : m.who = who) :
    answersTo who ((m, answer) :: entries) = answer :: answersTo who entries := by
  simp [answersTo, own]

theorem answersTo_cons_other (other : m.who ≠ who) :
    answersTo who ((m, answer) :: entries) = answersTo who entries := by
  simp [answersTo, other]

theorem mem_answersTo (mem : (m, answer) ∈ entries) (own : m.who = who) :
    answer ∈ answersTo who entries :=
  List.mem_map.2 ⟨(m, answer), List.mem_filter.2 ⟨mem, by simpa using own⟩, rfl⟩

end

variable [Prioritized α]

/-- A call that fails: somebody who is free comes with it, and until it fails nothing has come of
it. -/
structure FailedCall (s : Shared α) (who : Nat) (call : Call α) (later : List (Moment α))
    (failure : Answer α) : Prop where
  free : s.waiting who = none
  fails : failure.isFailure = true
  answers : ∃ pending, answersTo who (s.record (.comes who call :: later)) = pending ++ [failure] ∧
    ∀ answer ∈ pending, answer.isPending = true

/-! One caller, from the answers that he gets. -/

namespace Shared
variable {who : Nat}

theorem waiting_run_of_answersTo_eq_nil (moments : List (Moment α)) : ∀ {s : Shared α},
    answersTo who (s.record moments) = [] → (s.run moments).2.waiting who = s.waiting who := by
  induction moments with
  | nil => exact fun _ => rfl
  | cons m moments ih =>
    intro s none_
    rw [record_cons] at none_
    by_cases own : m.who = who
    · rw [answersTo_cons_own own] at none_
      cases none_
    · rw [answersTo_cons_other own] at none_
      exact (ih none_).trans (step_waiting_of_ne s own)

/-- Whose last answer is a failure waits no more. -/
theorem waiting_run_of_failure {failure : Answer α} (fails : failure.isFailure = true)
    (moments : List (Moment α)) : ∀ {s : Shared α} {pending : List (Answer α)},
      answersTo who (s.record moments) = pending ++ [failure] →
        (s.run moments).2.waiting who = none := by
  induction moments with
  | nil =>
    intro s pending answers
    cases pending <;> cases answers
  | cons m moments ih =>
    intro s pending answers
    rw [record_cons] at answers
    by_cases own : m.who = who
    · rw [answersTo_cons_own own] at answers
      cases pending with
      | nil =>
        obtain ⟨rfl, no_more⟩ := List.cons.inj answers
        have free := step_waiting_of_isFailure fails
        rw [own] at free
        exact (waiting_run_of_answersTo_eq_nil moments no_more).trans free
      | cons first pending => exact ih (List.cons.inj answers).2
    · rw [answersTo_cons_other own] at answers
      exact ih answers

/-- Who waits with a call, and fails, gets back what he put. -/
theorem returned?_of_waits {call : Call α} {failure : Answer α} (fails : failure.isFailure = true)
    (moments : List (Moment α)) : ∀ {s : Shared α} {pending : List (Answer α)},
      s.waiting who = some call → answersTo who (s.record moments) = pending ++ [failure] →
        (∀ answer ∈ pending, answer.isPending = true) → failure.returned? = call.item? := by
  induction moments with
  | nil =>
    intro s pending _ answers
    cases pending <;> cases answers
  | cons m moments ih =>
    intro s pending waits answers patient
    rw [record_cons] at answers
    by_cases own : m.who = who
    · subst own
      rw [answersTo_cons_own rfl] at answers
      rcases callAt_of_waits waits with nobody | has
      · -- a moment that is nobody's does not end the call
        rw [step_of_callAt_eq_none nobody] at answers
        cases pending with
        | nil =>
          obtain ⟨rfl, _⟩ := List.cons.inj answers
          cases fails
        | cons first pending =>
          exact ih waits (List.cons.inj answers).2
            fun answer mem => patient answer (List.mem_cons_of_mem _ mem)
      · cases pending with
        | nil =>
          obtain ⟨rfl, _⟩ := List.cons.inj answers
          exact returned?_step has fails
        | cons first pending =>
          obtain ⟨rfl, answersLater⟩ := List.cons.inj answers
          exact ih (step_waiting_of_isPending has (patient _ List.mem_cons_self)) answersLater
            fun answer mem => patient answer (List.mem_cons_of_mem _ mem)
    · rw [answersTo_cons_other own] at answers
      exact ih ((step_waiting_of_ne s own).trans waits) answers patient

end Shared

namespace FailedCall
variable {s : Shared α} {who : Nat} {call : Call α} {later : List (Moment α)} {failure : Answer α}

theorem returned?_eq (failed : FailedCall s who call later failure) :
    failure.returned? = call.item? := by
  obtain ⟨free, fails, pending, answers, patient⟩ := failed
  have has : s.callAt (.comes who call) = some call := by simp [Shared.callAt, free]
  have own : (Moment.comes who call).who = who := rfl
  rw [Shared.record_cons, answersTo_cons_own own] at answers
  cases pending with
  | nil =>
    obtain ⟨rfl, _⟩ := List.cons.inj answers
    exact Shared.returned?_step has fails
  | cons first pending =>
    obtain ⟨rfl, answersLater⟩ := List.cons.inj answers
    exact Shared.returned?_of_waits fails later
      (Shared.step_waiting_of_isPending has (patient _ List.mem_cons_self)) answersLater
      fun answer mem => patient answer (List.mem_cons_of_mem _ mem)

theorem quiet (failed : FailedCall s who call later failure) :
    ∀ e ∈ s.record (.comes who call :: later), e.1.who = who → e.2.isQuiet = true := by
  obtain ⟨pending, answers, patient⟩ := failed.answers
  intro ⟨m, answer⟩ mem own
  have mem := mem_answersTo mem own
  rw [answers, List.mem_append, List.mem_singleton] at mem
  rcases mem with mem | rfl
  · rw [Answer.isQuiet, patient answer mem, Bool.true_or]
  · rw [Answer.isQuiet, failed.fails, Bool.or_true]

theorem waiting_eq_none (failed : FailedCall s who call later failure) :
    (s.run (.comes who call :: later)).2.waiting who = none := by
  obtain ⟨pending, answers, _⟩ := failed.answers
  exact Shared.waiting_run_of_failure failed.fails _ answers

end FailedCall

/-! Two shared queues that differ in one caller only go on like that, whatever the others do. -/

/-- The same queue, and the same callers who wait, but perhaps for one. -/
structure AlikeBut (who : Nat) (s t : Shared α) : Prop where
  queue_eq : s.queue = t.queue
  waiting_eq : ∀ n ≠ who, s.waiting n = t.waiting n

namespace AlikeBut
variable {who : Nat} {s t : Shared α} {m : Moment α}

omit [Prioritized α] in
theorem eq (alike : AlikeBut who s t) (same : s.waiting who = t.waiting who) : s = t := by
  obtain ⟨queue, waiting⟩ := s
  obtain ⟨queue', waiting'⟩ := t
  obtain ⟨rfl, waiting_eq⟩ := alike
  congr 1
  funext n
  by_cases h : n = who
  · rw [h]
    exact same
  · exact waiting_eq n h

/-- A moment of the one caller in the one run, by which no item moves. -/
theorem own (alike : AlikeBut who s t) (own : m.who = who) (quiet : (s.step m).1.isQuiet = true) :
    AlikeBut who (s.step m).2 t where
  queue_eq := ((s.step_outcome m).queue_eq quiet).trans alike.queue_eq
  waiting_eq n ne :=
    (s.step_waiting_of_ne fun h => ne (h.symm.trans own)).trans (alike.waiting_eq n ne)

theorem hold (alike : AlikeBut who s t) (n : Nat) (call now : Call α) :
    (s.hold n call now).1 = (t.hold n call now).1 ∧
      AlikeBut who (s.hold n call now).2 (t.hold n call now).2 := by
  have turned : s.queue.turn now = t.queue.turn now := by rw [alike.queue_eq]
  have left : ∀ u : Shared α, (u.hold n call now).2 = ⟨(u.queue.turn now).2, fun n' =>
      if n' = n then if (u.queue.turn now).1.isWait then some call else none
      else u.waiting n'⟩ := fun _ => rfl
  refine ⟨congrArg (fun turn => turn.1) turned, ?_, fun n' ne => ?_⟩
  · rw [left, left, turned]
  · simp only [left, turned, alike.waiting_eq n' ne]

/-- A moment of another caller in both runs. -/
theorem other (alike : AlikeBut who s t) (other : m.who ≠ who) :
    (s.step m).1 = (t.step m).1 ∧ AlikeBut who (s.step m).2 (t.step m).2 := by
  have same : s.callAt m = t.callAt m := by
    have := alike.waiting_eq m.who other
    cases m <;> simp_all [Shared.callAt, Moment.who]
  rw [Shared.step_eq, Shared.step_eq, same]
  split
  · exact ⟨rfl, alike⟩
  · exact alike.hold _ _ _

/-- Both runs, the second without the moments of the one caller, if in the first no item moves at
these. -/
theorem run (moments : List (Moment α)) : ∀ {s t : Shared α}, AlikeBut who s t →
    (∀ e ∈ s.record moments, e.1.who = who → e.2.isQuiet = true) →
      t.record (othersOf who moments) = entriesOfOthers who (s.record moments) ∧
        AlikeBut who (s.run moments).2 (t.run (othersOf who moments)).2 := by
  induction moments with
  | nil => exact fun alike _ => ⟨rfl, alike⟩
  | cons m moments ih =>
    intro s t alike quiet
    rw [Shared.record_cons] at quiet ⊢
    have quietLater := fun e mem => quiet e (List.mem_cons_of_mem _ mem)
    by_cases own : m.who = who
    · have skipped : othersOf who (m :: moments) = othersOf who moments := by
        simp [othersOf, own]
      have dropped : entriesOfOthers who ((m, (s.step m).1) :: (s.step m).2.record moments) =
          entriesOfOthers who ((s.step m).2.record moments) := by
        simp [entriesOfOthers, own]
      rw [skipped, dropped]
      exact ih (alike.own own (quiet _ List.mem_cons_self own)) quietLater
    · have kept : othersOf who (m :: moments) = m :: othersOf who moments := by
        simp [othersOf, own]
      have told : entriesOfOthers who ((m, (s.step m).1) :: (s.step m).2.record moments) =
          (m, (s.step m).1) :: entriesOfOthers who ((s.step m).2.record moments) := by
        simp [entriesOfOthers, own]
      obtain ⟨answer_eq, alike'⟩ := alike.other own
      obtain ⟨record_eq, left⟩ := ih alike' quietLater
      rw [kept, told, Shared.record_cons, record_eq, answer_eq]
      exact ⟨rfl, left⟩

end AlikeBut

/-- A stretch of a run between what was before and what comes after it could do without somebody:
without his moments all other answers are the same, there and afterwards, and so is what is left. -/
structure Dispensable (s : Shared α) (before stretch after : List (Moment α)) (who : Nat) :
    Prop where
  record_eq : ∃ first middle last, s.record (before ++ stretch ++ after) = first ++ middle ++ last ∧
    s.record (before ++ othersOf who stretch ++ after) =
      first ++ entriesOfOthers who middle ++ last ∧
    first.map Prod.fst = before ∧ middle.map Prod.fst = stretch ∧ last.map Prod.fst = after
  left_eq : (s.run (before ++ othersOf who stretch ++ after)).2 =
    (s.run (before ++ stretch ++ after)).2

namespace FailedCall
variable {s : Shared α} {who : Nat} {call : Call α} {later : List (Moment α)} {failure : Answer α}

/-- When the call is over nobody can tell that it ever was. -/
theorem run_others (failed : FailedCall s who call later failure) :
    s.record (othersOf who (.comes who call :: later)) =
        entriesOfOthers who (s.record (.comes who call :: later)) ∧
      (s.run (othersOf who (.comes who call :: later))).2 =
        (s.run (.comes who call :: later)).2 := by
  have alike : AlikeBut who s s := ⟨rfl, fun _ _ => rfl⟩
  obtain ⟨record_eq, alike'⟩ := alike.run (.comes who call :: later) failed.quiet
  have free : (s.run (othersOf who (.comes who call :: later))).2.waiting who = none := by
    refine (Shared.waiting_run_of_answersTo_eq_nil _ ?_).trans failed.free
    rw [record_eq]
    simp [answersTo, entriesOfOthers]
  exact ⟨record_eq, (alike'.eq (failed.waiting_eq_none.trans free.symm)).symm⟩

theorem leaves_no_trace {before : List (Moment α)}
    (failed : FailedCall (s.run before).2 who call later failure) (after : List (Moment α)) :
    Dispensable s before (.comes who call :: later) after who := by
  obtain ⟨record_eq, left_eq⟩ := failed.run_others
  refine ⟨⟨s.record before, (s.run before).2.record (.comes who call :: later),
    ((s.run before).2.run (.comes who call :: later)).2.record after, ?_, ?_,
    Shared.map_fst_record _ _, Shared.map_fst_record _ _, Shared.map_fst_record _ _⟩, ?_⟩
  · rw [Shared.record_append, Shared.record_append, Shared.run_append]
  · rw [Shared.record_append, Shared.record_append, Shared.run_append, record_eq, left_eq]
  · rw [Shared.run_append, Shared.run_append, Shared.run_append, Shared.run_append, left_eq]

end FailedCall

omit [Prioritized α] in
/-- Without one to whom nothing is served the same is served. -/
theorem servedItems_entriesOfOthers {who : Nat} {entries : List (Moment α × Answer α)}
    (quiet : ∀ e ∈ entries, e.1.who = who → e.2.isQuiet = true) :
    servedItems ((entriesOfOthers who entries).map Prod.snd) =
      servedItems (entries.map Prod.snd) := by
  induction entries with
  | nil => rfl
  | cons e entries ih =>
    have later := ih fun e' mem => quiet e' (List.mem_cons_of_mem e mem)
    by_cases own : e.1.who = who
    · have nothing := Answer.served?_of_isQuiet (quiet e List.mem_cons_self own)
      simp_all [entriesOfOthers, servedItems]
    · simp_all [entriesOfOthers, servedItems, List.filterMap_cons]

/-- An item that nobody puts but a call that fails is not served. -/
theorem FailedCall.not_mem_servedItems {capacity : Nat} {ceiling : Int}
    {before later after : List (Moment α)} {who : Nat} {call : Call α} {failure : Answer α} {a : α}
    (failed : FailedCall ((Shared.start capacity ceiling).run before).2 who call later failure)
    (alone : ∀ m ∈ before ++ othersOf who (.comes who call :: later) ++ after,
      m.item? ≠ some a) :
    a ∉ servedItems
      ((Shared.start capacity ceiling).run (before ++ .comes who call :: later ++ after)).1 := by
  obtain ⟨record_eq, left_eq⟩ := failed.run_others
  -- what is served is what is served without the call, and there the item was never accepted
  have same : servedItems ((Shared.start capacity ceiling).run
        (before ++ .comes who call :: later ++ after)).1 =
      servedItems ((Shared.start capacity ceiling).run
        (before ++ othersOf who (.comes who call :: later) ++ after)).1 := by
    rw [← Shared.map_snd_record, ← Shared.map_snd_record, Shared.record_append,
      Shared.record_append, Shared.run_append, Shared.record_append, Shared.record_append,
      Shared.run_append, record_eq, left_eq]
    simp only [List.map_append, servedItems_append, servedItems_entriesOfOthers failed.quiet]
  rw [same]
  intro served
  have balance := (Shared.run_balanced (before ++ othersOf who (.comes who call :: later) ++ after)
    (s := Shared.start capacity ceiling) (balanced_empty capacity ceiling)).items_perm
  have accepted := balance.mem_iff.2 (List.mem_append_left _ served)
  rw [List.nil_append] at accepted
  rcases Shared.put_of_mem_acceptedItems _ accepted with ⟨m, mem, puts⟩ | ⟨n, call, waits, _⟩
  · exact alone m mem puts
  · cases waits

/-- Whatever callers do at a shared queue, in whatever order: the account is kept, and a call that
fails gets its item back, if it put one, and leaves no trace. -/
theorem shared_queue_keeps_account (capacity : Nat) (ceiling : Int64)
    (moments : List (Moment α)) :
    Balanced capacity ((Shared.start capacity ceiling.toInt).run moments).1
      ((Shared.start capacity ceiling.toInt).run moments).2.queue ∧
    ∀ before later after who call failure, moments = before ++ .comes who call :: later ++ after →
      FailedCall ((Shared.start capacity ceiling.toInt).run before).2 who call later failure →
      failure.returned? = call.item? ∧
      Dispensable (Shared.start capacity ceiling.toInt) before (.comes who call :: later) after
        who ∧
      ∀ a, (∀ m ∈ before ++ othersOf who (.comes who call :: later) ++ after, m.item? ≠ some a) →
        a ∉ servedItems ((Shared.start capacity ceiling.toInt).run moments).1 := by
  constructor
  · exact Shared.run_balanced moments (s := Shared.start capacity ceiling.toInt)
      (balanced_empty capacity ceiling.toInt)
  · rintro before later after who call failure rfl failed
    exact ⟨failed.returned?_eq, failed.leaves_no_trace after,
      fun a alone => failed.not_mem_servedItems alone⟩

/-- A put that gives up after 20 ms, while another one is refused at once: it gets its item back,
and to the take that comes next it is as if it had never been there. That take is served the item
for which there was room. -/
theorem late_put_goes_unnoticed :
    FailedCall ((Shared.start 1 (20 : Int64).toInt).run [.comes 0 (.put .forever ⟨7⟩)]).2 1
      (.put (.upTo 20) (⟨8⟩ : Unhurried Nat)) [.comes 2 (.put .none ⟨9⟩), .looks 1, .expires 1]
      (.refused ⟨8⟩) ∧
    Dispensable (Shared.start 1 (20 : Int64).toInt) [.comes 0 (.put .forever ⟨7⟩)]
      [.comes 1 (.put (.upTo 20) (⟨8⟩ : Unhurried Nat)), .comes 2 (.put .none ⟨9⟩), .looks 1,
        .expires 1] [.comes 0 (.take .none)] 1 ∧
    servedItems ((Shared.start 1 (20 : Int64).toInt).run [.comes 0 (.put .forever ⟨7⟩),
      .comes 1 (.put (.upTo 20) (⟨8⟩ : Unhurried Nat)), .comes 2 (.put .none ⟨9⟩), .looks 1,
        .expires 1, .comes 0 (.take .none)]).1 = [⟨7⟩] := by
  have failed : FailedCall ((Shared.start 1 (20 : Int64).toInt).run
      [.comes 0 (.put .forever ⟨7⟩)]).2 1 (.put (.upTo 20) (⟨8⟩ : Unhurried Nat))
      [.comes 2 (.put .none ⟨9⟩), .looks 1, .expires 1] (.refused ⟨8⟩) := by
    refine ⟨rfl, rfl, [.waitsForRoom, .waitsForRoom], rfl, ?_⟩
    simp [Answer.isPending]
  exact ⟨failed, ((shared_queue_keeps_account 1 20 _).2 _ _ _ _ _ _ rfl failed).2.1, rfl⟩

end Ferry.WorkQueue
