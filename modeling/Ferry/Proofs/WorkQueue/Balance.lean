import Ferry.Proofs.WorkQueue.Shared

/-!
What becomes of the items of a shared queue. Those that were accepted are those that were served
and those that still wait, each as often as it was accepted, and no more wait than may (`Balanced`).

`Outcome.balanced` proves it of one moment and `Shared.run_balanced` of every run.
-/
namespace Ferry.WorkQueue

variable {α : Type}

/-- The item that an answer accepts. -/
def Answer.accepted? : Answer α → Option α
  | .accepted a => some a
  | _ => none

/-- The item that an answer serves. -/
def Answer.served? : Answer α → Option α
  | .served a => some a
  | _ => none

/-- The items accepted, in the order of acceptance. -/
def acceptedItems (log : List (Answer α)) : List α := log.filterMap Answer.accepted?

/-- The items served, in the order of service. -/
def servedItems (log : List (Answer α)) : List α := log.filterMap Answer.served?

theorem acceptedItems_append (log log' : List (Answer α)) :
    acceptedItems (log ++ log') = acceptedItems log ++ acceptedItems log' := List.filterMap_append

theorem servedItems_append (log log' : List (Answer α)) :
    servedItems (log ++ log') = servedItems log ++ servedItems log' := List.filterMap_append

/-- The items that wait. -/
def items (q : WorkQueue α) : List α := q.heap.map Queued.item

theorem items_of_take? {q q' : WorkQueue α} {a : α} (first : q.take? = some (a, q')) :
    q.items.Perm (a :: q'.items) := by
  obtain ⟨e, rest, popped, rfl, rfl⟩ := exists_pop_of_take? first
  exact (Queued.pop_spec popped).1.map Queued.item

/-- The account of a queue of some capacity after some answers. -/
structure Balanced (capacity : Nat) (log : List (Answer α)) (q : WorkQueue α) : Prop where
  /-- What was accepted was served or waits: nothing is lost, and nothing there twice. -/
  items_perm : (acceptedItems log).Perm (servedItems log ++ q.items)
  size_eq : q.size = q.items.length
  capacity_eq : q.capacity = capacity
  snug : 0 < capacity → q.size ≤ capacity
  /-- Where any number of items may wait, nobody is refused one, or waits with one. -/
  roomy : capacity = 0 → ∀ answer ∈ log, answer ≠ .waitsForRoom ∧ ∀ a, answer ≠ .refused a

theorem balanced_empty (capacity : Nat) (ceiling : Int) :
    Balanced capacity ([] : List (Answer α)) (.empty capacity ceiling) :=
  ⟨.nil, rfl, rfl, fun _ => Nat.zero_le _, nofun⟩

section
variable {capacity : Nat} {log : List (Answer α)} {q q' : WorkQueue α}

theorem Balanced.lt_of_room (so : Balanced capacity log q) (room : q.isFull = false)
    (bounded : 0 < capacity) : q.size < capacity := by
  simp [isFull, so.capacity_eq] at room
  omega

theorem Balanced.bounded_of_full (so : Balanced capacity log q) (full : q.isFull = true) :
    capacity ≠ 0 := by
  simp [isFull, so.capacity_eq] at full
  omega

/-- An answer by which no item moves, and which tells nobody that there is no room unless there is
none. -/
theorem Balanced.still (so : Balanced capacity log q) {answer : Answer α}
    (accepts : answer.accepted? = none) (serves : answer.served? = none)
    (roomy : capacity = 0 → answer ≠ .waitsForRoom ∧ ∀ a, answer ≠ .refused a) :
    Balanced capacity (log ++ [answer]) q where
  items_perm := by
    rw [acceptedItems_append, servedItems_append]
    simpa [acceptedItems, servedItems, accepts, serves] using so.items_perm
  size_eq := so.size_eq
  capacity_eq := so.capacity_eq
  snug := so.snug
  roomy unbounded :=
    List.forall_mem_append.2 ⟨so.roomy unbounded, List.forall_mem_singleton.2 (roomy unbounded)⟩

theorem Balanced.accept [Prioritized α] (so : Balanced capacity log q) (room : q.isFull = false)
    (a : α) : Balanced capacity (log ++ [.accepted a]) (q.accept a) where
  items_perm := by
    rw [acceptedItems_append, servedItems_append]
    show (acceptedItems log ++ [a]).Perm ((servedItems log ++ []) ++ a :: q.items)
    rw [List.append_nil]
    exact (so.items_perm.append_right [a]).trans
      (by rw [List.append_assoc]; exact (List.perm_append_singleton a q.items).append_left _)
  size_eq := by rw [size_accept, so.size_eq]; rfl
  capacity_eq := so.capacity_eq
  snug bounded := so.lt_of_room room bounded
  roomy unbounded :=
    List.forall_mem_append.2 ⟨so.roomy unbounded, List.forall_mem_singleton.2 ⟨nofun, nofun⟩⟩

theorem Balanced.serve (so : Balanced capacity log q) {a : α} (first : q.take? = some (a, q')) :
    Balanced capacity (log ++ [.served a]) q' where
  items_perm := by
    rw [acceptedItems_append, servedItems_append]
    show (acceptedItems log ++ []).Perm ((servedItems log ++ [a]) ++ q'.items)
    rw [List.append_nil, List.append_assoc]
    exact so.items_perm.trans ((items_of_take? first).append_left _)
  size_eq := (List.length_map _).symm
  capacity_eq := (size_of_take? first).2.trans so.capacity_eq
  snug bounded := by
    have := (size_of_take? first).1
    have := so.snug bounded
    omega
  roomy unbounded :=
    List.forall_mem_append.2 ⟨so.roomy unbounded, List.forall_mem_singleton.2 ⟨nofun, nofun⟩⟩

/-- One moment keeps the account. -/
theorem Outcome.balanced [Prioritized α] {answer : Answer α} (outcome : Outcome q answer q')
    (so : Balanced capacity log q) : Balanced capacity (log ++ [answer]) q' := by
  cases outcome with
  | accepted a room => exact so.accept room a
  | served first => exact so.serve first
  | refused a full =>
    exact so.still rfl rfl fun unbounded => absurd unbounded (so.bounded_of_full full)
  | waitsForRoom full =>
    exact so.still rfl rfl fun unbounded => absurd unbounded (so.bounded_of_full full)
  | nothing _ => exact so.still rfl rfl fun _ => ⟨nofun, nofun⟩
  | waitsForItem _ => exact so.still rfl rfl fun _ => ⟨nofun, nofun⟩
  | idle => exact so.still rfl rfl fun _ => ⟨nofun, nofun⟩

end

/-- A whole run, by induction on its moments. -/
theorem Shared.run_balanced [Prioritized α] {capacity : Nat} (moments : List (Moment α)) :
    ∀ {s : Shared α} {log : List (Answer α)}, Balanced capacity log s.queue →
      Balanced capacity (log ++ (s.run moments).1) (s.run moments).2.queue := by
  induction moments with
  | nil =>
    intro s log so
    rw [run, List.append_nil]
    exact so
  | cons m moments ih =>
    intro s log so
    have next := ih ((s.step_outcome m).balanced so)
    rwa [List.append_assoc] at next

end Ferry.WorkQueue
