/-!
A bounded queue of work, served by priority and within one priority in the order of acceptance.
Priorities count from 0, the most urgent, to a ceiling; anything outside is moved to the nearer end.
The waiting items are numbered in the order of acceptance and lie in a heap, from which the greatest
is taken: their order is reversed, so that the greatest is the one to be served next.
-/
namespace Ferry

/-- Work that comes with a priority of its own; smaller is more urgent. -/
class Prioritized (α : Type) where
  priority : α → Int

/-- The priority of work that states none: the largest signed 64-bit number. -/
def lowestPriority : Int := Int64.maxValue.toInt

/-- Work without a priority of its own. -/
structure Unhurried (α : Type) where
  work : α
deriving DecidableEq, Repr

instance {α : Type} : Prioritized (Unhurried α) := ⟨fun _ => lowestPriority⟩

/-- A waiting item, with the priority under which it was accepted and its number in the order of
acceptance. -/
structure Queued (α : Type) where
  priority : Int
  sequence : Nat
  item : α
deriving Repr

namespace Queued

variable {α : Type}

/-- The order of waiting items, reversed: the least priority is the greatest, and of one priority
the least number. -/
def cmp (e f : Queued α) : Ordering :=
  (compare f.priority e.priority).then (compare f.sequence e.sequence)

theorem cmp_eq_lt_iff {e f : Queued α} :
    e.cmp f = .lt ↔
      f.priority < e.priority ∨ f.priority = e.priority ∧ f.sequence < e.sequence := by
  rw [cmp, Ordering.then_eq_lt, Int.compare_eq_lt, Std.LawfulEqCmp.compare_eq_iff_eq,
    Nat.compare_eq_lt]

theorem cmp_ne_lt_iff {e f : Queued α} :
    e.cmp f ≠ .lt ↔
      e.priority < f.priority ∨ e.priority = f.priority ∧ e.sequence ≤ f.sequence := by
  rw [Ne, cmp_eq_lt_iff]
  omega

/-- Takes the greatest item out of a heap. -/
def pop : List (Queued α) → Option (Queued α × List (Queued α))
  | [] => none
  | e :: es =>
    match pop es with
    | none => some (e, [])
    | some (f, rest) => if e.cmp f = .lt then some (f, e :: rest) else some (e, es)

theorem pop_eq_none_iff {heap : List (Queued α)} : pop heap = none ↔ heap = [] := by
  cases heap with
  | nil => exact ⟨fun _ => rfl, fun _ => rfl⟩
  | cons e es =>
    simp only [pop]
    split
    · simp
    · split <;> simp

/-- Nothing is lost by taking an item out, and no item left behind is greater. -/
theorem pop_spec {heap : List (Queued α)} :
    ∀ {e : Queued α} {rest : List (Queued α)}, pop heap = some (e, rest) →
      heap.Perm (e :: rest) ∧ ∀ f ∈ rest, e.cmp f ≠ .lt := by
  induction heap with
  | nil => exact nofun
  | cons first others ih =>
    intro e rest popped
    simp only [pop] at popped
    split at popped
    · rename_i none_left
      obtain rfl := pop_eq_none_iff.1 none_left
      cases popped
      exact ⟨.refl _, nofun⟩
    · rename_i g left found
      obtain ⟨perm, greatest⟩ := ih found
      split at popped
      · rename_i less
        cases popped
        refine ⟨(perm.cons first).trans (.swap _ _ _), fun f hf => ?_⟩
        rcases List.mem_cons.1 hf with rfl | hf
        · rw [cmp_eq_lt_iff] at less
          rw [cmp_ne_lt_iff]
          omega
        · exact greatest f hf
      · rename_i notLess
        cases popped
        refine ⟨.refl _, fun f hf => ?_⟩
        rcases List.mem_cons.1 (perm.mem_iff.1 hf) with rfl | hf
        · exact notLess
        · have := cmp_ne_lt_iff.1 notLess
          have := cmp_ne_lt_iff.1 (greatest f hf)
          rw [cmp_ne_lt_iff]
          omega

end Queued

/-- A queue of work. -/
structure WorkQueue (α : Type) where
  /-- The most items that may wait; 0 for any number. -/
  capacity : Nat
  /-- The least urgent priority. -/
  ceiling : Int
  /-- The waiting items, in no particular order. -/
  heap : List (Queued α)
  /-- The number of the item accepted next. It is counted without end here; a 64-bit count is the
  same for the first 2 ^ 64 items, and no queue lasts longer than that. -/
  nextSequence : Nat
deriving Repr

/-- The refusal of an item for lack of room, with the item. -/
structure QueueFull (α : Type) where
  item : α
deriving DecidableEq, Repr

namespace QueueFull

variable {α : Type}

def message (_ : QueueFull α) : String := "queue is full"

/-- How the refusal is shown to programmers: the item is not. -/
def inspect (_ : QueueFull α) : String := "QueueFull \x7b .. \x7d"

end QueueFull

/-- How long someone is ready to wait for room or for an item. -/
inductive Patience
  | forever
  | upTo (milliseconds : Nat)
  | none
deriving DecidableEq, Repr

namespace WorkQueue

variable {α : Type}

/-- An empty queue. A ceiling below 0 counts as 0. -/
def empty (capacity : Nat) (ceiling : Int) : WorkQueue α := ⟨capacity, max ceiling 0, [], 0⟩

/-- How many items wait. -/
def size (q : WorkQueue α) : Nat := q.heap.length

def isEmpty (q : WorkQueue α) : Bool := q.heap.isEmpty

/-- Whether there is no room for another item. -/
def isFull (q : WorkQueue α) : Bool := 0 < q.capacity && q.capacity ≤ q.size

/-- The priority under which an item is accepted. -/
def effective [Prioritized α] (q : WorkQueue α) (a : α) : Int :=
  max 0 (min (Prioritized.priority a) q.ceiling)

/-- Accepts an item whatever the room. -/
def accept [Prioritized α] (q : WorkQueue α) (a : α) : WorkQueue α :=
  { q with
    heap := ⟨q.effective a, q.nextSequence, a⟩ :: q.heap
    nextSequence := q.nextSequence + 1 }

theorem size_accept [Prioritized α] (q : WorkQueue α) (a : α) :
    (q.accept a).size = q.size + 1 := rfl

/-- Accepts an item if there is room. -/
def put [Prioritized α] (q : WorkQueue α) (a : α) : Except (QueueFull α) (WorkQueue α) :=
  if q.isFull then .error ⟨a⟩ else .ok (q.accept a)

/-- Serves the greatest item. -/
def take? (q : WorkQueue α) : Option (α × WorkQueue α) :=
  match Queued.pop q.heap with
  | none => none
  | some (e, rest) => some (e.item, { q with heap := rest })

theorem take?_eq_none_iff {q : WorkQueue α} : q.take? = none ↔ q.size = 0 := by
  rw [size, List.length_eq_zero_iff, ← Queued.pop_eq_none_iff, take?]
  split <;> simp_all

theorem exists_pop_of_take? {q q' : WorkQueue α} {a : α} (first : q.take? = some (a, q')) :
    ∃ e rest, Queued.pop q.heap = some (e, rest) ∧ e.item = a ∧ { q with heap := rest } = q' := by
  unfold take? at first
  split at first
  · cases first
  · rename_i e rest popped
    cases first
    exact ⟨e, rest, popped, rfl, rfl⟩

/-- The outcome of an attempt to put an item. -/
inductive PutOutcome (α : Type)
  | accepted (q : WorkQueue α)
  | waits
  | refused (reason : QueueFull α)

/-- Puts an item with some patience. With nobody there to make room, patience without end means
waiting, and any other the refusal. -/
def putWith [Prioritized α] (patience : Patience) (q : WorkQueue α) (a : α) : PutOutcome α :=
  match q.put a, patience with
  | .ok q, _ => .accepted q
  | .error _, .forever => .waits
  | .error reason, _ => .refused reason

/-- The outcome of an attempt to take an item. -/
inductive TakeOutcome (α : Type)
  | served (a : α) (q : WorkQueue α)
  | waits
  | nothing

/-- Takes an item with some patience. -/
def takeWith (patience : Patience) (q : WorkQueue α) : TakeOutcome α :=
  match q.take?, patience with
  | some (a, q), _ => .served a q
  | none, .forever => .waits
  | none, _ => .nothing

/-- A put that waits for room, and one take if the queue is full: the item is accepted after what
was taken has gone. -/
def putWaiting [Prioritized α] (q : WorkQueue α) (a : α) : Option α × WorkQueue α :=
  if q.isFull then
    match q.take? with
    | some (b, q) => (some b, q.accept a)
    | none => (none, q.accept a)
  else (none, q.accept a)

/-- A take that waits for an item, and one put: from an empty queue the item put is taken, from
another one the first item, before the put. -/
def takeWaiting [Prioritized α] (q : WorkQueue α) (a : α) : Option α × WorkQueue α :=
  match q.take? with
  | some (b, q) => (some b, q.accept a)
  | none =>
    match (q.accept a).take? with
    | some (b, q) => (some b, q)
    | none => (none, q)

/-- The next items, in the order in which they are served, as far as there are any. -/
def nextItems : Nat → WorkQueue α → List α
  | 0, _ => []
  | n + 1, q =>
    match q.take? with
    | some (a, q) => a :: nextItems n q
    | none => []

/-- All items, in the order in which they are served. -/
def toList (q : WorkQueue α) : List α := nextItems q.size q

/-- The queue with nothing left to serve. -/
def drained (q : WorkQueue α) : WorkQueue α := { q with heap := [] }

end WorkQueue
end Ferry
