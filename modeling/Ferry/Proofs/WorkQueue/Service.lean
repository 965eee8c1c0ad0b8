import Ferry.Proofs.WorkQueue.Shared
import Mathlib.Data.Prod.Lex

/-!
The order in which a shared queue serves. Items are numbered from 0 in the order in which they are
accepted; `Orderly` says of the answers of a run that every take got the least item, by urgency and
then by number, of all that were accepted and not yet served.

`run_orderly` proves it of every run. The invariant is `Numbered`: the heap holds the items that
wait, each under its number, none missing and none twice.
-/
namespace Ferry.WorkQueue

variable {α : Type} [Prioritized α]

/-- How urgent an item is under a ceiling: its own priority, moved into the range from 0 to the
ceiling. A ceiling below 0 counts as 0. -/
def urgency (ceiling : Int) (a : α) : Int := max 0 (min (Prioritized.priority a) (max ceiling 0))

/-- The item that is to be served next, with its number: of all that are accepted and whose number
is not among `gone`, the least by urgency and then by number. -/
structure IsNext (ceiling : Int) (items : List α) (gone : List Nat) (n : Nat) (a : α) : Prop where
  accepted : items[n]? = some a
  waiting : n ∉ gone
  least : ∀ m b, items[m]? = some b → m ∉ gone →
    toLex (urgency ceiling a, n) ≤ toLex (urgency ceiling b, m)

/-- The answers of a queue that serves in order, with the items accepted so far and the numbers of
those served. Each is accepted under the next number, at the moment of the answer. A take goes
without an item only when every one accepted has been served. -/
inductive Orderly (ceiling : Int) : List (Answer α) → List α → List Nat → Prop
  | start : Orderly ceiling [] [] []
  | accepted {log items gone} (so : Orderly ceiling log items gone) (a : α) :
    Orderly ceiling (log ++ [.accepted a]) (items ++ [a]) gone
  | served {log items gone n a} (so : Orderly ceiling log items gone)
    (next : IsNext ceiling items gone n a) :
    Orderly ceiling (log ++ [.served a]) items (gone ++ [n])
  | refused {log items gone} (so : Orderly ceiling log items gone) (a : α) :
    Orderly ceiling (log ++ [.refused a]) items gone
  | waitsForRoom {log items gone} (so : Orderly ceiling log items gone) :
    Orderly ceiling (log ++ [.waitsForRoom]) items gone
  | nothing {log items gone} (so : Orderly ceiling log items gone)
    (all : ∀ n < items.length, n ∈ gone) : Orderly ceiling (log ++ [.nothing]) items gone
  | waitsForItem {log items gone} (so : Orderly ceiling log items gone)
    (all : ∀ n < items.length, n ∈ gone) : Orderly ceiling (log ++ [.waitsForItem]) items gone
  | idle {log items gone} (so : Orderly ceiling log items gone) :
    Orderly ceiling (log ++ [.idle]) items gone

theorem Orderly.gone_lt {ceiling : Int} {log : List (Answer α)} {items : List α} {gone : List Nat}
    (so : Orderly ceiling log items gone) : ∀ n ∈ gone, n < items.length := by
  induction so with
  | start => simp
  | accepted _ a ih =>
    intro n hn
    rw [List.length_append]
    have := ih n hn
    omega
  | served _ next ih =>
    intro n hn
    rcases List.mem_append.1 hn with hn | hn
    · exact ih n hn
    · rw [List.mem_singleton.1 hn]
      exact (List.getElem?_eq_some_iff.1 next.accepted).1
  | _ => assumption

theorem Orderly.gone_nodup {ceiling : Int} {log : List (Answer α)} {items : List α}
    {gone : List Nat} (so : Orderly ceiling log items gone) : gone.Nodup := by
  induction so with
  | start => exact List.nodup_nil
  | served _ next ih =>
    refine List.nodup_append.2 ⟨ih, by simp, fun m hm k hk same => ?_⟩
    rw [List.mem_singleton.1 hk] at same
    exact next.waiting (same ▸ hm)
  | _ => assumption

/-- Of two items of the same urgency the one accepted first is served first. -/
theorem Orderly.first_in_first_out {ceiling : Int} {log : List (Answer α)} {items : List α}
    {gone : List Nat} (so : Orderly ceiling log items gone) :
    ∀ {m n i : Nat} {a b : α}, m < n → items[m]? = some a → items[n]? = some b →
      urgency ceiling a = urgency ceiling b → gone[i]? = some n → ∃ j < i, gone[j]? = some m := by
  induction so with
  | start => intro m n i a b _ ha; simp at ha
  | accepted so x ih =>
    intro m n i a b older ha hb same hi
    have known : n < _ := so.gone_lt n (List.mem_of_getElem? hi)
    rw [List.getElem?_append_left (by omega)] at ha hb
    exact ih older ha hb same hi
  | @served log items gone k c so next ih =>
    intro m n i a b older ha hb same hi
    rcases Nat.lt_or_ge i gone.length with before | last
    · rw [List.getElem?_append_left before] at hi
      obtain ⟨j, lt, hj⟩ := ih older ha hb same hi
      exact ⟨j, lt, by rw [List.getElem?_append_left (by omega), hj]⟩
    · have served : i = gone.length ∧ k = n := by
        rw [List.getElem?_append_right last] at hi
        obtain ⟨zero, rfl⟩ := List.getElem?_eq_some_iff.1 hi
        simp at zero
        exact ⟨by omega, by simp⟩
      obtain ⟨rfl, rfl⟩ := served
      by_cases gone_m : m ∈ gone
      · obtain ⟨j, lt, hj⟩ := List.getElem_of_mem gone_m
        exact ⟨j, lt, by rw [List.getElem?_append_left lt, List.getElem?_eq_getElem lt, hj]⟩
      · -- the earlier item would have been the lesser one
        have := next.least m a ha gone_m
        rw [next.accepted] at hb
        cases hb
        rw [Prod.Lex.toLex_le_toLex, same] at this
        rcases this with lt | ⟨_, le⟩
        · exact absurd lt (lt_irrefl _)
        · exact absurd le (by omega)
  | _ => assumption

/-! The heap keeps what waits under the numbers by which it is to be served. -/

/-- The heap holds the items accepted and not served, each once, under its urgency and its number;
and no more than it may hold. -/
structure Numbered (ceiling : Int) (items : List α) (gone : List Nat) (q : WorkQueue α) : Prop where
  ceiling_eq : q.ceiling = max ceiling 0
  nextSequence_eq : q.nextSequence = items.length
  mem_iff : ∀ e, e ∈ q.heap ↔
    items[e.sequence]? = some e.item ∧ e.sequence ∉ gone ∧ e.priority = urgency ceiling e.item
  once : (q.heap.map Queued.sequence).Nodup
  snug : q.capacity = 0 ∨ q.size ≤ q.capacity

theorem numbered_empty (capacity : Nat) (ceiling : Int) :
    Numbered ceiling ([] : List α) [] (.empty capacity ceiling) :=
  ⟨rfl, rfl, by simp [empty], .nil, by simp [size, empty]⟩

section
variable {ceiling : Int} {items : List α} {gone : List Nat} {q : WorkQueue α}

theorem Numbered.lt_of_mem (so : Numbered ceiling items gone q) {e : Queued α} (he : e ∈ q.heap) :
    e.sequence < items.length :=
  (List.getElem?_eq_some_iff.1 ((so.mem_iff e).1 he).1).1

/-- What is accepted gets the next number, which no other item has. -/
theorem Numbered.accept (so : Numbered ceiling items gone q) (known : ∀ n ∈ gone, n < items.length)
    (room : q.isFull = false) (a : α) : Numbered ceiling (items ++ [a]) gone (q.accept a) := by
  have effective_eq : q.effective a = urgency ceiling a := by rw [effective, so.ceiling_eq, urgency]
  refine ⟨so.ceiling_eq, ?_, fun e => ?_, ?_, ?_⟩
  · show q.nextSequence + 1 = _
    rw [so.nextSequence_eq, List.length_append]
    rfl
  · show e ∈ ⟨q.effective a, q.nextSequence, a⟩ :: q.heap ↔ _
    rw [effective_eq, so.nextSequence_eq, List.mem_cons]
    have old := so.mem_iff e
    have lt := so.lt_of_mem (e := e)
    have fresh := known items.length
    obtain ⟨priority, sequence, item⟩ := e
    grind
  · -- the next number is greater than any in the heap
    show (q.nextSequence :: q.heap.map Queued.sequence).Nodup
    refine List.nodup_cons.2 ⟨fun old => ?_, so.once⟩
    obtain ⟨e, he, same⟩ := List.mem_map.1 old
    have := so.lt_of_mem he
    rw [same, so.nextSequence_eq] at this
    exact lt_irrefl _ this
  · have := size_accept q a
    rcases so.snug with unbounded | _
    · exact .inl unbounded
    · have : q.capacity = 0 ∨ q.size < q.capacity := by
        simp [isFull] at room
        omega
      show q.capacity = 0 ∨ (q.accept a).size ≤ q.capacity
      omega

/-- What is served is the greatest item of the heap, and it is the next one. -/
theorem Numbered.serve (so : Numbered ceiling items gone q) {q' : WorkQueue α} {a : α}
    (first : q.take? = some (a, q')) :
    ∃ n, IsNext ceiling items gone n a ∧ Numbered ceiling items (gone ++ [n]) q' := by
  obtain ⟨shorter, same⟩ := size_of_take? first
  obtain ⟨e, rest, popped, rfl, rfl⟩ := exists_pop_of_take? first
  obtain ⟨perm, greatest⟩ := Queued.pop_spec popped
  obtain ⟨accepted, waiting, priority_eq⟩ := (so.mem_iff e).1 (perm.mem_iff.2 List.mem_cons_self)
  have once : e.sequence ∉ rest.map Queued.sequence ∧ (rest.map Queued.sequence).Nodup :=
    List.nodup_cons.1 ((perm.map Queued.sequence).nodup_iff.1 so.once)
  have snug := so.snug
  refine ⟨e.sequence, ⟨accepted, waiting, fun m b hb open_ => ?_⟩, so.ceiling_eq,
    so.nextSequence_eq, fun f => ?_, once.2, ?_⟩
  · -- every rival lies in the heap, and the heap gave out its greatest
    have there := (so.mem_iff ⟨urgency ceiling b, m, b⟩).2 ⟨hb, open_, rfl⟩
    rw [Prod.Lex.toLex_le_toLex, ← priority_eq]
    rcases List.mem_cons.1 (perm.mem_iff.1 there) with itself | behind
    · rw [← itself]
      exact .inr ⟨rfl, le_refl _⟩
    · exact Queued.cmp_ne_lt_iff.1 (greatest _ behind)
  · show f ∈ rest ↔ _
    have old := so.mem_iff f
    rw [perm.mem_iff, List.mem_cons] at old
    have apart : f ∈ rest → f.sequence ≠ e.sequence := fun hf same =>
      once.1 (same ▸ List.mem_map_of_mem hf)
    rw [List.mem_append, List.mem_singleton]
    constructor
    · intro hf
      obtain ⟨is_item, not_gone, its_priority⟩ := old.1 (.inr hf)
      exact ⟨is_item, fun h => h.elim not_gone (apart hf), its_priority⟩
    · rintro ⟨is_item, not_gone, its_priority⟩
      rcases old.2 ⟨is_item, fun h => not_gone (.inl h), its_priority⟩ with rfl | hf
      · exact absurd (.inr rfl) not_gone
      · exact hf
  · show q.capacity = 0 ∨ rest.length ≤ q.capacity
    have : q.size = rest.length + 1 := shorter
    omega

/-- A queue from which nothing can be taken has served all it accepted. -/
theorem Numbered.all_gone (so : Numbered ceiling items gone q) (empty : q.take? = none) :
    ∀ n < items.length, n ∈ gone := by
  have none_left : q.heap = [] := List.length_eq_zero_iff.1 (take?_eq_none_iff.1 empty)
  intro n hn
  by_contra waits
  have := (so.mem_iff ⟨urgency ceiling items[n], n, items[n]⟩).2
    ⟨List.getElem?_eq_getElem hn, waits, rfl⟩
  rw [none_left] at this
  cases this

/-- One moment: its answer is in order, and the queue stays numbered. -/
theorem Outcome.orderly {answer : Answer α} {q' : WorkQueue α} (outcome : Outcome q answer q')
    {log : List (Answer α)} (inOrder : Orderly ceiling log items gone)
    (so : Numbered ceiling items gone q) :
    ∃ items' gone', Orderly ceiling (log ++ [answer]) items' gone' ∧
      Numbered ceiling items' gone' q' := by
  cases outcome with
  | accepted a room => exact ⟨_, _, inOrder.accepted a, so.accept inOrder.gone_lt room a⟩
  | served first =>
    obtain ⟨n, next, so'⟩ := so.serve first
    exact ⟨_, _, inOrder.served next, so'⟩
  | refused a _ => exact ⟨_, _, inOrder.refused a, so⟩
  | waitsForRoom _ => exact ⟨_, _, inOrder.waitsForRoom, so⟩
  | nothing empty => exact ⟨_, _, inOrder.nothing (so.all_gone empty), so⟩
  | waitsForItem empty => exact ⟨_, _, inOrder.waitsForItem (so.all_gone empty), so⟩
  | idle => exact ⟨_, _, inOrder.idle, so⟩

end

/-- A whole run, by induction on its moments: in order from any state that is. -/
theorem Shared.run_orderly {ceiling : Int} (moments : List (Moment α)) :
    ∀ {s : Shared α} {log : List (Answer α)} {items : List α} {gone : List Nat},
      Orderly ceiling log items gone → Numbered ceiling items gone s.queue →
      ∃ items' gone', Orderly ceiling (log ++ (s.run moments).1) items' gone' ∧
        Numbered ceiling items' gone' (s.run moments).2.queue := by
  induction moments with
  | nil =>
    intro s log items gone inOrder so
    rw [run, List.append_nil]
    exact ⟨_, _, inOrder, so⟩
  | cons m moments ih =>
    intro s log items gone inOrder so
    obtain ⟨items₁, gone₁, inOrder₁, so₁⟩ := (s.step_outcome m).orderly inOrder so
    obtain ⟨items₂, gone₂, inOrder₂, so₂⟩ := ih inOrder₁ so₁
    rw [List.append_assoc] at inOrder₂
    exact ⟨items₂, gone₂, inOrder₂, so₂⟩

/-- What holds of a shared queue and of the answers that led to it: `items` are those accepted, in
order, and `gone` the numbers of those served, in order. -/
structure Service (ceiling : Int) (log : List (Answer α)) (s : Shared α) (items : List α)
    (gone : List Nat) : Prop where
  /-- Every take got the next item. -/
  orderly : Orderly ceiling log items gone
  /-- No item is served twice. -/
  once : gone.Nodup
  /-- Of two items of the same urgency the one accepted first is served first. -/
  first_in_first_out : ∀ (m n i : Nat) (a b : α), m < n → items[m]? = some a → items[n]? = some b →
    urgency ceiling a = urgency ceiling b → gone[i]? = some n → ∃ j < i, gone[j]? = some m
  /-- The take that makes room for a put that waits gets an item accepted before, and the put is
  accepted afterwards. -/
  waiting_put : ∀ who patience a other p, s.waiting who = some (.put patience a) →
    s.waiting other = none → s.queue.isFull = true →
    ∃ n b, IsNext ceiling items gone n b ∧ (s.queue.putWaiting a).1 = some b ∧
      (s.run [.comes other (.take p), .looks who]).1 = [.served b, .accepted a] ∧
      (s.run [.comes other (.take p), .looks who]).2.queue = (s.queue.putWaiting a).2

theorem Numbered.service {ceiling : Int} {log : List (Answer α)} {s : Shared α} {items : List α}
    {gone : List Nat} (inOrder : Orderly ceiling log items gone)
    (so : Numbered ceiling items gone s.queue) : Service ceiling log s items gone where
  orderly := inOrder
  once := inOrder.gone_nodup
  first_in_first_out _ _ _ _ _ := inOrder.first_in_first_out
  waiting_put who patience a other p waits free full := by
    have bounded : 0 < s.queue.capacity := by
      simp [isFull] at full
      exact full.1
    have snug : s.queue.size ≤ s.queue.capacity := by
      rcases so.snug with unbounded | snug
      · omega
      · exact snug
    obtain ⟨b, putWaiting_eq, answers, left⟩ := run_putWaiting waits free full snug p
    have first : ∃ q, s.queue.take? = some (b, q) := by
      unfold putWaiting at putWaiting_eq
      rw [if_pos full] at putWaiting_eq
      split at putWaiting_eq
      · rename_i c q taken
        cases putWaiting_eq
        exact ⟨q, taken⟩
      · cases putWaiting_eq
    obtain ⟨q, first⟩ := first
    obtain ⟨n, next, _⟩ := so.serve first
    exact ⟨n, b, next, putWaiting_eq, answers, left⟩

/-- Whatever callers do at a shared queue, in whatever order: every item served is the least, by
urgency and then by order of acceptance, of all accepted and not yet served. Work that states no
priority has the least urgent one. -/
theorem shared_queue_serves_in_order (capacity : Nat) (ceiling : Int64)
    (moments : List (Moment α)) :
    (∃ items gone, Service ceiling.toInt
      ((Shared.start capacity ceiling.toInt).run moments).1
      ((Shared.start capacity ceiling.toInt).run moments).2 items gone) ∧
    ∀ {β : Type} (u : Unhurried β), urgency ceiling.toInt u = max ceiling.toInt 0 := by
  constructor
  · obtain ⟨items, gone, inOrder, so⟩ := Shared.run_orderly moments
      (s := Shared.start capacity ceiling.toInt) .start (numbered_empty capacity ceiling.toInt)
    exact ⟨items, gone, so.service inOrder⟩
  · intro β u
    have top : ceiling.toInt ≤ lowestPriority := Int64.toInt_le ceiling
    show max 0 (min lowestPriority (max ceiling.toInt 0)) = max ceiling.toInt 0
    have : (0 : Int) ≤ lowestPriority := by decide
    omega

end Ferry.WorkQueue
