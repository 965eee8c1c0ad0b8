import Ferry.Proofs.WorkQueue.Service

/-!
What comes out of a queue into which several producers have put what they have. Their puts take
effect one after another, those of each producer in its own order (`Interleaving`). Once all are
accepted, the takes that follow serve them as a stable sort by urgency (`Numbered.stableSort`), and
such a sort is told by its items of each urgency alone (`StableSort.unique`): how items of different
urgency come to stand between each other makes no difference.
-/
namespace Ferry.WorkQueue

/-! Stable sorts by a key. -/

/-- A list in the order of a key, with those of one key in the order in which they were. -/
structure StableSort {β : Type} (key : β → Int) (l sorted : List β) : Prop where
  ordered : sorted.Pairwise fun a b => key a ≤ key b
  stable : ∀ u, (sorted.filter fun b => key b = u) = l.filter fun b => key b = u

section
variable {β γ : Type} {key : β → Int} {l l' sorted sorted' : List β}

/-- Nothing is lost by a stable sort, and nothing there twice. -/
theorem StableSort.perm (so : StableSort key l sorted) : sorted.Perm l := by
  classical
  rw [List.perm_iff_count]
  intro b
  have own : decide (key b = key b) = true := decide_eq_true rfl
  have counted (xs : List β) : (xs.filter fun c => key c = key b).count b = xs.count b :=
    List.count_filter own
  rw [← counted sorted, so.stable, counted]

/-- Two lists in order that have the same items of each key are the same. -/
theorem eq_of_ordered (ordered : l.Pairwise fun a b => key a ≤ key b) :
    ∀ {l' : List β}, l'.Pairwise (fun a b => key a ≤ key b) →
      (∀ u, (l.filter fun b => key b = u) = l'.filter fun b => key b = u) → l = l' := by
  have mem_iff {xs ys : List β}
      (same : ∀ u, (xs.filter fun b => key b = u) = ys.filter fun b => key b = u) (b : β) :
      b ∈ xs ↔ b ∈ ys := by
    have at_key := congrArg (b ∈ ·) (same (key b))
    simpa using at_key
  induction l with
  | nil =>
    intro l' _ same
    exact (List.eq_nil_iff_forall_not_mem.2 fun b mem => nomatch (mem_iff same b).2 mem).symm
  | cons x xs ih =>
    intro l' ordered' same
    cases l' with
    | nil => exact nomatch (mem_iff same x).1 List.mem_cons_self
    | cons y ys =>
      obtain ⟨least, rest⟩ := List.pairwise_cons.1 ordered
      obtain ⟨least', rest'⟩ := List.pairwise_cons.1 ordered'
      -- either head is somewhere in the other list, so neither key is the smaller one
      have one_key : key x = key y := by
        have le : key x ≤ key y := by
          rcases List.mem_cons.1 ((mem_iff same y).2 List.mem_cons_self) with rfl | mem
          · exact le_refl _
          · exact least y mem
        have ge : key y ≤ key x := by
          rcases List.mem_cons.1 ((mem_iff same x).1 List.mem_cons_self) with rfl | mem
          · exact le_refl _
          · exact least' x mem
        exact le_antisymm le ge
      have heads := same (key y)
      rw [List.filter_cons_of_pos (by simpa using one_key), List.filter_cons_of_pos (by simp)]
        at heads
      obtain ⟨rfl, -⟩ := List.cons.inj heads
      refine congrArg (x :: ·) (ih rest rest' fun u => ?_)
      have tails := same u
      rw [List.filter_cons, List.filter_cons] at tails
      split at tails
      · exact (List.cons.inj tails).2
      · exact tails

/-- A stable sort is told by the items of each key alone. -/
theorem StableSort.unique (so : StableSort key l sorted) (so' : StableSort key l' sorted')
    (same : ∀ u, (l.filter fun b => key b = u) = l'.filter fun b => key b = u) :
    sorted = sorted' := by
  refine eq_of_ordered so.ordered so'.ordered fun u => ?_
  rw [so.stable, so'.stable, same]

/-- Sorting by merging is stable. -/
theorem stableSort_mergeSort (key : β → Int) (l : List β) :
    StableSort key l (l.mergeSort fun a b => key a ≤ key b) := by
  have trans (a b c : β) (ab : decide (key a ≤ key b) = true)
      (bc : decide (key b ≤ key c) = true) : decide (key a ≤ key c) = true :=
    decide_eq_true ((of_decide_eq_true ab).trans (of_decide_eq_true bc))
  have total (a b : β) : (decide (key a ≤ key b) || decide (key b ≤ key a)) = true := by
    simpa using le_total (key a) (key b)
  refine ⟨?_, fun u => ?_⟩
  · simpa using List.pairwise_mergeSort trans total l
  · -- the items of one key are in order already, so that they stay a sublist
    have level : (l.filter fun b => key b = u).Pairwise fun a b =>
        decide (key a ≤ key b) = true := by
      refine List.pairwise_of_forall_mem_list fun a ha b hb => ?_
      simp only [List.mem_filter, decide_eq_true_eq] at ha hb
      simp [ha.2, hb.2]
    have kept := (List.sublist_mergeSort trans total level List.filter_sublist).filter
      fun b => key b = u
    rw [List.filter_filter] at kept
    simp only [Bool.and_self] at kept
    exact (kept.eq_of_length ((List.mergeSort_perm l _).filter _).length_eq.symm).symm

/-- Sorting by a key of an image, and then taking the images. -/
theorem StableSort.map (f : γ → β) {l sorted : List γ} (so : StableSort (key ∘ f) l sorted) :
    StableSort key (l.map f) (sorted.map f) where
  ordered := List.pairwise_map.2 so.ordered
  stable u := by
    rw [List.filter_map, List.filter_map]
    exact congrArg (List.map f) (so.stable u)

end

variable {α : Type}

/-! What waits in a queue, in the order in which it will be served. -/

theorem exists_take?_of_size_pos {q : WorkQueue α} (some_wait : 0 < q.size) :
    ∃ a q', q.take? = some (a, q') := by
  cases first : q.take? with
  | none => exact absurd (take?_eq_none_iff.1 first) (Nat.ne_of_gt some_wait)
  | some r => exact ⟨r.1, r.2, rfl⟩

theorem toList_of_take?_eq_none {q : WorkQueue α} (empty : q.take? = none) : q.toList = [] := by
  rw [toList, take?_eq_none_iff.1 empty, nextItems]

theorem toList_of_take? {q q' : WorkQueue α} {a : α} (first : q.take? = some (a, q')) :
    q.toList = a :: q'.toList := by
  rw [toList, (size_of_take? first).1, nextItems, first]
  rfl

theorem length_toList (q : WorkQueue α) : q.toList.length = q.size := by
  induction waiting : q.size generalizing q with
  | zero => rw [toList_of_take?_eq_none (take?_eq_none_iff.2 waiting), List.length_nil]
  | succ size ih =>
    obtain ⟨a, q', first⟩ := exists_take?_of_size_pos (by rw [waiting]; exact Nat.succ_pos _)
    have shorter := (size_of_take? first).1
    rw [toList_of_take? first, List.length_cons, ih q' (by omega)]

variable [Prioritized α]

section
variable {ceiling : Int} {items : List α} {gone : List Nat} {q : WorkQueue α}

/-- What a queue will serve, each item with its number: all that waits, in the order of service. -/
theorem Numbered.exists_served (so : Numbered ceiling items gone q) :
    ∃ served : List (α × Nat), q.toList = served.map Prod.fst ∧
      (∀ x, x ∈ served ↔ items[x.2]? = some x.1 ∧ x.2 ∉ gone) ∧
      served.Pairwise fun x y =>
        toLex (urgency ceiling x.1, x.2) < toLex (urgency ceiling y.1, y.2) := by
  induction waiting : q.size generalizing q gone with
  | zero =>
    have empty := take?_eq_none_iff.2 waiting
    refine ⟨[], toList_of_take?_eq_none empty, fun x => ⟨nofun, fun ⟨is_item, waits⟩ => ?_⟩, .nil⟩
    exact absurd (so.all_gone empty x.2 (List.getElem?_eq_some_iff.1 is_item).1) waits
  | succ size ih =>
    obtain ⟨a, q', first⟩ := exists_take?_of_size_pos (by rw [waiting]; exact Nat.succ_pos _)
    obtain ⟨n, next, so'⟩ := so.serve first
    obtain ⟨served, listed, mem_iff, ordered⟩ := ih so' (by have := (size_of_take? first).1; omega)
    refine ⟨(a, n) :: served, ?_, fun x => ?_, List.pairwise_cons.2 ⟨fun x mem => ?_, ordered⟩⟩
    · rw [toList_of_take? first, listed]
      rfl
    · rw [List.mem_cons, mem_iff, List.mem_append, List.mem_singleton]
      constructor
      · rintro (rfl | ⟨is_item, waits⟩)
        · exact ⟨next.accepted, next.waiting⟩
        · exact ⟨is_item, fun went => waits (.inl went)⟩
      · rintro ⟨is_item, waits⟩
        by_cases own : x.2 = n
        · rw [own, next.accepted] at is_item
          exact .inl (Prod.ext (Option.some.inj is_item).symm own)
        · exact .inr ⟨is_item, fun went => went.elim waits own⟩
    · -- what was served first is less than each that waited beside it, and has another number
      obtain ⟨is_item, waits⟩ := (mem_iff x).1 mem
      rw [List.mem_append, List.mem_singleton, not_or] at waits
      refine lt_of_le_of_ne (next.least x.2 x.1 is_item waits.1) fun same => waits.2 ?_
      exact (congrArg (fun key => (ofLex key).2) same).symm

/-- A queue that has served nothing yet will serve the stable sort of what it has accepted. -/
theorem Numbered.stableSort (so : Numbered ceiling items [] q) :
    StableSort (urgency ceiling) items q.toList := by
  obtain ⟨served, listed, mem_iff, ordered⟩ := so.exists_served
  have numbers : items.zipIdx.Pairwise fun x y => x.2 < y.2 := by
    have := List.pairwise_lt_range' (s := 0) (n := items.length)
    rwa [← List.zipIdx_map_snd, List.pairwise_map] at this
  have perm : served.Perm items.zipIdx := by
    refine (List.perm_ext_iff_of_nodup ?_ ?_).2 fun x => ?_
    · exact ordered.imp fun lt same => by rw [same] at lt; exact lt_irrefl _ lt
    · exact numbers.imp fun lt same => by rw [same] at lt; exact lt_irrefl _ lt
    · rw [mem_iff, List.mem_zipIdx_iff_getElem?]
      simp
  rw [listed]
  refine ⟨List.pairwise_map.2 (ordered.imp fun lt => ?_), fun u => ?_⟩
  · rcases Prod.Lex.toLex_lt_toLex.1 lt with lt | ⟨eq, -⟩
    · exact le_of_lt lt
    · exact le_of_eq eq
  · -- of one urgency, both lists are in the order of the numbers
    have level : (served.filter fun x => urgency ceiling x.1 = u) =
        items.zipIdx.filter fun x => urgency ceiling x.1 = u := by
      refine List.Perm.eq_of_pairwise
        (fun x y _ _ (lt : x.2 < y.2) gt => absurd (lt.trans gt) (lt_irrefl _)) ?_
        (numbers.filter _) (perm.filter _)
      refine (ordered.filter _).imp_of_mem fun {x y} hx hy lt => ?_
      simp only [List.mem_filter, decide_eq_true_eq] at hx hy
      rw [Prod.Lex.toLex_lt_toLex, hx.2, hy.2] at lt
      exact lt.elim (fun lt => absurd lt (lt_irrefl _)) And.right
    conv => rhs; rw [← List.zipIdx_map_fst 0 items]
    rw [List.filter_map, List.filter_map]
    exact congrArg (List.map Prod.fst) level

end

/-! Several producers. -/

/-- An item that one of several producers puts. -/
structure Arrival (α : Type) where
  who : Nat
  patience : Patience
  item : α

/-- The moment at which a put takes effect. -/
def Arrival.moment (a : Arrival α) : Moment α := .comes a.who (.put a.patience a.item)

/-- The puts of several producers in an order in which they can take effect: each time one of the
producers makes the first put that it has left, until none has any. -/
inductive Interleaving : List (List (Patience × α)) → List (Arrival α) → Prop
  | done {producers} (none_left : ∀ puts ∈ producers, puts = []) : Interleaving producers []
  | next {producers rest order} {a : Arrival α}
    (first : producers[a.who]? = some ((a.patience, a.item) :: rest))
    (later : Interleaving (producers.set a.who rest) order) : Interleaving producers (a :: order)

/-- The puts of one producer among those of all. -/
def putsOf (who : Nat) (order : List (Arrival α)) : List (Patience × α) :=
  (order.filter fun a => a.who = who).map fun a => (a.patience, a.item)

omit [Prioritized α] in
/-- Each producer's puts take effect in its own order. -/
theorem Interleaving.putsOf_eq {producers : List (List (Patience × α))} {order : List (Arrival α)}
    (interleaved : Interleaving producers order) (who : Nat) :
    putsOf who order = producers.getD who [] := by
  induction interleaved with
  | @done producers none_left =>
    rw [List.getD_eq_getElem?_getD]
    cases found : producers[who]? with
    | none => rfl
    | some puts => exact (none_left puts (List.mem_of_getElem? found)).symm
  | @next producers rest order a first later ih =>
    rw [List.getD_eq_getElem?_getD] at ih ⊢
    rw [List.getElem?_set] at ih
    by_cases own : a.who = who
    · subst own
      rw [if_pos rfl, if_pos (List.getElem?_eq_some_iff.1 first).1] at ih
      rw [putsOf, List.filter_cons_of_pos (by simp), List.map_cons, ← putsOf, ih, first]
      rfl
    · rw [if_neg own] at ih
      rw [putsOf, List.filter_cons_of_neg (by simpa using own), ← putsOf, ih]

/-- The moments at which some callers take an item each. -/
def takings (takers : List (Nat × Patience)) : List (Moment α) :=
  takers.map fun t => .comes t.1 (.take t.2)

namespace Shared

/-- Where there is room for all, all puts are accepted, in whatever order they come. -/
theorem run_arrivals {ceiling : Int} (order : List (Arrival α)) :
    ∀ {s : Shared α} {items : List α}, (∀ n, s.waiting n = none) →
      Numbered ceiling items [] s.queue →
      (s.queue.capacity = 0 ∨ s.queue.size + order.length ≤ s.queue.capacity) →
      ∃ q, s.run (order.map Arrival.moment) =
          (order.map fun a => .accepted a.item, ⟨q, s.waiting⟩) ∧
        Numbered ceiling (items ++ order.map Arrival.item) [] q := by
  induction order with
  | nil =>
    intro s items _ so _
    exact ⟨s.queue, rfl, by rwa [List.map_nil, List.append_nil]⟩
  | cons a order ih =>
    intro s items free so room
    have not_full : s.queue.isFull = false := by
      rw [List.length_cons] at room
      simp only [isFull, Bool.and_eq_false_iff, decide_eq_false_iff_not]
      omega
    have accepted : s.step a.moment = (.accepted a.item, ⟨s.queue.accept a.item, s.waiting⟩) :=
      step_comes_put (free a.who) not_full a.patience a.item
    have room' : s.queue.capacity = 0 ∨
        (s.queue.accept a.item).size + order.length ≤ s.queue.capacity := by
      rw [size_accept]
      rw [List.length_cons] at room
      omega
    obtain ⟨q, answers, so'⟩ := ih (s := ⟨s.queue.accept a.item, s.waiting⟩) free
      (so.accept (List.forall_mem_nil _) not_full a.item) room'
    refine ⟨q, ?_, ?_⟩
    · rw [List.map_cons, run_cons, accepted, answers]
      rfl
    · rwa [List.append_assoc] at so'

/-- As many takes as items wait serve them all. -/
theorem run_takings (takers : List (Nat × Patience)) :
    ∀ {s : Shared α}, (∀ n, s.waiting n = none) → s.queue.size = takers.length →
      s.run (takings takers) =
        (s.queue.toList.map .served, ⟨s.queue.drained, s.waiting⟩) := by
  induction takers with
  | nil =>
    intro s _ waiting
    have heap_eq : s.queue.heap = [] := List.length_eq_zero_iff.1 waiting
    rw [toList_of_take?_eq_none (take?_eq_none_iff.2 waiting), drained, ← heap_eq]
    rfl
  | cons t takers ih =>
    intro s free waiting
    obtain ⟨a, q, first⟩ := exists_take?_of_size_pos (by rw [waiting]; exact Nat.succ_pos _)
    have shorter := (size_of_take? first).1
    have served : s.step (.comes t.1 (.take t.2)) = (.served a, ⟨q, s.waiting⟩) :=
      step_comes_take (free t.1) first t.2
    have drained_eq : q.drained = s.queue.drained := by
      obtain ⟨_, _, _, _, rfl⟩ := exists_pop_of_take? first
      rfl
    have waiting' : q.size = takers.length := by
      rw [List.length_cons] at waiting
      omega
    rw [takings, List.map_cons, run_cons, served, ← takings, ih (s := ⟨q, s.waiting⟩) free waiting',
      toList_of_take? first, drained_eq]
    rfl

/-- A shared queue without items, after puts in some order. -/
def filled (capacity : Nat) (ceiling : Int) (order : List (Arrival α)) : Shared α :=
  ((start capacity ceiling).run (order.map Arrival.moment)).2

end Shared

/-- What puts in some order come to at a shared queue that had no items: all are accepted, `served`
is what waits, and as many takes by whomever get it and leave nothing. -/
structure Drains (capacity : Nat) (ceiling : Int) (order served : List (Arrival α)) : Prop where
  accepted : ((Shared.start capacity ceiling).run (order.map Arrival.moment)).1 =
    order.map fun a => .accepted a.item
  waiting : (Shared.filled capacity ceiling order).queue.toList = served.map Arrival.item
  takes : ∀ takers : List (Nat × Patience), takers.length = order.length →
    ((Shared.filled capacity ceiling order).run (takings takers)).1 =
        served.map (fun a => .served a.item) ∧
      ((Shared.filled capacity ceiling order).run (takings takers)).2.queue.size = 0

/-- The urgency of what is put. -/
def Arrival.urgency (ceiling : Int) (a : Arrival α) : Int := WorkQueue.urgency ceiling a.item

/-- A producer's puts of one urgency are its own among all puts of that urgency. -/
theorem filter_putsOf (ceiling : Int) (who : Nat) (u : Int) (order : List (Arrival α)) :
    ((putsOf who order).filter fun x => urgency ceiling x.2 = u) =
      putsOf who (order.filter fun a => a.urgency ceiling = u) := by
  rw [putsOf, putsOf, List.filter_map, List.filter_filter, List.filter_filter]
  congr 2
  funext a
  exact Bool.and_comm _ _

section
variable {capacity : Nat} {ceiling : Int} {order order' served : List (Arrival α)}

theorem exists_filled (ceiling : Int) (room : capacity = 0 ∨ order.length ≤ capacity) :
    ((Shared.start capacity ceiling).run (order.map Arrival.moment)).1 =
        (order.map fun a => .accepted a.item) ∧
      (∀ n, (Shared.filled capacity ceiling order).waiting n = none) ∧
      Numbered ceiling (order.map Arrival.item) []
        (Shared.filled capacity ceiling order).queue := by
  obtain ⟨q, run_eq, so⟩ := Shared.run_arrivals order (s := Shared.start capacity ceiling)
    (fun _ => rfl) (numbered_empty capacity ceiling)
    (by simpa [Shared.start, size, empty] using room)
  rw [Shared.filled, run_eq]
  exact ⟨rfl, fun _ => rfl, so⟩

theorem stableSort_filled (ceiling : Int) (room : capacity = 0 ∨ order.length ≤ capacity) :
    StableSort (urgency ceiling) (order.map Arrival.item)
      (Shared.filled capacity ceiling order).queue.toList :=
  (exists_filled ceiling room).2.2.stableSort

theorem drains (room : capacity = 0 ∨ order.length ≤ capacity)
    (so : StableSort (Arrival.urgency ceiling) order served) :
    Drains capacity ceiling order served := by
  obtain ⟨accepted, free, numbered⟩ := exists_filled ceiling room
  have waiting : (Shared.filled capacity ceiling order).queue.toList = served.map Arrival.item :=
    numbered.stableSort.unique (so.map Arrival.item) fun _ => rfl
  refine ⟨accepted, waiting, fun takers enough => ?_⟩
  have size_eq : (Shared.filled capacity ceiling order).queue.size = takers.length := by
    rw [← length_toList, waiting, List.length_map, so.perm.length_eq, enough]
  rw [Shared.run_takings takers free size_eq, waiting, List.map_map]
  exact ⟨rfl, rfl⟩

end

/-- Several producers put what they have into a shared queue with room for all. In whatever order
their puts take effect, what is drained is the stable sort of that order by urgency, in which each
producer's items of one urgency are in its own order. Orders with the same items of each urgency in
the same order, and no others, are drained alike. -/
theorem producers_drained_in_stable_order (capacity : Nat) (ceiling : Int64)
    {producers : List (List (Patience × α))} {order : List (Arrival α)}
    (interleaved : Interleaving producers order) (room : capacity = 0 ∨ order.length ≤ capacity) :
    (∃ served, Drains capacity ceiling.toInt order served ∧
      served = order.mergeSort (fun a b => a.urgency ceiling.toInt ≤ b.urgency ceiling.toInt) ∧
      served.Perm order ∧ StableSort (Arrival.urgency ceiling.toInt) order served ∧
      ∀ who u, ((putsOf who served).filter fun x => urgency ceiling.toInt x.2 = u) =
        (producers.getD who []).filter fun x => urgency ceiling.toInt x.2 = u) ∧
    ∀ {producers' : List (List (Patience × α))} {order' : List (Arrival α)},
      Interleaving producers' order' → (capacity = 0 ∨ order'.length ≤ capacity) →
      ((Shared.filled capacity ceiling.toInt order').queue.toList =
          (Shared.filled capacity ceiling.toInt order).queue.toList ↔
        ∀ u, ((order'.map Arrival.item).filter fun a => urgency ceiling.toInt a = u) =
          (order.map Arrival.item).filter fun a => urgency ceiling.toInt a = u) := by
  have sorted := stableSort_mergeSort (Arrival.urgency ceiling.toInt) order
  have drained := stableSort_filled ceiling.toInt room
  refine ⟨⟨_, drains room sorted, rfl, sorted.perm, sorted, fun who u => ?_⟩,
    fun _ room' => ⟨fun same u => ?_, fun same => ?_⟩⟩
  · rw [← interleaved.putsOf_eq, filter_putsOf, filter_putsOf, sorted.stable]
  · rw [← drained.stable, ← (stableSort_filled ceiling.toInt room').stable, same]
  · exact (stableSort_filled ceiling.toInt room').unique drained same

/-- Work with a name and a priority. -/
structure Job where
  name : String
  priority : Int
deriving DecidableEq

instance : Prioritized Job := ⟨Job.priority⟩

/-- Two producers of two jobs each. -/
def producersOfTwo : List (List (Patience × Job)) :=
  [[(.forever, ⟨"a", 5⟩), (.none, ⟨"b", -1⟩)], [(.none, ⟨"c", 30⟩), (.upTo 1, ⟨"d", 5⟩)]]

/-- Their jobs, one producer after the other. -/
def oneByOne : List (Arrival Job) :=
  [⟨0, .forever, ⟨"a", 5⟩⟩, ⟨0, .none, ⟨"b", -1⟩⟩, ⟨1, .none, ⟨"c", 30⟩⟩, ⟨1, .upTo 1, ⟨"d", 5⟩⟩]

/-- Their jobs, the producers taking turns. -/
def byTurns : List (Arrival Job) :=
  [⟨1, .none, ⟨"c", 30⟩⟩, ⟨0, .forever, ⟨"a", 5⟩⟩, ⟨1, .upTo 1, ⟨"d", 5⟩⟩, ⟨0, .none, ⟨"b", -1⟩⟩]

/-- In both orders the jobs `a` and `d`, equally urgent, follow each other the same way. -/
theorem turns_make_no_difference :
    Interleaving producersOfTwo oneByOne ∧ Interleaving producersOfTwo byTurns ∧
      (Shared.filled 4 (20 : Int64).toInt byTurns).queue.toList =
        (Shared.filled 4 (20 : Int64).toInt oneByOne).queue.toList ∧
      (Shared.filled 4 (20 : Int64).toInt oneByOne).queue.toList =
        [⟨"b", -1⟩, ⟨"a", 5⟩, ⟨"d", 5⟩, ⟨"c", 30⟩] := by
  have none_left : ∀ puts ∈ ([[], []] : List (List (Patience × Job))), puts = [] := by simp
  have interleaved : Interleaving producersOfTwo oneByOne :=
    .next rfl (.next rfl (.next rfl (.next rfl (.done none_left))))
  have interleaved' : Interleaving producersOfTwo byTurns :=
    .next rfl (.next rfl (.next rfl (.next rfl (.done none_left))))
  have room : 4 = 0 ∨ 4 ≤ 4 := .inr (le_refl 4)
  have same : ∀ u, ((byTurns.map Arrival.item).filter fun a => urgency (20 : Int64).toInt a = u) =
      (oneByOne.map Arrival.item).filter fun a => urgency (20 : Int64).toInt a = u := by
    have known : ∀ u ∈ [0, 5, 20],
        ((byTurns.map Arrival.item).filter fun a => urgency (20 : Int64).toInt a = u) =
          (oneByOne.map Arrival.item).filter fun a => urgency (20 : Int64).toInt a = u := by decide
    have all_known : ∀ a ∈ byTurns.map Arrival.item ++ oneByOne.map Arrival.item,
        urgency (20 : Int64).toInt a ∈ [0, 5, 20] := by decide
    intro u
    by_cases occurs : u ∈ [0, 5, 20]
    · exact known u occurs
    · have none_in {items : List Job}
          (within : ∀ a ∈ items, urgency (20 : Int64).toInt a ∈ [0, 5, 20]) :
          (items.filter fun a => urgency (20 : Int64).toInt a = u) = [] :=
        List.filter_eq_nil_iff.2 fun a mem is_u => occurs (of_decide_eq_true is_u ▸ within a mem)
      rw [none_in fun a mem => all_known a (List.mem_append_left _ mem),
        none_in fun a mem => all_known a (List.mem_append_right _ mem)]
  exact ⟨interleaved, interleaved',
    ((producers_drained_in_stable_order 4 20 interleaved room).2 interleaved' room).2 same,
    by decide⟩

end Ferry.WorkQueue
