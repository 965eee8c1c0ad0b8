import Ferry.Proofs.Store.Listing
import Mathlib.Data.List.TakeWhile
import Mathlib.Order.Bounds.Basic

/-!
What a listing asks of the service and of the reader of times, and when. Some answers of the service
decide so many answers of the listing, whatever it would answer further (`Decides`); the listing
asks for as many as decide the answers that it was called for, and for no more.

The induction over the calls carries `Stage`: as long as the listing runs, what it has asked for are
good pages, and what is ready is the rest of the last of them; once it is finished, the last answer
of the service was the first that is no good page.
-/
namespace Ferry.Store

/-- The first `k` answers of the service. After those it has it is over. -/
def firstPulls (source : List Pull) (k : Nat) : List Pull :=
  (List.range k).map fun i => source.getD i .over

/-- What is tried of a page's times: those before the first that cannot be read, and that one. -/
def Lister.tried (l : Lister) : Pull → List String
  | .page p =>
    let readable (o : Listed) : Bool := (l.readTime o.lastModified).isSome
    (p.contents.takeWhile readable ++ (p.contents.dropWhile readable).take 1).map (·.lastModified)
  | _ => []

/-- The tally after some answers of the service have been received and their times tried. -/
def Tally.add (t : Tally) (l : Lister) (pulls : List Pull) : Tally where
  requests := t.requests
  pulled := t.pulled + pulls.countP (· ≠ .over)
  read := t.read ++ pulls.flatMap l.tried

/-- The answers of the service decide the first `m` answers of the listing: they are the same
whatever the service would answer further. -/
def Lister.Decides (l : Lister) (bucket : String) (pulls : List Pull) (m : Nat) : Prop :=
  ∀ more more' n, n < m →
    (l.answers bucket (pulls ++ more)).getD n .over =
      (l.answers bucket (pulls ++ more')).getD n .over

variable {l : Lister} {bucket : String} {source pulls : List Pull} {m k : Nat}

theorem firstPulls_add (source : List Pull) (k j : Nat) :
    firstPulls source (k + j) = firstPulls source k ++ firstPulls (source.drop k) j := by
  simp only [firstPulls, List.range_add, List.map_append, List.map_map]
  congr 1
  apply List.map_congr_left
  intro i _
  simp [List.getD_eq_getElem?_getD]

theorem firstPulls_succ (source : List Pull) (k : Nat) :
    firstPulls source (k + 1) = firstPulls source k ++ [source.getD k .over] := by
  rw [firstPulls, List.range_succ, List.map_append]
  rfl

theorem firstPulls_cons (pull : Pull) (source : List Pull) (k : Nat) :
    firstPulls (pull :: source) (k + 1) = pull :: firstPulls source k := by
  rw [Nat.add_comm, firstPulls_add]
  rfl

theorem mem_firstPulls_of_le {j : Nat} (le : j ≤ k) {pull : Pull}
    (mem : pull ∈ firstPulls source j) : pull ∈ firstPulls source k := by
  obtain ⟨i, rfl⟩ := Nat.exists_eq_add_of_le le
  rw [firstPulls_add]
  exact List.mem_append_left _ mem

theorem length_objects_le (l : Lister) (source : List Pull) {j k : Nat} (le : j ≤ k) :
    ((firstPulls source j).flatMap l.objectsOf).length ≤
      ((firstPulls source k).flatMap l.objectsOf).length := by
  obtain ⟨i, rfl⟩ := Nat.exists_eq_add_of_le le
  rw [firstPulls_add, List.flatMap_append, List.length_append]
  exact Nat.le_add_right _ _

@[simp] theorem Tally.add_nil (t : Tally) : t.add l [] = t := by
  simp [add]

theorem Tally.add_append (t : Tally) (earlier later : List Pull) :
    t.add l (earlier ++ later) = (t.add l earlier).add l later := by
  simp [add, Nat.add_assoc]

namespace Lister

theorem answers_append (good : ∀ pull ∈ pulls, l.isGood pull = true) (source : List Pull) :
    l.answers bucket (pulls ++ source) =
      (pulls.flatMap l.objectsOf).map (fun o => .object (bucket ++ "/" ++ o.key) o) ++
        l.answers bucket source := by
  have none_bad : (pulls.find? fun pull => !l.isGood pull) = none :=
    List.find?_eq_none.2 fun pull h => by simp [good pull h]
  rw [answers, List.takeWhile_append_of_pos good, List.find?_append, none_bad, Option.none_or,
    List.flatMap_append, List.map_append, List.append_assoc]
  rfl

theorem answers_cons_bad {pull : Pull} (bad : l.isGood pull = false) (source : List Pull) :
    l.answers bucket (pull :: source) = l.ending (some pull) := by
  rw [answers, List.takeWhile_cons_of_neg (by simp [bad]), List.find?_cons_of_pos (by simp [bad])]
  rfl

/-- What comes after an answer that is no good page does not matter. -/
theorem answers_append_of_bad (bad : ∃ pull ∈ pulls, l.isGood pull = false) (source : List Pull) :
    l.answers bucket (pulls ++ source) = l.answers bucket pulls := by
  induction pulls with
  | nil =>
    obtain ⟨pull, mem, -⟩ := bad
    cases mem
  | cons first pulls ih =>
    cases good : l.isGood first with
    | false => rw [List.cons_append, answers_cons_bad good, answers_cons_bad good]
    | true =>
      have later : ∃ pull ∈ pulls, l.isGood pull = false := by
        simpa [good] using bad
      have one : ∀ pull ∈ [first], l.isGood pull = true := by simpa using good
      rw [List.cons_append, ← List.singleton_append, answers_append one, ih later,
        ← answers_append one, List.singleton_append]

theorem getD_objects {objects : List Object} {n : Nat} (lt : n < objects.length)
    (f : Object → Answer) (others : List Answer) :
    (objects.map f ++ others).getD n .over = f objects[n] := by
  simp [List.getD_eq_getElem?_getD, List.getElem?_append_left, lt]

theorem getD_objects_length (objects : List Object) (f : Object → Answer) (others : List Answer) :
    (objects.map f ++ others).getD objects.length .over = others.getD 0 .over := by
  simp [List.getD_eq_getElem?_getD, List.getElem?_append_right]

/-- Some answers of the service are enough for `m` calls if they bring `m` objects, or end the
listing. -/
theorem decides_iff : l.Decides bucket pulls m ↔
    m ≤ (pulls.flatMap l.objectsOf).length ∨ ∃ pull ∈ pulls, l.isGood pull = false := by
  constructor
  · intro decides
    by_contra neither
    rw [not_or, not_exists] at neither
    obtain ⟨few, good⟩ := neither
    have good : ∀ pull ∈ pulls, l.isGood pull = true := by simpa using good
    -- all objects handed out, the service may be over or fail
    have same := decides [] [.failed ""] _ (Nat.lt_of_not_le few)
    rw [answers_append good, answers_append good, getD_objects_length, getD_objects_length,
      answers_cons_bad rfl] at same
    cases same
  · rintro (enough | bad) more more' n lt
    · by_cases bad : ∃ pull ∈ pulls, l.isGood pull = false
      · rw [answers_append_of_bad bad, answers_append_of_bad bad]
      · have good : ∀ pull ∈ pulls, l.isGood pull = true := by simpa using bad
        have inside := Nat.lt_of_lt_of_le lt enough
        rw [answers_append good, answers_append good, getD_objects inside, getD_objects inside]
    · rw [answers_append_of_bad bad, answers_append_of_bad bad]

/-- The times of a page that are tried are those that reading it tries. -/
theorem tried_eq (l : Lister) (contents : List Listed) :
    (l.readObjects contents).1 = l.tried (.page ⟨contents, [], false, none⟩) := by
  induction contents with
  | nil => rfl
  | cons o os ih =>
    cases readable : l.readTime o.lastModified with
    | none => simp [readObjects, tried, readable]
    | some time =>
      simp only [readObjects, readable, ih]
      simp [tried, readable]

theorem readable_of_good :
    ∀ {contents : List Listed} {objects : List Object}, l.objects? contents = some objects →
      ∀ o ∈ contents, (l.readTime o.lastModified).isSome = true := by
  intro contents
  induction contents with
  | nil => exact fun _ => nofun
  | cons o os ih =>
    intro objects good
    rw [objects?_cons, Option.bind_eq_some_iff] at good
    obtain ⟨time, readable, good⟩ := good
    obtain ⟨rest, good_rest, -⟩ := Option.map_eq_some_iff.1 good
    exact List.forall_mem_cons.2 ⟨by rw [readable]; rfl, ih good_rest⟩

/-- All times of a good page are tried. -/
theorem tried_of_good {p : Page} {objects : List Object}
    (good : l.objects? p.contents = some objects) :
    l.tried (.page p) = p.contents.map (·.lastModified) := by
  have readable := readable_of_good good
  have all : p.contents.takeWhile (fun o => (l.readTime o.lastModified).isSome) = p.contents :=
    List.takeWhile_eq_self_iff.2 readable
  have none_left : p.contents.dropWhile (fun o => (l.readTime o.lastModified).isSome) = [] :=
    List.dropWhile_eq_nil_iff.2 readable
  simp only [tried, all, none_left, List.take_nil, List.append_nil]

theorem add_over (l : Lister) (t : Tally) : t.add l [.over] = t := by
  simp [Tally.add, tried]

theorem add_failed (l : Lister) (t : Tally) (reason : String) :
    t.add l [.failed reason] = { t with pulled := t.pulled + 1 } := by
  simp [Tally.add, tried]

theorem add_page (l : Lister) (t : Tally) (p : Page) :
    (⟨t.requests, t.pulled + 1, t.read ++ (l.readObjects p.contents).1⟩ : Tally) =
      t.add l [.page p] := by
  rw [tried_eq]
  simp [Tally.add, tried]

/-- A page that is pulled is tallied, and then its objects say how the pull goes on. -/
theorem pull_page (l : Lister) (w : Listing) (p : Page) (source : List Pull) :
    l.pull w (.page p :: source) =
      let w' := { w with tally := w.tally.add l [.page p] }
      match (l.readObjects p.contents).2 with
      | .error e => (.failed e, { w' with finished := true, source })
      | .ok [] => l.pull w' source
      | .ok (o :: rest) => handOut { w' with source } o rest := by
  rw [← add_page]
  rfl

/-- What one pull comes to: after `e` pages without objects there is one with objects, of which the
first is handed out, or an answer that ends the listing. -/
def PullsTo (l : Lister) (w : Listing) (source : List Pull) (call : Answer × Listing) : Prop :=
  ∃ e, (∀ pull ∈ firstPulls source e, l.isGood pull = true ∧ l.objectsOf pull = []) ∧
    let w' : Listing := { w with
      source := source.drop (e + 1), tally := w.tally.add l (firstPulls source (e + 1)) }
    ((∃ answer : Answer, (∀ path o, answer ≠ .object path o) ∧
        l.isGood (source.getD e .over) = false ∧ call = (answer, { w' with finished := true })) ∨
      ∃ o rest, l.isGood (source.getD e .over) = true ∧
        l.objectsOf (source.getD e .over) = o :: rest ∧ call = handOut w' o rest)

/-- A listing is over, or fails, at the first answer. -/
theorem pullsTo_end {w : Listing} {answer : Answer} (no_object : ∀ path o, answer ≠ .object path o)
    (bad : l.isGood (source.getD 0 .over) = false) :
    l.PullsTo w source (answer, { w with
      source := source.drop 1, tally := w.tally.add l (firstPulls source 1), finished := true }) :=
  ⟨0, List.forall_mem_nil _, .inl ⟨answer, no_object, bad, rfl⟩⟩

/-- A page without objects leaves its times in the tally, and the pull goes on behind it. -/
theorem PullsTo.cons {w : Listing} {p : Page} {call : Answer × Listing}
    (isGood : l.isGood (.page p) = true) (nothing : l.objectsOf (.page p) = [])
    (goes_on : l.PullsTo { w with tally := w.tally.add l [.page p] } source call) :
    l.PullsTo w (.page p :: source) call := by
  obtain ⟨e, blank, goes_on⟩ := goes_on
  have tally_eq : w.tally.add l (.page p :: firstPulls source (e + 1)) =
      (w.tally.add l [.page p]).add l (firstPulls source (e + 1)) := w.tally.add_append [.page p] _
  refine ⟨e + 1, ?_, ?_⟩
  · rw [firstPulls_cons]
    exact List.forall_mem_cons.2 ⟨⟨isGood, nothing⟩, blank⟩
  · rw [firstPulls_cons, tally_eq]
    exact goes_on

theorem pull_spec (l : Lister) (source : List Pull) :
    ∀ w : Listing, l.PullsTo w source (l.pull w source) := by
  have over_no_object : ∀ path o, Answer.over ≠ .object path o := by
    intro path o same
    cases same
  have failed_no_object : ∀ e path o, Answer.failed e ≠ .object path o := by
    intro e path o same
    cases same
  induction source with
  | nil =>
    intro w
    have tally_eq : w.tally.add l (firstPulls [] 1) = w.tally := l.add_over w.tally
    have ends : l.PullsTo w [] _ := pullsTo_end over_no_object rfl
    rw [tally_eq] at ends
    exact ends
  | cons pull source ih =>
    intro w
    rcases pull with p | reason | _
    · cases readable : l.objects? p.contents with
      | none =>
        have isBad : l.isGood (.page p) = false := by rw [isGood, readable]; rfl
        obtain ⟨o, tried, -, read⟩ := readObjects_of_none readable
        rw [pull_page, read]
        exact pullsTo_end (failed_no_object _) isBad
      | some objects =>
        have isGood : l.isGood (.page p) = true := by rw [Lister.isGood, readable]; rfl
        have objectsOf : l.objectsOf (.page p) = objects := by rw [Lister.objectsOf, readable]; rfl
        obtain ⟨tried, read⟩ := readObjects_of_some readable
        rw [pull_page, read]
        cases objects with
        | nil => exact .cons isGood objectsOf (ih _)
        | cons o rest =>
          exact ⟨0, List.forall_mem_nil _, .inr ⟨o, rest, isGood, objectsOf, rfl⟩⟩
    · have tally_eq : w.tally.add l (firstPulls (.failed reason :: source) 1) =
          { w.tally with pulled := w.tally.pulled + 1 } := l.add_failed w.tally reason
      have ends : l.PullsTo w (.failed reason :: source) _ :=
        pullsTo_end (failed_no_object (.request reason)) rfl
      rw [tally_eq] at ends
      exact ends
    · have tally_eq : w.tally.add l (firstPulls (.over :: source) 1) = w.tally :=
        l.add_over w.tally
      have ends : l.PullsTo w (.over :: source) _ := pullsTo_end over_no_object rfl
      rw [tally_eq] at ends
      exact ends

/-- A listing under way after `m` calls, all of the `k` answers of the service being good pages:
what is ready is the rest of the last of them. -/
structure Runs (l : Lister) (source : List Pull) (m k : Nat) (w : Listing) : Prop where
  running : w.finished = false
  good : ∀ pull ∈ firstPulls source k, l.isGood pull = true
  count : m + w.ready.length = ((firstPulls source k).flatMap l.objectsOf).length
  rest : w.ready ≠ [] → ∃ i, k = i + 1 ∧ w.ready <:+ l.objectsOf (source.getD i .over)

/-- A listing that one of the `k` answers has brought to its end. -/
structure Ends (l : Lister) (source : List Pull) (k : Nat) (w : Listing) : Prop where
  finished : w.finished = true
  none_ready : w.ready = []
  bad : ∃ pull ∈ firstPulls source k, l.isGood pull = false

/-- What a call comes to that is the `m`-th, `k` answers of the service having been asked for by
then: an object of the last of them, or none, at the end. -/
inductive Yields (l : Lister) (source : List Pull) (m k : Nat) : Answer × Listing → Prop
  | object {path : String} {o : Object} {w : Listing} {i : Nat} (last : k = i + 1)
      (mem : o ∈ l.objectsOf (source.getD i .over)) (runs : l.Runs source m k w) :
      Yields l source m k (.object path o, w)
  | ending {answer : Answer} {w : Listing} (no_object : ∀ path o, answer ≠ .object path o)
      (ends : l.Ends source k w) : Yields l source m k (answer, w)

/-- A listing after `m` calls, for which `k` answers of the service were asked. -/
structure Stage (l : Lister) (source : List Pull) (sent : Tally) (m k : Nat) (w : Listing) :
    Prop where
  source_eq : w.source = source.drop k
  tally_eq : w.tally = sent.add l (firstPulls source k)
  /-- One answer less, and it would still have run and needed the next. -/
  before : ∀ j < k, (∀ pull ∈ firstPulls source j, l.isGood pull = true) ∧
    ((firstPulls source j).flatMap l.objectsOf).length < m
  state : l.Runs source m k w ∨ l.Ends source k w

variable {sent : Tally} {w : Listing} {call : Answer × Listing}

theorem Yields.state (yields : l.Yields source m k call) :
    l.Runs source m k call.2 ∨ l.Ends source k call.2 := by
  cases yields with
  | object _ _ runs => exact .inl runs
  | ending _ ends => exact .inr ends

/-- What was asked for is the least that decides the answers. -/
theorem Stage.fewest (stage : l.Stage source sent m k w) (bucket : String) :
    IsLeast {j | l.Decides bucket (firstPulls source j) m} k := by
  refine ⟨decides_iff.2 ?_, fun j decides => ?_⟩
  · obtain runs | ends := stage.state
    · have := runs.count
      exact .inl (by omega)
    · exact .inr ends.bad
  · by_contra less
    obtain ⟨good, few⟩ := stage.before j (Nat.lt_of_not_le less)
    obtain enough | ⟨pull, mem, bad⟩ := decides_iff.1 decides
    · omega
    · rw [good pull mem] at bad
      cases bad

theorem stage_list (l : Lister) (request : ListRequest) (tally : Tally) :
    l.Stage (l.paginate request) { tally with requests := tally.requests ++ [request] } 0 0
      (l.list request tally) where
  source_eq := rfl
  tally_eq := (Tally.add_nil _).symm
  before := nofun
  state := .inl ⟨rfl, nofun, rfl, fun ready => absurd rfl ready⟩

/-- Pages without objects are passed over: all is good as before, and no more has come. -/
theorem Runs.pass_over (runs : l.Runs source m k w) (none_ready : w.ready = []) {e : Nat}
    (blank : ∀ pull ∈ firstPulls (source.drop k) e, l.isGood pull = true ∧ l.objectsOf pull = []) :
    (∀ pull ∈ firstPulls source (k + e), l.isGood pull = true) ∧
      ((firstPulls source (k + e)).flatMap l.objectsOf).length = m := by
  have nothing : (firstPulls (source.drop k) e).flatMap l.objectsOf = [] :=
    List.flatMap_eq_nil_iff.2 fun pull mem => (blank pull mem).2
  rw [firstPulls_add]
  constructor
  · exact List.forall_mem_append.2 ⟨runs.good, fun pull mem => (blank pull mem).1⟩
  · rw [List.flatMap_append, nothing, List.append_nil, ← runs.count, none_ready]
    rfl

/-- A call that pulls pulls as far as it has to. -/
theorem Stage.pull (stage : l.Stage source sent m k w) (runs : l.Runs source m k w)
    (none_ready : w.ready = []) :
    ∃ k', k < k' ∧ l.Yields source (m + 1) k' (l.pull w w.source) ∧
      l.Stage source sent (m + 1) k' (l.pull w w.source).2 := by
  obtain ⟨e, blank, pulled⟩ := l.pull_spec w.source w
  rw [stage.source_eq] at blank pulled ⊢
  have shift : (source.drop k).getD e .over = source.getD (k + e) .over := by
    simp [List.getD_eq_getElem?_getD]
  rw [shift, stage.tally_eq, ← Tally.add_append, ← firstPulls_add, List.drop_drop] at pulled
  obtain ⟨good, count⟩ := runs.pass_over none_ready blank
  -- before the last answer there were at most `m` objects, and nothing that ends the listing
  have before : ∀ j < k + (e + 1), (∀ pull ∈ firstPulls source j, l.isGood pull = true) ∧
      ((firstPulls source j).flatMap l.objectsOf).length < m + 1 := by
    intro j less
    have le : j ≤ k + e := Nat.le_of_lt_succ less
    have := length_objects_le l source le
    exact ⟨fun pull mem => good pull (mem_firstPulls_of_le le mem), by omega⟩
  have last : firstPulls source (k + (e + 1)) =
      firstPulls source (k + e) ++ [source.getD (k + e) .over] := firstPulls_succ source (k + e)
  refine ⟨k + (e + 1), by omega, ?_⟩
  obtain ⟨answer, no_object, bad, ends⟩ | ⟨o, rest, isGood, objects, hands⟩ := pulled
  · have yields : l.Yields source (m + 1) (k + (e + 1)) (l.pull w (source.drop k)) := by
      rw [ends]
      refine .ending no_object ⟨rfl, none_ready, _, ?_, bad⟩
      rw [last]
      exact List.mem_concat_self
    exact ⟨yields, by rw [ends], by rw [ends], before, yields.state⟩
  · have count' : m + 1 + rest.length =
        ((firstPulls source (k + (e + 1))).flatMap l.objectsOf).length := by
      rw [last, List.flatMap_append, List.length_append, count, List.flatMap_singleton, objects,
        List.length_cons]
      omega
    have yields : l.Yields source (m + 1) (k + (e + 1)) (l.pull w (source.drop k)) := by
      rw [hands]
      refine .object (i := k + e) rfl (by rw [objects]; exact List.mem_cons_self)
        ⟨runs.running, ?_, count', fun _ => ⟨k + e, rfl, ?_⟩⟩
      · rw [last]
        exact List.forall_mem_append.2 ⟨good, by simpa using isGood⟩
      · rw [objects]
        exact List.suffix_cons o rest
    exact ⟨yields, by rw [hands]; rfl, by rw [hands]; rfl, before, yields.state⟩

/-- One call takes a listing from one stage to the next, and pulls only where nothing is ready. -/
theorem Stage.next (stage : l.Stage source sent m k w) :
    ∃ k', k ≤ k' ∧ (k < k' → w.ready = [] ∧ l.Runs source m k w) ∧
      l.Yields source (m + 1) k' (l.next w) ∧ l.Stage source sent (m + 1) k' (l.next w).2 := by
  have before : ∀ j < k, (∀ pull ∈ firstPulls source j, l.isGood pull = true) ∧
      ((firstPulls source j).flatMap l.objectsOf).length < m + 1 := fun j less =>
    ⟨(stage.before j less).1, Nat.lt_succ_of_lt (stage.before j less).2⟩
  have stays : ¬ k < k := Nat.lt_irrefl k
  unfold Lister.next
  obtain runs | ends := stage.state
  · cases ready : w.ready with
    | nil =>
      rw [if_neg (by simp [runs.running])]
      obtain ⟨k', less, next⟩ := stage.pull runs ready
      exact ⟨k', Nat.le_of_lt less, fun _ => ⟨rfl, runs⟩, next⟩
    | cons o rest =>
      obtain ⟨i, last, suffix⟩ := runs.rest (by rw [ready]; exact List.cons_ne_nil o rest)
      rw [ready] at suffix
      have count := runs.count
      rw [ready, List.length_cons] at count
      have count' : m + 1 + rest.length = ((firstPulls source k).flatMap l.objectsOf).length := by
        omega
      have yields : l.Yields source (m + 1) k (handOut w o rest) :=
        .object last (suffix.subset List.mem_cons_self) ⟨runs.running, runs.good, count',
          fun _ => ⟨i, last, (List.suffix_cons o rest).trans suffix⟩⟩
      exact ⟨k, Nat.le_refl k, fun less => absurd less stays, yields, stage.source_eq,
        stage.tally_eq, before, yields.state⟩
  · rw [ends.none_ready, ends.finished]
    exact ⟨k, Nat.le_refl k, fun less => absurd less stays, .ending nofun ends, stage.source_eq,
      stage.tally_eq, before, .inr ends⟩

theorem stage_after (l : Lister) (request : ListRequest) (tally : Tally) (m : Nat) :
    ∃ k, l.Stage (l.paginate request) { tally with requests := tally.requests ++ [request] } m k
      (l.after (l.list request tally) m) := by
  induction m with
  | zero => exact ⟨0, l.stage_list request tally⟩
  | succ m ih =>
    obtain ⟨k, stage⟩ := ih
    obtain ⟨k', -, -, -, next⟩ := stage.next
    exact ⟨k', next⟩

/-- What the first `m` calls on a listing hand out. -/
def handedOut (l : Lister) (w : Listing) (m : Nat) : List Answer :=
  (List.range m).map fun n => (l.next (l.after w n)).1

/-- What has been asked for after `m` calls on a listing: `k` answers of the service, the fewest
that decide what the calls hand out, in return for one request; and the times of the pages among
them were tried one by one. -/
structure Accounts (l : Lister) (request : ListRequest) (tally : Tally) (m k : Nat) (w : Listing) :
    Prop where
  fewest : IsLeast {j | l.Decides request.bucket (firstPulls (l.paginate request) j) m} k
  source_eq : w.source = (l.paginate request).drop k
  tally_eq : w.tally = Tally.add { tally with requests := tally.requests ++ [request] } l
    (firstPulls (l.paginate request) k)

/-- What the next call does on a listing that started as `w`, has had `m` calls and `k` answers of
the service, and has `k'` of them afterwards. -/
structure Proceeds (l : Lister) (source : List Pull) (w : Listing) (m k k' : Nat) : Prop where
  /-- It pulls only if the objects of all pages so far have been handed out. -/
  pulls : k < k' → l.handedOut w m = ((firstPulls source k).flatMap l.objectsOf).map
    fun o => .object (w.bucket ++ "/" ++ o.key) o
  /-- An object that it hands out is one of the last page pulled, and all times of that page have
  been tried. -/
  whole : ∀ path o, (l.next (l.after w m)).1 = .object path o → ∃ i p, k' = i + 1 ∧
    source.getD i .over = .page p ∧ o ∈ l.objectsOf (.page p) ∧
    l.tried (.page p) = p.contents.map (·.lastModified)
  /-- If it hands out no object, nothing is done ever after. -/
  stops : (∀ path o, (l.next (l.after w m)).1 ≠ .object path o) →
    ∀ n, m < n → l.after w n = l.after w (m + 1)

/-- Good pages are answers that the service really gives, and not what comes after them. -/
theorem firstPulls_append_drop (good : ∀ pull ∈ firstPulls source k, l.isGood pull = true) :
    firstPulls source k ++ source.drop k = source := by
  induction k generalizing source with
  | zero => rfl
  | succ k ih =>
    cases source with
    | nil =>
      rw [Nat.add_comm, firstPulls_add] at good
      have over_good : l.isGood .over = true := good .over List.mem_cons_self
      cases over_good
    | cons pull source =>
      rw [firstPulls_cons] at good ⊢
      rw [List.drop_succ_cons, List.cons_append, ih (List.forall_mem_cons.1 good).2]

/-- As long as all pages are good and handed out, what was handed out are their objects. -/
theorem Runs.handedOut_eq {request : ListRequest} {tally : Tally} {w : Listing}
    (runs : l.Runs (l.paginate request) m k w) (none_ready : w.ready = []) :
    l.handedOut (l.list request tally) m =
      ((firstPulls (l.paginate request) k).flatMap l.objectsOf).map
        fun o => .object (request.bucket ++ "/" ++ o.key) o := by
  have ahead : l.outlook (l.list request tally) =
      ((firstPulls (l.paginate request) k).flatMap l.objectsOf).map
          (fun o => .object (request.bucket ++ "/" ++ o.key) o) ++
        l.answers request.bucket ((l.paginate request).drop k) := by
    rw [← answers_append runs.good, firstPulls_append_drop runs.good]
    rfl
  have count := runs.count
  rw [none_ready, List.length_nil, Nat.add_zero] at count
  apply List.ext_getElem
  · simpa [handedOut] using count
  · intro n less _
    have inside : n < ((firstPulls (l.paginate request) k).flatMap l.objectsOf).length := by
      simpa [handedOut, count] using less
    simp only [handedOut, List.getElem_map, List.getElem_range]
    rw [getD_outlook, ahead, getD_objects inside]

/-- A finished listing with nothing ready stays as it is. -/
theorem after_of_finished {w : Listing} {m : Nat} (finished : (l.after w m).finished = true)
    (none_ready : (l.after w m).ready = []) (n : Nat) (le : m ≤ n) :
    l.after w n = l.after w m := by
  have idle : l.next (l.after w m) = (.over, l.after w m) := by
    rw [next, none_ready, finished]
    rfl
  induction n, le using Nat.le_induction with
  | base => rfl
  | succ n _ ih =>
    show (l.next (l.after w n)).2 = _
    rw [ih, idle]

theorem Yields.ends (yields : l.Yields source m k call)
    (no_object : ∀ path o, call.1 ≠ .object path o) : l.Ends source k call.2 := by
  cases yields with
  | object => exact absurd rfl (no_object _ _)
  | ending _ ends => exact ends

/-- A page is read whole before its first object is handed out. -/
theorem Yields.whole {path : String} {o : Object} (yields : l.Yields source m k call)
    (object : call.1 = .object path o) : ∃ i p, k = i + 1 ∧ source.getD i .over = .page p ∧
      o ∈ l.objectsOf (.page p) ∧ l.tried (.page p) = p.contents.map (·.lastModified) := by
  cases yields with
  | ending no_object => exact absurd object (no_object path o)
  | @object _ _ _ i last mem =>
    cases object
    match pulled : source.getD i .over with
    | .page p =>
      rw [pulled] at mem
      cases readable : l.objects? p.contents with
      | none =>
        rw [objectsOf, readable] at mem
        cases mem
      | some objects => exact ⟨i, p, last, pulled, mem, tried_of_good readable⟩
    | .failed _ | .over =>
      rw [pulled] at mem
      cases mem

/-- A listing sends one request, with all that it was started with, and asks for nothing else until
it is called. What its calls then ask for is told by how many they are, and each of them asks for no
more than it needs. -/
theorem listing_asks_on_demand (l : Lister) (request : ListRequest) (tally : Tally) (m : Nat) :
    (l.list request tally).tally = { tally with requests := tally.requests ++ [request] } ∧
      (∀ bucket keyStart pageSize extra, l.listObjects bucket keyStart pageSize extra tally =
        l.list ⟨bucket, keyStart, pageSize, extra.getD .empty⟩ tally) ∧
      ∃ k k', l.Accounts request tally m k (l.after (l.list request tally) m) ∧
        l.Accounts request tally (m + 1) k' (l.after (l.list request tally) (m + 1)) ∧
        l.Proceeds (l.paginate request) (l.list request tally) m k k' := by
  obtain ⟨k, stage⟩ := l.stage_after request tally m
  obtain ⟨k', -, pulls, yields, next⟩ := stage.next
  refine ⟨rfl, fun _ _ _ _ => rfl, k, k',
    ⟨stage.fewest request.bucket, stage.source_eq, stage.tally_eq⟩,
    ⟨next.fewest request.bucket, next.source_eq, next.tally_eq⟩, fun less => ?_,
    fun path o object => yields.whole object, fun no_object n less => ?_⟩
  · obtain ⟨none_ready, runs⟩ := pulls less
    exact runs.handedOut_eq none_ready
  · have ends := yields.ends no_object
    exact after_of_finished (m := m + 1) ends.finished ends.none_ready n less

end Lister
end Ferry.Store
