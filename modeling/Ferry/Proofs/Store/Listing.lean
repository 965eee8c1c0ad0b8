import Ferry.Store.Listing

/-!
What a listing hands out, as one list: the objects of all pages before the first that is no good,
and then the reason why that one is not (`Lister.answers`). A listing under way is at some place of
that list; `Lister.outlook` is what lies ahead of it there, and one call takes its first answer off.
-/
namespace Ferry.Store.Lister

/-- The objects of a page, if the time of each of them can be read. -/
def objects? (l : Lister) (contents : List Listed) : Option (List Object) :=
  contents.mapM fun o => (l.readTime o.lastModified).map fun time =>
    ⟨o.key, time, o.size, o.eTag, o.storageClass⟩

/-- Whether an answer of the service is a page whose times can all be read. -/
def isGood (l : Lister) : Pull → Bool
  | .page p => (l.objects? p.contents).isSome
  | _ => false

def objectsOf (l : Lister) : Pull → List Object
  | .page p => (l.objects? p.contents).getD []
  | _ => []

/-- What is handed out for the first answer of the service that is no good page, if there is one:
its own error, or the first time of the page that cannot be read. -/
def ending (l : Lister) : Option Pull → List Answer
  | some (.failed reason) => [.failed (.request reason)]
  | some (.page p) =>
    match p.contents.find? fun o => (l.readTime o.lastModified).isNone with
    | some o => [.failed (.timestamp o.key o.lastModified)]
    | none => []
  | some .over => []
  | none => []

/-- What a listing of a bucket hands out before it is over. -/
def answers (l : Lister) (bucket : String) (source : List Pull) : List Answer :=
  ((source.takeWhile l.isGood).flatMap l.objectsOf).map
      (fun o => .object (bucket ++ "/" ++ o.key) o) ++
    l.ending (source.find? fun pull => !l.isGood pull)

/-- A listing after a number of calls. -/
def after (l : Lister) (w : Listing) : Nat → Listing
  | 0 => w
  | n + 1 => (l.next (l.after w n)).2

/-- What a listing under way has still to hand out. -/
def outlook (l : Lister) (w : Listing) : List Answer :=
  w.ready.map (fun o => .object (w.bucket ++ "/" ++ o.key) o) ++
    if w.finished then [] else l.answers w.bucket w.source

variable {l : Lister} {bucket : String} {source : List Pull}

/-- The times of a page are read in order, up to the first that cannot be. -/
theorem objects?_cons (l : Lister) (o : Listed) (os : List Listed) :
    l.objects? (o :: os) =
      (l.readTime o.lastModified).bind fun time => (l.objects? os).map (o.at time :: ·) := by
  rw [objects?, List.mapM_cons]
  cases l.readTime o.lastModified with
  | none => rfl
  | some time =>
    show (l.objects? os).bind _ = (l.objects? os).map _
    cases l.objects? os <;> rfl

theorem readObjects_of_some :
    ∀ {contents : List Listed} {objects : List Object}, l.objects? contents = some objects →
      ∃ tried, l.readObjects contents = (tried, .ok objects) := by
  intro contents
  induction contents with
  | nil =>
    intro objects good
    obtain rfl : [] = objects := Option.some.inj good
    exact ⟨[], rfl⟩
  | cons o os ih =>
    intro objects good
    rw [objects?_cons, Option.bind_eq_some_iff] at good
    obtain ⟨time, readable, good⟩ := good
    obtain ⟨rest, good_rest, rfl⟩ := Option.map_eq_some_iff.1 good
    obtain ⟨tried, read⟩ := ih good_rest
    refine ⟨o.lastModified :: tried, ?_⟩
    simp only [readObjects, readable, read]
    rfl

theorem readObjects_of_none :
    ∀ {contents : List Listed}, l.objects? contents = none →
      ∃ o tried, (contents.find? fun o => (l.readTime o.lastModified).isNone) = some o ∧
        l.readObjects contents = (tried, .error (.timestamp o.key o.lastModified)) := by
  intro contents
  induction contents with
  | nil => exact nofun
  | cons o os ih =>
    intro bad
    rw [objects?_cons] at bad
    rw [readObjects, List.find?_cons]
    cases readable : l.readTime o.lastModified with
    | none => exact ⟨o, [o.lastModified], rfl, rfl⟩
    | some time =>
      rw [readable, Option.bind_some, Option.map_eq_none_iff] at bad
      obtain ⟨first, tried, is_first, read⟩ := ih bad
      refine ⟨first, o.lastModified :: tried, is_first, ?_⟩
      simp only [read]
      rfl

theorem answers_good {p : Page} {objects : List Object}
    (good : l.objects? p.contents = some objects) :
    l.answers bucket (.page p :: source) =
      objects.map (fun o => .object (bucket ++ "/" ++ o.key) o) ++ l.answers bucket source := by
  have isGood : l.isGood (.page p) = true := by rw [Lister.isGood, good]; rfl
  have objectsOf : l.objectsOf (.page p) = objects := by rw [Lister.objectsOf, good]; rfl
  rw [answers, List.takeWhile_cons_of_pos isGood, List.flatMap_cons, List.map_append, objectsOf,
    List.find?_cons_of_neg (by rw [isGood]; simp), List.append_assoc]
  rfl

theorem answers_bad {p : Page} {o : Listed} (bad : l.objects? p.contents = none)
    (first : (p.contents.find? fun o => (l.readTime o.lastModified).isNone) = some o) :
    l.answers bucket (.page p :: source) = [.failed (.timestamp o.key o.lastModified)] := by
  have isBad : l.isGood (.page p) = false := by rw [Lister.isGood, bad]; rfl
  rw [answers, List.takeWhile_cons_of_neg (by rw [isBad]; simp),
    List.find?_cons_of_pos (by rw [isBad]; rfl), ending, first]
  rfl

/-- Pulling takes the first answer off what lies ahead; where nothing does, it is the end. -/
theorem pull_outlook (l : Lister) (source : List Pull) :
    ∀ w : Listing, w.ready = [] → w.finished = false →
      (l.pull w source).1 = (l.answers w.bucket source).headD .over ∧
        l.outlook (l.pull w source).2 = (l.answers w.bucket source).tail := by
  -- a listing that is finished has nothing ahead, whatever the service would still answer
  have finished : ∀ w : Listing, w.ready = [] → w.finished = true → l.outlook w = [] := by
    intro w none_ready stopped
    rw [outlook, none_ready, stopped]
    rfl
  induction source with
  | nil => exact fun w none_ready _ => ⟨rfl, finished _ none_ready rfl⟩
  | cons pull source ih =>
    intro w none_ready running
    match pull with
    | .over => exact ⟨rfl, finished _ none_ready rfl⟩
    | .failed reason => exact ⟨rfl, finished _ none_ready rfl⟩
    | .page p =>
      cases readable : l.objects? p.contents with
      | none =>
        obtain ⟨o, tried, first, read⟩ := readObjects_of_none readable
        rw [answers_bad readable first, Lister.pull, read]
        exact ⟨rfl, finished _ none_ready rfl⟩
      | some objects =>
        obtain ⟨tried, read⟩ := readObjects_of_some readable
        rw [answers_good readable, Lister.pull, read]
        cases objects with
        -- an empty page hands out nothing, and the next one is pulled within the same call
        | nil => exact ih _ none_ready running
        | cons o rest =>
          refine ⟨rfl, ?_⟩
          show rest.map _ ++ (if w.finished then [] else _) = _
          rw [running]
          rfl

/-- One call hands out the first answer that lies ahead. -/
theorem next_outlook (l : Lister) (w : Listing) :
    (l.next w).1 = (l.outlook w).headD .over ∧ l.outlook (l.next w).2 = (l.outlook w).tail := by
  unfold next
  cases ready : w.ready with
  | cons o rest =>
    rw [outlook, ready]
    exact ⟨rfl, rfl⟩
  | nil =>
    cases running : w.finished with
    | true =>
      rw [if_pos rfl, outlook, ready, running]
      exact ⟨rfl, rfl⟩
    | false =>
      rw [if_neg (by simp), outlook, ready, running]
      exact l.pull_outlook w.source w ready running

theorem outlook_after (l : Lister) (w : Listing) (n : Nat) :
    l.outlook (l.after w n) = (l.outlook w).drop n := by
  induction n with
  | zero => rfl
  | succ n ih =>
    show l.outlook (l.next (l.after w n)).2 = _
    rw [(l.next_outlook _).2, ih, List.tail_drop]

theorem getD_outlook (l : Lister) (w : Listing) (n : Nat) :
    (l.next (l.after w n)).1 = (l.outlook w).getD n .over := by
  rw [(l.next_outlook _).1, outlook_after, List.headD_eq_head?_getD, List.head?_drop,
    List.getD_eq_getElem?_getD]

/-- The calls on a listing hand out its answers, one each, and from then on it is over: whatever the
service answers, after a failure or after its end too, and however times are read. -/
theorem listing_hands_out_answers (l : Lister) (request : ListRequest) (tally : Tally) (n : Nat) :
    (l.next (l.after (l.list request tally) n)).1 =
      (l.answers request.bucket (l.paginate request)).getD n .over := by
  have ahead : l.outlook (l.list request tally) =
      l.answers request.bucket (l.paginate request) := rfl
  rw [(l.next_outlook _).1, outlook_after, ahead, List.headD_eq_head?_getD, List.head?_drop,
    List.getD_eq_getElem?_getD]

end Ferry.Store.Lister
