import Ferry.Proofs.Transfer.Calls
import Ferry.Transfer.Observer

/-!
The hooks of a transfer, over everything that can happen to it: it is announced as queued or as
done, to one set of observers or to several, it is called off, a failure is recorded; and all of
that from outside or by one of the hooks.

`callEach` calls hooks one after another, each on what the one before left. The queued hooks are
called so up to the first that fails, and the done hooks all (`runUntilFailure_fires`,
`runAll_fires`). Which announcement fires them is told by the calls made before, those of hooks
included: the first one, and as queued only a transfer that none of them calls off
(`countsAsQueued_iff`, `countsAsDone_iff`). A run makes the calls of its events, each followed by
those of the hooks that it fires (`through_told`, `sublist_told`).
-/
namespace Ferry.Transfer

variable {ω : Type} {scene s : Scene ω}

/-- Calls hooks one after another, each once and on what the one before left: their answers, and
what they leave. -/
def callEach : List (Hook ω) → Scene ω → List (Except HookError Unit) × Scene ω
  | [], scene => ([], scene)
  | hook :: hooks, scene =>
    let (answer, scene) := hook scene
    let (answers, scene) := callEach hooks scene
    (answer :: answers, scene)

/-- The hooks up to and including the first that fails are called, and its failure is the answer;
where none fails, all are called. -/
def FiresUntilFailure (hooks : List (Hook ω)) (scene : Scene ω) (answer : Except HookError Unit)
    (left : Scene ω) : Prop :=
  ∃ fired others answers, hooks = fired ++ others ∧ callEach fired scene = (answers, left) ∧
    ((others = [] ∧ (∀ r ∈ answers, r = .ok ()) ∧ answer = .ok ()) ∨
      ∃ good e, answers = good ++ [.error e] ∧ (∀ r ∈ good, r = .ok ()) ∧ answer = .error e)

/-- All hooks are called, and the failure of the first that fails is the answer. -/
def FiresAll (hooks : List (Hook ω)) (scene : Scene ω) (answer : Except HookError Unit)
    (left : Scene ω) : Prop :=
  ∃ answers, callEach hooks scene = (answers, left) ∧
    (((∀ r ∈ answers, r = .ok ()) ∧ answer = .ok ()) ∨
      ∃ good e others, answers = good ++ .error e :: others ∧ (∀ r ∈ good, r = .ok ()) ∧
        answer = .error e)

theorem callEach_cons {hook : Hook ω} {hooks : List (Hook ω)} {scene next left : Scene ω}
    {answer : Except HookError Unit} {answers : List (Except HookError Unit)}
    (first : hook scene = (answer, next)) (rest : callEach hooks next = (answers, left)) :
    callEach (hook :: hooks) scene = (answer :: answers, left) := by
  simp only [callEach, first, rest]

/-- Answers that begin well, and well throughout if the later ones do. -/
theorem forall_mem_ok_cons {answers : List (Except HookError Unit)}
    (good : ∀ r ∈ answers, r = .ok ()) : ∀ r ∈ Except.ok () :: answers, r = .ok () := by
  intro r hr
  rcases List.mem_cons.1 hr with rfl | hr
  · rfl
  · exact good r hr

theorem runUntilFailure_fires (hooks : List (Hook ω)) (scene : Scene ω) :
    FiresUntilFailure hooks scene (runUntilFailure hooks scene).1
      (runUntilFailure hooks scene).2 := by
  induction hooks generalizing scene with
  | nil => exact ⟨[], [], [], rfl, rfl, .inl ⟨rfl, nofun, rfl⟩⟩
  | cons hook hooks ih =>
    rcases first : hook scene with ⟨e | _, next⟩
    · -- a failure: the others are left alone
      have stops : runUntilFailure (hook :: hooks) scene = (.error e, next) := by
        simp only [runUntilFailure, Hook.andThen, first]
      rw [stops]
      exact ⟨[hook], hooks, [.error e], rfl, callEach_cons first rfl,
        .inr ⟨[], e, rfl, nofun, rfl⟩⟩
    · have goes : runUntilFailure (hook :: hooks) scene = runUntilFailure hooks next := by
        simp only [runUntilFailure, Hook.andThen, first]
      rw [goes]
      obtain ⟨fired, others, answers, rfl, called, ends⟩ := ih next
      refine ⟨hook :: fired, others, .ok () :: answers, rfl, callEach_cons first called, ?_⟩
      rcases ends with ⟨rfl, good, ok⟩ | ⟨good, e, rfl, fine, fails⟩
      · exact .inl ⟨rfl, forall_mem_ok_cons good, ok⟩
      · exact .inr ⟨.ok () :: good, e, rfl, forall_mem_ok_cons fine, fails⟩

theorem runAll_fires (hooks : List (Hook ω)) (scene : Scene ω) :
    FiresAll hooks scene (runAll hooks scene).1 (runAll hooks scene).2 := by
  induction hooks generalizing scene with
  | nil => exact ⟨[], rfl, .inl ⟨nofun, rfl⟩⟩
  | cons hook hooks ih =>
    rcases first : hook scene with ⟨e | _, next⟩
    · obtain ⟨answers, called, _⟩ := ih next
      have fails : runAll (hook :: hooks) scene = (.error e, (runAll hooks next).2) := by
        simp only [runAll, Hook.andAlso, first]
      rw [fails]
      exact ⟨.error e :: answers, callEach_cons first called,
        .inr ⟨[], e, answers, rfl, nofun, rfl⟩⟩
    · obtain ⟨answers, called, ends⟩ := ih next
      have goes : runAll (hook :: hooks) scene = runAll hooks next := by
        simp only [runAll, Hook.andAlso, first]
      rw [goes]
      refine ⟨.ok () :: answers, callEach_cons first called, ?_⟩
      rcases ends with ⟨good, ok⟩ | ⟨good, e, others, rfl, fine, fails⟩
      · exact .inl ⟨forall_mem_ok_cons good, ok⟩
      · exact .inr ⟨.ok () :: good, e, others, rfl, forall_mem_ok_cons fine, fails⟩

/-- The calls that hooks make when they are called one after another. -/
theorem exists_through_callEach (hooks : List (Hook ω)) (scene : Scene ω) :
    ∃ calls, Through calls scene (callEach hooks scene).2 := by
  induction hooks generalizing scene with
  | nil => exact ⟨[], rfl⟩
  | cons hook hooks ih =>
    obtain ⟨later, acts⟩ := ih (hook scene).2
    exact ⟨hook.calls scene ++ later, (hook.acts scene).trans acts⟩

/-- What can happen to a transfer from outside. Each announcement brings its own observers. -/
inductive Event (ω : Type)
  | queued (observers : List (Observer ω))
  | done (observers : List (Observer ω))
  | call (c : Call)

/-- What an event leaves. -/
def Scene.after (scene : Scene ω) : Event ω → Scene ω
  | .queued observers => (notifyQueued observers scene).2
  | .done observers => (notifyDone observers scene).2
  | .call c => c.apply scene

/-- What events leave, one after another. -/
def Scene.run (scene : Scene ω) : List (Event ω) → Scene ω
  | [] => scene
  | e :: events => (scene.after e).run events

/-- The call that an event is, whatever observers it brings. -/
def Event.asCall : Event ω → Call
  | queued _ => .announceQueued
  | done _ => .announceDone
  | call c => c

/-- The calls of an event: the event itself, and after it those of the hooks that it fires. -/
def Event.calls (scene : Scene ω) : Event ω → List Call
  | queued observers => (notifyQueued observers).calls scene
  | done observers => (notifyDone observers).calls scene
  | call c => [c]

/-- The calls of a run, in their order. -/
def told (scene : Scene ω) : List (Event ω) → List Call
  | [] => []
  | e :: events => e.calls scene ++ told (scene.after e) events

theorem through_calls (e : Event ω) (scene : Scene ω) :
    Through (e.calls scene) scene (scene.after e) := by
  cases e with
  | queued observers => exact (notifyQueued observers).acts scene
  | done observers => exact (notifyDone observers).acts scene
  | call c => exact through_callAll [c] scene

theorem through_told (events : List (Event ω)) (scene : Scene ω) :
    Through (told scene events) scene (scene.run events) := by
  induction events generalizing scene with
  | nil => rfl
  | cons e events ih => exact (through_calls e scene).trans (ih (scene.after e))

theorem sublist_told (events : List (Event ω)) (scene : Scene ω) :
    (events.map Event.asCall).Sublist (told scene events) := by
  induction events generalizing scene with
  | nil => exact .slnil
  | cons e events ih =>
    have own : [e.asCall].Sublist (e.calls scene) := by
      cases e <;> exact List.singleton_sublist.2 List.mem_cons_self
    exact own.append (ih (scene.after e))

theorem notifyQueued_of_fresh (live : s.isCancelled = false) (fresh : s.transfer.queued = false)
    (observers : List (Observer ω)) :
    ∃ answer left,
      FiresUntilFailure (observers.filterMap (·.onQueued)) s.markQueued answer left ∧
        notifyQueued observers s = (answer, left) := by
  refine ⟨_, _, runUntilFailure_fires _ s.markQueued, ?_⟩
  simp only [notifyQueued, live, fresh, Bool.or_self, Bool.false_eq_true, if_false]

theorem notifyQueued_eq_self (quiet : s.isCancelled = true ∨ s.transfer.queued = true)
    (observers : List (Observer ω)) : notifyQueued observers s = (.ok (), s) :=
  if_pos (by simpa using quiet)

theorem notifyDone_of_fresh (fresh : s.transfer.done = false) (observers : List (Observer ω)) :
    ∃ answer left, FiresAll (observers.filterMap (·.onDone)) s.markDone answer left ∧
      notifyDone observers s = (answer, left) := by
  refine ⟨_, _, runAll_fires _ s.markDone, ?_⟩
  simp only [notifyDone, fresh, Bool.false_eq_true, if_false]

theorem notifyDone_eq_self (done : s.transfer.done = true) (observers : List (Observer ω)) :
    notifyDone observers s = (.ok (), s) :=
  if_pos done

/-- An announcement that the transfer is queued counts after these calls: none of them calls it off,
and none of them is such an announcement. One that was made while the transfer was called off would
not be in the way, but then the transfer is called off for good. -/
def CountsAsQueued (scene : Scene ω) (calls : List Call) : Prop :=
  ¬ CalledOff scene calls ∧ .announceQueued ∉ calls

/-- An announcement that the transfer is done counts after these calls: it is the first. -/
def CountsAsDone (calls : List Call) : Prop := .announceDone ∉ calls

theorem countsAsQueued_iff {calls : List Call} (fresh : scene.transfer.queued = false)
    (acts : Through calls scene s) : CountsAsQueued scene calls ↔
      s.isCancelled = false ∧ s.transfer.queued = false := by
  have off : s.isCancelled = false ↔ ¬ CalledOff scene calls := by
    rw [← acts.isCancelled_iff, Bool.not_eq_true]
  rw [CountsAsQueued, off]
  refine and_congr_right fun live => ?_
  rw [← Bool.not_eq_true, acts.queued_iff live]
  simp [fresh]

theorem countsAsDone_iff {calls : List Call} (fresh : scene.transfer.done = false)
    (acts : Through calls scene s) : CountsAsDone calls ↔ s.transfer.done = false := by
  rw [CountsAsDone, ← Bool.not_eq_true, acts.done_iff]
  simp [fresh]

/-- Whatever was called before, from outside or by hooks, through whichever sets of observers: the
announcement that counts fires the hooks of its observers, in their order and on a transfer that is
marked already, and any other answers that all is well and leaves everything as it is. So does one
that is made by a hook while the hooks for the same announcement are called. After a call that calls
off the transfer, or what its token was made from, no announcement counts as queued. -/
theorem hooks_fire_once {scene : Scene ω}
    (fresh : scene.transfer.queued = false ∧ scene.transfer.done = false) :
    (∀ events, Through (told scene events) scene (scene.run events) ∧
      (events.map Event.asCall).Sublist (told scene events)) ∧
    (∀ calls s, Through calls scene s → ∀ observers : List (Observer ω),
      (∀ c ∈ calls, c.Cancels scene.transfer.token → notifyQueued observers s = (.ok (), s)) ∧
      ((CountsAsQueued scene calls ∧ ∃ answer left,
          FiresUntilFailure (observers.filterMap (·.onQueued)) s.markQueued answer left ∧
            notifyQueued observers s = (answer, left)) ∨
        (¬ CountsAsQueued scene calls ∧ notifyQueued observers s = (.ok (), s))) ∧
      ((CountsAsDone calls ∧ ∃ answer left,
          FiresAll (observers.filterMap (·.onDone)) s.markDone answer left ∧
            notifyDone observers s = (answer, left)) ∨
        (¬ CountsAsDone calls ∧ notifyDone observers s = (.ok (), s)))) ∧
    ∀ (s : Scene ω) (hooks : List (Hook ω)) (observers : List (Observer ω)),
      notifyQueued observers (callEach hooks s.markQueued).2 =
          (.ok (), (callEach hooks s.markQueued).2) ∧
        notifyDone observers (callEach hooks s.markDone).2 =
          (.ok (), (callEach hooks s.markDone).2) := by
  refine ⟨fun events => ⟨through_told events scene, sublist_told events scene⟩,
    fun calls s acts observers => ⟨fun c mem cancels => ?_, ?_, ?_⟩,
    fun s hooks observers => ⟨?_, ?_⟩⟩
  · exact notifyQueued_eq_self (.inl (acts.isCancelled_iff.2 (.inr ⟨c, mem, cancels⟩))) observers
  · by_cases counts : CountsAsQueued scene calls
    · obtain ⟨live, unmarked⟩ := (countsAsQueued_iff fresh.1 acts).1 counts
      exact .inl ⟨counts, notifyQueued_of_fresh live unmarked observers⟩
    · refine .inr ⟨counts, notifyQueued_eq_self ?_ observers⟩
      rw [countsAsQueued_iff fresh.1 acts, not_and_or, Bool.not_eq_false, Bool.not_eq_false]
        at counts
      exact counts
  · by_cases counts : CountsAsDone calls
    · exact .inl ⟨counts, notifyDone_of_fresh ((countsAsDone_iff fresh.2 acts).1 counts) observers⟩
    · refine .inr ⟨counts, notifyDone_eq_self ?_ observers⟩
      rwa [countsAsDone_iff fresh.2 acts, Bool.not_eq_false] at counts
  · obtain ⟨calls, acts⟩ := exists_through_callEach hooks s.markQueued
    exact notifyQueued_eq_self (.inr (acts.queued rfl)) observers
  · obtain ⟨calls, acts⟩ := exists_through_callEach hooks s.markDone
    exact notifyDone_eq_self (acts.done_iff.2 (.inl rfl)) observers

/-- A download of a batch that can be called off as a whole. -/
def download : Scene (List String) where
  transfer := .submitted none "photos" "sky" none .empty ⟨[1, 0]⟩
  tokens := ⟨2, []⟩
  world := []

/-- A hook that signs, and fails if it is told to. -/
def signing (name : String) (fails : Bool) : Hook (List String) :=
  .of fun scene => (if fails then .error (.hook name) else .ok (), [], scene.world ++ [name])

/-- Three observers and one more, who has the transfer announced again. -/
def crew : List (Observer (List String)) :=
  [⟨some (signing "one" false), some (signing "one" false)⟩,
    ⟨some (notifyQueued [⟨some (signing "again" false), none⟩]), none⟩,
    ⟨some (signing "two" true), some (signing "two" true)⟩,
    ⟨some (signing "three" false), some (signing "three" true)⟩]

/-- Calls off the batch. -/
def callOff : Event (List String) := .call (.cancelToken ⟨[0]⟩)

/-- The download, announced as queued: the second observer fails, and the third is not called. Once
the batch is called off it is not announced as queued any more, had it been before or not, but as
done it still is, to all three. -/
theorem batch_called_off :
    (download.transfer.queued = false ∧ download.transfer.done = false) ∧
    (∃ answer left,
      FiresUntilFailure (crew.filterMap (·.onQueued)) download.markQueued answer left ∧
        notifyQueued crew download = (answer, left)) ∧
    (notifyQueued crew download).1 = .error (.hook "two") ∧
    (notifyQueued crew download).2.world = ["one", "two"] ∧
    notifyQueued crew (download.run [callOff]) = (.ok (), download.run [callOff]) ∧
    let late := download.run [.queued crew, callOff]
    notifyQueued crew late = (.ok (), late) ∧
      (∃ answer left, FiresAll (crew.filterMap (·.onDone)) late.markDone answer left ∧
        notifyDone crew late = (answer, left)) ∧
      (notifyDone crew late).1 = .error (.hook "two") ∧
      (notifyDone crew late).2.world = ["one", "two", "one", "two", "three"] := by
  have fresh : download.transfer.queued = false ∧ download.transfer.done = false := ⟨rfl, rfl⟩
  obtain ⟨runs, rules, -⟩ := hooks_fire_once fresh
  have first : CountsAsQueued download [] := by
    simp [CountsAsQueued, CalledOff, Scene.isCancelled, Transfer.isCancelled, Tokens.isCancelled,
      download]
  have not_done : CountsAsDone (told download [.queued crew, callOff]) := by
    unfold CountsAsDone
    decide
  have above : (Call.cancelToken ⟨[0]⟩).Cancels download.transfer.token :=
    .inr ⟨_, rfl, ⟨[1], rfl⟩⟩
  refine ⟨fresh, ?_, rfl, rfl, ?_, ?_, ?_, rfl, rfl⟩
  · obtain ⟨-, ⟨-, fires⟩ | ⟨later, -⟩, -⟩ := rules [] download rfl crew
    · exact fires
    · exact absurd first later
  · exact (rules _ _ (runs _).1 crew).1 _ ((runs _).2.subset List.mem_cons_self) above
  · refine (rules _ _ (runs _).1 crew).1 _ ((runs _).2.subset ?_) above
    exact List.mem_cons_of_mem _ List.mem_cons_self
  · obtain ⟨-, -, ⟨-, fires⟩ | ⟨later, -⟩⟩ := rules _ _ (runs _).1 crew
    · exact fires
    · exact absurd not_done later

end Ferry.Transfer
