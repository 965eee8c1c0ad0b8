import Ferry.Console.Printer
import Ferry.Proofs.Console.Charset

/-!
What arrives at a sink that is printed to. A sink may take any part of what it is offered, or
nothing, and it may fail, at any write and any flush; `Sink.recorded` is the same sink with a log of
all that happens there. `Writing` has a constructor for each way in which a write can go and
`Printed` one for each way in which a call can end, so that `Printer.run_watched` is an induction on
the calls: as long as none of them fails while it writes, the log holds their texts one after
another, each followed by its flush (`Transcript`).
-/
namespace Ferry.Console

open Ferry.Files

/-- Something that happens at a sink. -/
inductive Event
  /-- A write that takes these bytes. -/
  | took (bytes : List UInt8)
  | failed (e : IoError)
  | flushed (result : Except IoError Unit)

/-- The bytes that an event brings. -/
def Event.bytes : Event → List UInt8
  | .took bytes => bytes
  | _ => []

def Event.isFlush : Event → Bool
  | .flushed _ => true
  | _ => false

/-- The bytes that a sink has received. -/
def received (log : List Event) : List UInt8 := log.flatMap Event.bytes

/-- How often a sink has been flushed. -/
def flushes (log : List Event) : Nat := log.countP Event.isFlush

theorem received_append (log log' : List Event) :
    received (log ++ log') = received log ++ received log' := List.flatMap_append

theorem flushes_append (log log' : List Event) :
    flushes (log ++ log') = flushes log + flushes log' := List.countP_append

/-- What writing all of some bytes can come to: the answer, and what happens at the sink. -/
inductive Writing : List UInt8 → Except IoError Unit → List Event → Prop
  | done : Writing [] (.ok ()) []
  | took {part rest : List UInt8} {result log} (some_taken : part ≠ [])
    (later : Writing rest result log) : Writing (part ++ rest) result (.took part :: log)
  /-- Nothing is taken of what is left. -/
  | stuck {bytes : List UInt8} (left : bytes ≠ []) : Writing bytes (.error .noRoom) [.took []]
  | failed {bytes : List UInt8} (left : bytes ≠ []) (e : IoError) :
    Writing bytes (.error e) [.failed e]

section
variable {bytes : List UInt8} {result : Except IoError Unit} {e : IoError} {log : List Event}

/-- What is received and what is left when writing ends are all the bytes; something is left exactly
if it fails. -/
theorem Writing.exists_left (writing : Writing bytes result log) :
    ∃ left, bytes = received log ++ left ∧ (left = [] ↔ result = .ok ()) := by
  induction writing with
  | done => exact ⟨[], rfl, by simp⟩
  | @took part rest result log some_taken later ih =>
    obtain ⟨left, rfl, ends⟩ := ih
    exact ⟨left, (List.append_assoc part (received log) left).symm, ends⟩
  | @stuck bytes left => exact ⟨bytes, rfl, by simp [left]⟩
  | @failed bytes left e => exact ⟨bytes, rfl, by simp [left]⟩

theorem Writing.received_eq (writing : Writing bytes (.ok ()) log) : received log = bytes := by
  obtain ⟨left, whole, ends⟩ := writing.exists_left
  rw [whole, ends.2 rfl, List.append_nil]

/-- Where writing fails, what is received is a strict prefix. -/
theorem Writing.received_prefix (writing : Writing bytes (.error e) log) :
    received log <+: bytes ∧ received log ≠ bytes := by
  obtain ⟨left, whole, ends⟩ := writing.exists_left
  refine ⟨⟨left, whole.symm⟩, fun all => ?_⟩
  have nothing_left : left = [] := by
    rw [all] at whole
    exact List.self_eq_append_right.1 whole
  exact nomatch ends.1 nothing_left

theorem Writing.flushes_eq (writing : Writing bytes result log) : flushes log = 0 := by
  induction writing with
  | took _ _ ih => exact ih
  | _ => rfl

end

variable {σ : Type}

namespace Sink

/-- A sink with a log of what happens there. -/
def recorded (k : Sink σ) : Sink (σ × List Event) where
  write s bytes :=
    match k.write s.1 bytes with
    | (.ok n, t) => (.ok n, t, s.2 ++ [.took (bytes.take n)])
    | (.error e, t) => (.error e, t, s.2 ++ [.failed e])
  flush s :=
    let (result, t) := k.flush s.1
    (result, t, s.2 ++ [.flushed result])

/-- The log does not change what the sink does, and shows how writing goes. -/
theorem writeLoop_recorded (k : Sink σ) (tries : Nat) :
    ∀ (s : σ) (log : List Event) (bytes : List UInt8), bytes.length ≤ tries →
      ∃ own, Writing bytes (k.writeLoop tries s bytes).1 own ∧
        k.recorded.writeLoop tries (s, log) bytes =
          ((k.writeLoop tries s bytes).1, (k.writeLoop tries s bytes).2, log ++ own) := by
  induction tries with
  | zero =>
    intro s log bytes enough
    obtain rfl := List.length_eq_zero_iff.1 (Nat.le_zero.1 enough)
    exact ⟨[], .done, by rw [writeLoop, writeLoop, List.append_nil]⟩
  | succ tries ih =>
    intro s log bytes enough
    match bytes with
    | [] => exact ⟨[], .done, by rw [writeLoop, writeLoop, List.append_nil]⟩
    | b :: bytes =>
      simp only [writeLoop, recorded]
      match written : k.write s (b :: bytes) with
      | (.error e, t) => exact ⟨[.failed e], .failed (List.cons_ne_nil _ _) e, rfl⟩
      | (.ok 0, t) => exact ⟨[.took []], .stuck (List.cons_ne_nil _ _), rfl⟩
      | (.ok (n + 1), t) =>
        have shorter : (bytes.drop n).length ≤ tries := by
          rw [List.length_cons] at enough
          rw [List.length_drop]
          omega
        obtain ⟨own, writing, recorded_eq⟩ :=
          ih t (log ++ [.took ((b :: bytes).take (n + 1))]) (bytes.drop n) shorter
        -- what this write took comes before what the tries that are left take of the rest
        refine ⟨.took (b :: bytes.take n) :: own, ?_, ?_⟩
        · have := Writing.took (List.cons_ne_nil b (bytes.take n)) writing
          rwa [List.cons_append, List.take_append_drop] at this
        · rw [List.append_cons]
          exact recorded_eq

theorem writeAll_recorded (k : Sink σ) (s : σ) (log : List Event) (bytes : List UInt8) :
    ∃ own, Writing bytes (k.writeAll s bytes).1 own ∧
      k.recorded.writeAll (s, log) bytes =
        ((k.writeAll s bytes).1, (k.writeAll s bytes).2, log ++ own) :=
  k.writeLoop_recorded bytes.length s log bytes (Nat.le_refl _)

end Sink

/-- A call of a printer. -/
inductive Call
  | print (s : String)
  | printLine (s : String)

/-- The text that a call prints, the end of its line included. -/
def Call.text : Call → String
  | .print s => s
  | .printLine s => s ++ "\n"

/-- What printing some bytes can come to: whether they are written whole, the answer, and what
happens at the sink. It is flushed after a text that is written whole, and only then. -/
inductive Printed (bytes : List UInt8) : Bool → Except IoError Unit → List Event → Prop
  | whole {log} (writing : Writing bytes (.ok ()) log) (result : Except IoError Unit) :
    Printed bytes true result (log ++ [.flushed result])
  | cut {log} {e : IoError} (writing : Writing bytes (.error e) log) :
    Printed bytes false (.error e) log

/-- What happens at a sink while texts are printed, each of them whole. -/
inductive Transcript : List (List UInt8) → List Event → Prop
  | nil : Transcript [] []
  | cons {bytes texts log later} (writing : Writing bytes (.ok ()) log)
    (result : Except IoError Unit) (rest : Transcript texts later) :
    Transcript (bytes :: texts) (log ++ .flushed result :: later)

theorem Transcript.received_eq {texts : List (List UInt8)} {log : List Event}
    (so : Transcript texts log) : received log = texts.flatten := by
  induction so with
  | nil => rfl
  | @cons bytes texts log later writing result rest ih =>
    rw [received_append, writing.received_eq, List.flatten_cons, ← ih]
    rfl

theorem Transcript.flushes_eq {texts : List (List UInt8)} {log : List Event}
    (so : Transcript texts log) : flushes log = texts.length := by
  induction so with
  | nil => rfl
  | @cons bytes texts log later writing result rest ih =>
    rw [flushes_append, writing.flushes_eq, List.length_cons, ← ih, flushes, flushes,
      List.countP_cons_of_pos rfl, Nat.zero_add]

namespace Printer

def call (p : Printer σ) : Call → Except IoError Unit × Printer σ
  | .print s => p.print s
  | .printLine s => p.printLine s

/-- Calls one after another, whatever they come to, with their answers. -/
def run (p : Printer σ) : List Call → List (Except IoError Unit) × Printer σ
  | [] => ([], p)
  | c :: calls =>
    let (result, p) := p.call c
    let (results, p) := p.run calls
    (result :: results, p)

/-- Whether the text of a call is written whole. -/
def writes (p : Printer σ) (c : Call) : Bool := (p.sink.writeAll p.state (p.bytes c.text)).1.isOk

/-- Whether no call of several fails while it writes. -/
def writesEach (p : Printer σ) : List Call → Prop
  | [] => True
  | c :: calls => p.writes c = true ∧ (p.call c).2.writesEach calls

/-- The printer with a log of what happens at its sink. -/
def watched (p : Printer σ) (log : List Event) : Printer (σ × List Event) :=
  ⟨p.sink.recorded, p.charset, (p.state, log)⟩

/-- What happens at the sink while calls are made. -/
def log (p : Printer σ) (calls : List Call) : List Event := ((p.watched []).run calls).2.state.2

theorem call_eq (p : Printer σ) (c : Call) : p.call c = p.print c.text := by
  cases c <;> rfl

theorem charset_call (p : Printer σ) (c : Call) : (p.call c).2.charset = p.charset := by
  rw [call_eq, print]
  split <;> rfl

theorem bytes_call (p : Printer σ) (c : Call) (s : String) : (p.call c).2.bytes s = p.bytes s := by
  rw [bytes, charset_call, ← bytes]

/-- One call: the log does not change what it comes to, and shows it. -/
theorem call_watched (p : Printer σ) (log : List Event) (c : Call) :
    ∃ own, Printed (p.bytes c.text) (p.writes c) (p.call c).1 own ∧
      (p.watched log).call c = ((p.call c).1, (p.call c).2.watched (log ++ own)) := by
  obtain ⟨own, writing, recorded_eq⟩ := p.sink.writeAll_recorded p.state log (p.bytes c.text)
  have watched_eq : (p.watched log).sink.writeAll (p.watched log).state
      ((p.watched log).bytes c.text) = _ := recorded_eq
  rw [call_eq, call_eq, print, print, writes, watched_eq]
  match wrote : p.sink.writeAll p.state (p.bytes c.text) with
  | (.error e, state) =>
    rw [wrote] at writing
    exact ⟨own, .cut writing, rfl⟩
  | (.ok (), state) =>
    rw [wrote] at writing
    refine ⟨_, .whole writing _, ?_⟩
    rw [← List.append_assoc]
    rfl

theorem run_cons (p : Printer σ) (c : Call) (calls : List Call) :
    p.run (c :: calls) =
      ((p.call c).1 :: ((p.call c).2.run calls).1, ((p.call c).2.run calls).2) := rfl

/-- Several calls, by induction on them: the log does not change what they come to, and it is a
transcript as long as none of them fails while it writes. -/
theorem run_watched (calls : List Call) :
    ∀ (p : Printer σ) (log : List Event), ∃ own,
      (p.watched log).run calls = ((p.run calls).1, (p.run calls).2.watched (log ++ own)) ∧
        (p.writesEach calls → Transcript (calls.map fun c => p.bytes c.text) own) := by
  induction calls with
  | nil => exact fun p log => ⟨[], by rw [List.append_nil]; rfl, fun _ => .nil⟩
  | cons c calls ih =>
    intro p log
    obtain ⟨first, printed, call_eq⟩ := p.call_watched log c
    obtain ⟨later, run_eq, transcript⟩ := ih (p.call c).2 (log ++ first)
    refine ⟨first ++ later, ?_, fun ⟨writes, rest⟩ => ?_⟩
    · rw [run_cons, run_cons, call_eq, run_eq, List.append_assoc]
    · rw [writes] at printed
      have so := transcript rest
      simp only [bytes_call] at so
      cases printed with
      | whole writing result =>
        rw [List.append_assoc]
        exact .cons writing _ so

theorem run_append (calls calls' : List Call) : ∀ p : Printer σ,
    p.run (calls ++ calls') = ((p.run calls).1 ++ ((p.run calls).2.run calls').1,
      ((p.run calls).2.run calls').2) := by
  induction calls with
  | nil => exact fun _ => rfl
  | cons c calls ih =>
    intro p
    rw [List.cons_append, run_cons, run_cons, ih]
    rfl

theorem length_run (calls : List Call) : ∀ p : Printer σ,
    (p.run calls).1.length = calls.length := by
  induction calls with
  | nil => exact fun _ => rfl
  | cons c calls ih => exact fun p => congrArg (· + 1) (ih (p.call c).2)

/-- The answer of a call in the middle of others. -/
theorem getElem?_run (p : Printer σ) (before : List Call) (c : Call) (after : List Call) :
    (p.run (before ++ c :: after)).1[before.length]? = some ((p.run before).2.call c).1 := by
  rw [run_append, run_cons, List.getElem?_append_right (Nat.le_of_eq (length_run before p)),
    length_run, Nat.sub_self]
  rfl

theorem bytes_run (calls : List Call) (s : String) : ∀ p : Printer σ,
    (p.run calls).2.bytes s = p.bytes s := by
  induction calls with
  | nil => exact fun _ => rfl
  | cons c calls ih => exact fun p => (ih (p.call c).2).trans (p.bytes_call c s)

/-- Texts are written as they are one by one. -/
theorem bytes_join (p : Printer σ) (texts : List String) :
    p.bytes (String.join texts) = (texts.map p.bytes).flatten := by
  induction texts with
  | nil =>
    have nothing : (p.charset.getD .ascii).encode [] = [] := by
      cases p.charset.getD .ascii <;> rfl
    exact nothing
  | cons s texts ih =>
    rw [bytes, String.toList_join, List.flatMap_cons, Charset.encode_append,
      ← String.toList_join, ← bytes, ← bytes, ih, List.map_cons, List.flatten_cons]

/-- A call that succeeds writes its text whole. -/
theorem writes_of_call_eq_ok {p : Printer σ} {c : Call} (succeeds : (p.call c).1 = .ok ()) :
    p.writes c = true := by
  obtain ⟨own, printed, -⟩ := p.call_watched [] c
  rw [succeeds] at printed
  generalize p.writes c = all at printed ⊢
  cases printed
  rfl

/-- Calls that all succeed write their texts whole. -/
theorem writesEach_of_run_ok (calls : List Call) : ∀ p : Printer σ,
    (∀ result ∈ (p.run calls).1, result = .ok ()) → p.writesEach calls := by
  induction calls with
  | nil => exact fun _ _ => trivial
  | cons c calls ih =>
    intro p succeed
    rw [run_cons, List.forall_mem_cons] at succeed
    exact ⟨writes_of_call_eq_ok succeed.1, ih _ succeed.2⟩

/-- What is watched is what happens. -/
theorem run_log (p : Printer σ) (calls : List Call) :
    (p.watched []).run calls = ((p.run calls).1, (p.run calls).2.watched (p.log calls)) := by
  obtain ⟨own, run_eq, -⟩ := run_watched calls p []
  rw [log, run_eq]
  rfl

theorem transcript_log {p : Printer σ} {calls : List Call} (whole : p.writesEach calls) :
    Transcript (calls.map fun c => p.bytes c.text) (p.log calls) := by
  obtain ⟨own, run_eq, transcript⟩ := run_watched calls p []
  rw [log, run_eq]
  exact transcript whole

/-- What a call comes to among others. -/
theorem exists_printed (p : Printer σ) (before : List Call) (c : Call) (after : List Call) :
    ∃ answer own, (p.run (before ++ c :: after)).1[before.length]? = some answer ∧
      p.log (before ++ [c]) = p.log before ++ own ∧
      Printed (p.bytes c.text) ((p.run before).2.writes c) answer own := by
  obtain ⟨own, printed, call_eq⟩ := (p.run before).2.call_watched (p.log before) c
  rw [bytes_run] at printed
  refine ⟨((p.run before).2.call c).1, own, p.getElem?_run before c after, ?_, printed⟩
  rw [log, run_append, run_log, run_cons, call_eq]
  rfl

/-- The printer with its character set declared. -/
def declared (p : Printer σ) : Printer σ := { p with charset := some (p.charset.getD .ascii) }

theorem call_declared (p : Printer σ) (c : Call) :
    p.declared.call c = ((p.call c).1, (p.call c).2.declared) := by
  rw [call_eq, call_eq, print, print]
  have same : p.declared.sink.writeAll p.declared.state (p.declared.bytes c.text) =
    p.sink.writeAll p.state (p.bytes c.text) := rfl
  rw [same]
  match p.sink.writeAll p.state (p.bytes c.text) with
  | (.error e, state) => rfl
  | (.ok (), state) => rfl

theorem run_declared (calls : List Call) : ∀ p : Printer σ,
    p.declared.run calls = ((p.run calls).1, (p.run calls).2.declared) := by
  induction calls with
  | nil => exact fun _ => rfl
  | cons c calls ih =>
    intro p
    rw [run_cons, run_cons, call_declared, ih]

theorem log_declared (p : Printer σ) (calls : List Call) : p.declared.log calls = p.log calls :=
  congrArg (·.2.state.2) (run_declared calls (p.watched []))

/-- Whatever the sink takes, refuses or fails to do, to watch it changes nothing, and every call
writes its text whole and answers what flushing does, or fails and does not flush. Where all calls
succeed the sink has received their texts, which is what writing them at once would come to, and it
has been flushed after each. Where a call is the first to fail while it writes, the sink has
received the texts before it and a strict prefix of its own, and has been flushed for those before
it only. With no character set declared everything is as with ASCII. -/
theorem texts_printed_whole_or_cut (p : Printer σ) (calls : List Call) :
    (p.watched []).run calls = ((p.run calls).1, (p.run calls).2.watched (p.log calls)) ∧
    (∀ (before : List Call) (c : Call) (after : List Call), calls = before ++ c :: after →
      ∃ answer own, (p.run calls).1[before.length]? = some answer ∧
        p.log (before ++ [c]) = p.log before ++ own ∧
        Printed (p.bytes c.text) ((p.run before).2.writes c) answer own) ∧
    ((∀ answer ∈ (p.run calls).1, answer = .ok ()) →
      Transcript (calls.map fun c => p.bytes c.text) (p.log calls) ∧
      received (p.log calls) = p.bytes (String.join (calls.map Call.text)) ∧
      received (p.log calls) = (calls.map fun c => p.bytes c.text).flatten ∧
      flushes (p.log calls) = calls.length) ∧
    (∀ (before : List Call) (c : Call) (after : List Call), calls = before ++ c :: after →
      p.writesEach before → (p.run before).2.writes c = false →
      Transcript (before.map fun c => p.bytes c.text) (p.log before) ∧
      ∃ e own, (p.run calls).1[before.length]? = some (.error e) ∧
        p.log (before ++ [c]) = p.log before ++ own ∧
        Writing (p.bytes c.text) (.error e) own ∧
        received (p.log (before ++ [c])) =
          (before.map fun c => p.bytes c.text).flatten ++ received own ∧
        received own <+: p.bytes c.text ∧ received own ≠ p.bytes c.text ∧
        flushes own = 0 ∧ flushes (p.log (before ++ [c])) = before.length) ∧
    (let undeclared : Printer σ := { p with charset := none }
      let ascii : Printer σ := { p with charset := some .ascii }
      (undeclared.run calls).1 = (ascii.run calls).1 ∧
        (undeclared.run calls).2.state = (ascii.run calls).2.state ∧
        undeclared.log calls = ascii.log calls) := by
  refine ⟨p.run_log calls, ?_, fun succeed => ?_, ?_, ?_⟩
  · rintro before c after rfl
    exact p.exists_printed before c after
  · have so := transcript_log (p.writesEach_of_run_ok calls succeed)
    refine ⟨so, ?_, so.received_eq, ?_⟩
    · rw [so.received_eq, bytes_join, List.map_map]
      rfl
    · rw [so.flushes_eq, List.length_map]
  · rintro before c after rfl whole cut
    have so := transcript_log whole
    obtain ⟨answer, own, answered, log_eq, printed⟩ := p.exists_printed before c after
    -- a text that is not written whole was cut: there is no other way, and no flush in this one
    rw [cut] at printed
    cases printed with
    | @cut _ e writing =>
      obtain ⟨part, short⟩ := writing.received_prefix
      refine ⟨so, e, own, answered, log_eq, writing, ?_, part, short, writing.flushes_eq, ?_⟩
      · rw [log_eq, received_append, so.received_eq]
      · rw [log_eq, flushes_append, so.flushes_eq, writing.flushes_eq, List.length_map]
        rfl
  · have same := run_declared calls { p with charset := none }
    exact ⟨(congrArg (·.1) same).symm, (congrArg (·.2.state) same).symm,
      (log_declared { p with charset := none } calls).symm⟩

/-- A buffer has room for six bytes: for a line, and for the beginning of a word. -/
theorem word_cut_where_buffer_is_full :
    let p : Printer Buffer := ⟨Buffer.sink, none, ⟨some 6, []⟩⟩
    received (p.log [.printLine "tea"]) = [116, 101, 97, 10] ∧
    (p.run [.printLine "tea", .print "caf\u00e9"]).1 = [.ok (), .error .noRoom] ∧
    received (p.log [.printLine "tea", .print "caf\u00e9"]) = [116, 101, 97, 10, 99, 97] ∧
    flushes (p.log [.printLine "tea", .print "caf\u00e9"]) = 1 := by
  intro p
  have succeeds : (p.run [.printLine "tea"]).1 = [.ok ()] := rfl
  have line := (p.texts_printed_whole_or_cut [.printLine "tea"]).2.2.1
    (by rw [succeeds, List.forall_mem_singleton])
  obtain ⟨-, e, own, -, -, -, -, -, -, -, once⟩ :=
    (p.texts_printed_whole_or_cut [.printLine "tea", .print "caf\u00e9"]).2.2.2.1
      [.printLine "tea"] (.print "caf\u00e9") [] rfl ⟨by decide, trivial⟩ (by decide)
  exact ⟨line.2.2.1.trans (by decide), rfl, by decide, once⟩

end Printer

end Ferry.Console
