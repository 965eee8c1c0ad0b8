import Ferry.Proofs.Bind
import Ferry.Proofs.Files.Cursor

/-!
A slice of a file that changes while the slice is in use: it may grow, be cut, replaced, made
unreadable or removed between any two operations, and the disk it lies on may give less than was
asked for or fail in the midst of one. The slice then may read other bytes or none, but it never
loses its place: `Kept` holds after every run (`kept_run`), and every single operation obeys the
rules of `Obeys`, from any place (`obeys`).

The invariant is that the offset is inside the size. It was settled when the slice was made, and no
operation asks the file again how long it is.
-/
namespace Ferry.Files

variable {δ : Type} [Disk δ]

/-- However many blocks it takes, no more comes than was asked for. -/
theorem Disk.length_le_of_readBlocks {block : Nat} {bytes : List UInt8} :
    ∀ {n : Nat} {stream : Disk.Stream δ}, readBlocks block n stream = .ok bytes →
      bytes.length ≤ n := by
  intro n
  induction n using Nat.strongRecOn generalizing bytes with
  | ind n ih =>
    intro stream came
    rw [readBlocks] at came
    split at came
    · obtain rfl := Except.ok.inj came
      exact Nat.zero_le n
    split at came
    · cases came
    · rename_i first rest read
      have first_le := Disk.length_le read
      split at came
      · obtain rfl := Except.ok.inj came
        exact Nat.zero_le n
      · obtain ⟨others, later, rfl⟩ := exists_of_map_eq_ok came
        have some_came := List.length_pos_iff.2 ‹first ≠ []›
        have := ih (n - first.length) (by omega) later
        rw [List.length_append]
        omega

/-- How many bytes an operation asks for. -/
def Op.wanted (s : Slice) : Op → Nat
  | .readBytes none => s.remaining
  | .readBytes (some n) => n
  | .fill n => n
  | _ => 0

/-- Whether an operation reads bytes for whoever called it. -/
def Op.reads : Op → Bool
  | .readBytes _ => true
  | .fill _ => true
  | _ => false

/-- Whether a reply is an error. -/
def Reply.isFailure : Reply → Bool
  | .bytes (.error _) => true
  | .offset (.error _) => true
  | .text (.error _) => true
  | _ => false

namespace Slice

variable {s : Slice} {disk : δ} {n : Nat} {result : Except IoError (List UInt8)}

/-- A slice `w` that is still the one that was made as `s`: the same range of the same file, and
an offset that lies inside it and that a 64-bit count can hold. -/
structure Kept (s w : Slice) : Prop where
  path_eq : w.path = s.path
  start_eq : w.start = s.start
  size_eq : w.size = s.size
  offset_le : w.offset ≤ w.size
  /-- What remains is a difference that does not go below zero. -/
  remaining_eq : (w.remaining : Int) = w.size - w.offset
  position_lt : w.start + w.offset < UInt64.size

/-- The rules of a single operation. -/
structure Obeys (s : Slice) (disk : δ) (op : Op) : Prop where
  /-- Bytes that come are no more than asked for and no more than remain, and the offset moves on
  by as many. -/
  reads : ∀ bytes, (s.apply disk op).1 = .bytes (.ok bytes) →
    bytes.length ≤ min (op.wanted s) s.remaining ∧
      (s.apply disk op).2.offset = s.offset + bytes.length
  /-- A failure leaves the slice as it was. -/
  fails : (s.apply disk op).1.isFailure = true → op ≠ .checksum → (s.apply disk op).2 = s
  /-- So what failed can be asked for again, of whatever is there by then. -/
  again : (s.apply disk op).1.isFailure = true → op.reads = true →
    ∀ (fs : FileSystem) content, fs.Holds s.path content → s.start + s.offset < Handle.seekLimit →
      ((s.apply disk op).2.apply fs op).1 =
        .bytes (.ok ((content.drop (s.start + s.offset)).take (min (op.wanted s) s.remaining)))
  /-- A checksum leaves the slice rewound, whether there is one or not. -/
  rewinds : op = .checksum → (s.apply disk op).2.offset = 0

/-- Both ways of reading are one: nothing is done where nothing is asked for or nothing remains,
and else the offset follows what comes, in blocks of one size or another. -/
theorem apply_by_blocks (s : Slice) (disk : δ) {op : Op} (reads : op.reads = true) :
    ∃ block, (min (op.wanted s) s.remaining ≠ 0 → 0 < block) ∧
      s.apply disk op =
        (if min (op.wanted s) s.remaining = 0 then (.ok [], s)
          else s.advance do
            Disk.readBlocks block (min (op.wanted s) s.remaining) (← s.opened disk)).map
          .bytes id := by
  cases op with
  | readBytes amount =>
    refine ⟨blockSize, fun _ => by decide, ?_⟩
    cases amount with
    | none =>
      rw [Op.wanted, Nat.min_self]
      rfl
    | some n => rfl
  | fill n => exact ⟨_, Nat.pos_of_ne_zero, rfl⟩
  | seekTo offset => cases reads
  | seek w => cases reads
  | tell => cases reads
  | checksum => cases reads

/-- Whatever the disk does, no more comes than was wanted and remained. -/
theorem apply_of_reads (s : Slice) (disk : δ) {op : Op} (reads : op.reads = true) :
    ∃ result, (∀ bytes, result = .ok bytes → bytes.length ≤ min (op.wanted s) s.remaining) ∧
      s.apply disk op = (if min (op.wanted s) s.remaining = 0 then (.ok [], s)
        else s.advance result).map .bytes id := by
  obtain ⟨block, -, applied⟩ := s.apply_by_blocks disk reads
  refine ⟨_, fun bytes came => ?_, applied⟩
  obtain ⟨stream, -, came⟩ := exists_of_bind_eq_ok came
  exact Disk.length_le_of_readBlocks came

/-- All of it comes of a file that is there. -/
theorem apply_of_holds {fs : FileSystem} {content : List UInt8} {op : Op} (reads : op.reads = true)
    (there : fs.Holds s.path content) (sought : s.start + s.offset < Handle.seekLimit) :
    (s.apply fs op).1 =
      .bytes (.ok ((content.drop (s.start + s.offset)).take (min (op.wanted s) s.remaining))) := by
  obtain ⟨block, pos, applied⟩ := s.apply_by_blocks fs reads
  rw [applied]
  split
  · rw [‹min _ _ = 0›, List.take_zero]
    rfl
  · rw [readBlocks_of_holds there sought (pos ‹_›)]
    rfl

/-- An operation that reads obeys the rules, whatever the file has become and however the disk
answers. -/
theorem obeys_of_reads (s : Slice) (disk : δ) {op : Op} (reads : op.reads = true) :
    s.Obeys disk op := by
  obtain ⟨result, length_le, applied⟩ := s.apply_of_reads disk reads
  have fails : (s.apply disk op).1.isFailure = true → (s.apply disk op).2 = s := by
    rw [applied]
    intro failed
    split
    · rfl
    · cases result with
      | error e => rfl
      | ok bytes =>
        rw [if_neg ‹_›] at failed
        cases failed
  refine ⟨fun bytes came => ?_, fun failed _ => fails failed,
    fun failed _ fs content there sought => ?_, ?_⟩
  · rw [applied] at came ⊢
    split at came
    · obtain rfl : [] = bytes := Except.ok.inj (Reply.bytes.inj came)
      rw [if_pos ‹_›]
      exact ⟨Nat.zero_le _, rfl⟩
    · rw [if_neg ‹_›]
      cases result with
      | error e => cases Reply.bytes.inj came
      | ok bytes' =>
        obtain rfl : bytes' = bytes := Except.ok.inj (Reply.bytes.inj came)
        exact ⟨length_le _ rfl, rfl⟩
  · rw [fails failed]
    exact apply_of_holds reads there sought
  · rintro rfl
    cases reads

/-- A seek is refused and does nothing, or moves the offset. -/
theorem seek_refused_or_moved (s : Slice) (w : Whence) :
    (s.seek w).2 = s ∨
      ∃ offset, s.seek w = (.ok (s.seekTo offset).offset, s.seekTo offset) := by
  cases w <;>
  · simp only [Slice.seek]
    split
    · exact .inl rfl
    · exact .inr ⟨_, rfl⟩

/-- Every operation obeys the rules. -/
theorem obeys (s : Slice) (disk : δ) (op : Op) : s.Obeys disk op := by
  cases op with
  | readBytes amount => exact s.obeys_of_reads disk rfl
  | fill n => exact s.obeys_of_reads disk rfl
  | seekTo offset => exact ⟨nofun, nofun, nofun, nofun⟩
  | seek w =>
    refine ⟨nofun, fun failed _ => ?_, fun _ => nofun, nofun⟩
    obtain same | ⟨offset, moved⟩ := s.seek_refused_or_moved w
    · exact same
    · change (Reply.offset (s.seek w).1).isFailure = true at failed
      rw [moved] at failed
      cases failed
  | tell => exact ⟨nofun, nofun, nofun, nofun⟩
  | checksum => exact ⟨nofun, fun _ not => absurd rfl not, fun _ => nofun, fun _ => rfl⟩

theorem offset_le_of_reads (le : s.offset ≤ s.size) {op : Op} (reads : op.reads = true) :
    (s.apply disk op).2.offset ≤ s.size := by
  obtain ⟨result, length_le, applied⟩ := s.apply_of_reads disk reads
  rw [applied]
  split
  · exact le
  · cases result with
    | error e => exact le
    | ok bytes =>
      have := length_le bytes rfl
      rw [remaining] at this
      show s.offset + bytes.length ≤ s.size
      omega

/-- No operation takes the offset out of the slice. -/
theorem offset_apply_le (le : s.offset ≤ s.size) (op : Op) :
    (s.apply disk op).2.offset ≤ s.size := by
  cases op with
  | readBytes amount => exact offset_le_of_reads le rfl
  | fill n => exact offset_le_of_reads le rfl
  | seekTo offset => exact s.offset_seekTo_le offset
  | seek w =>
    obtain same | ⟨offset, moved⟩ := s.seek_refused_or_moved w
    · show (s.seek w).2.offset ≤ s.size
      rw [same]
      exact le
    · show (s.seek w).2.offset ≤ s.size
      rw [moved]
      exact s.offset_seekTo_le offset
  | tell => exact le
  | checksum => exact Nat.zero_le _

theorem offset_run_le (ops : List (δ × Op)) :
    ∀ {s : Slice}, s.offset ≤ s.size → (s.run ops).2.offset ≤ s.size := by
  induction ops with
  | nil => exact fun le => le
  | cons x ops ih =>
    intro s le
    have stays : (s.apply x.1 x.2).2.offset ≤ s.size := offset_apply_le le x.2
    obtain ⟨offset, frame⟩ := s.apply_frame x.1 x.2
    rw [run_cons]
    rw [frame] at stays ⊢
    exact ih stays

/-- A slice whose end a 64-bit count can hold is kept by every run. -/
theorem kept_run (le : s.offset ≤ s.size) (counted : s.start + s.size < UInt64.size)
    (ops : List (δ × Op)) : s.Kept (s.run ops).2 := by
  have stays := offset_run_le ops le
  obtain ⟨offset, frame⟩ := run_frame ops s
  rw [frame] at stays ⊢
  refine ⟨rfl, rfl, rfl, stays, Int.ofNat_sub stays, ?_⟩
  show s.start + offset < UInt64.size
  change offset ≤ s.size at stays
  omega

/-- What is made ends where the file ends or before, or has no bytes. -/
theorem end_of_made {path : Path} {start size : Nat}
    (made : Slice.of disk path start size = .ok s) :
    ∃ fileSize, Disk.size disk path = .ok fileSize ∧ s.offset = 0 ∧ s.start = start ∧
      s.start + s.size ≤ max start fileSize := by
  obtain ⟨fileSize, told, rfl⟩ := exists_of_map_eq_ok made
  refine ⟨fileSize, told, rfl, rfl, ?_⟩
  show start + min size (fileSize - start) ≤ max start fileSize
  omega

end Slice

/-- A slice that was made stays in its place through any run of operations, whatever becomes of the
file meanwhile and wherever the disk fails, and whatever is done next obeys the rules. Where a slice
starts and how long a file says it is are 64-bit counts. -/
theorem slice_keeps_its_place {δ ε : Type} [Disk δ] [Disk ε] {disk : δ} {path : Path}
    {start size : Nat} {s : Slice} (counted : start < UInt64.size)
    (reported : ∀ n, Disk.size disk path = .ok n → n < UInt64.size)
    (made : Slice.of disk path start size = .ok s) (ops : List (ε × Op)) :
    s.Kept (s.run ops).2 ∧ ∀ (later : ε) op, (s.run ops).2.Obeys later op := by
  obtain ⟨fileSize, told, offset_eq, start_eq, end_le⟩ := Slice.end_of_made made
  have := reported fileSize told
  exact ⟨Slice.kept_run (by omega) (by omega) ops, fun later op => Slice.obeys _ later op⟩

/-- A disk that answers one read after another as it is told, and then with nothing. -/
structure Script where
  answers : List (Except IoError (List UInt8))

/-- The next answer, of which no more counts than was asked for. -/
def Script.read : List (Except IoError (List UInt8)) → Nat →
    Except IoError (List UInt8 × List (Except IoError (List UInt8)))
  | [], _ => .ok ([], [])
  | .error e :: _, _ => .error e
  | .ok bytes :: answers, n => .ok (bytes.take n, answers)

instance : Disk Script where
  Stream := List (Except IoError (List UInt8))
  size _ _ := .ok 0
  openAt disk _ _ := .ok disk.answers
  read := Script.read
  length_le := by
    intro answers n bytes rest came
    cases answers with
    | nil =>
      cases came
      exact Nat.zero_le n
    | cons answer answers =>
      cases answer with
      | error e => cases came
      | ok given =>
        cases came
        exact List.length_take_le n given

/-- What a device that breaks down answers. -/
def deviceError : IoError := .other "Input/output error (os error 5)"

/-- Of the last three bytes of `onetwo` one is read; then the disk fails with the other two on their
way, one of them come already, and once the file is back the same call gets both. -/
theorem bytes_come_when_file_is_back :
    3 < UInt64.size ∧ (∀ n, Disk.size onetwo ⟨[102]⟩ = .ok n → n < UInt64.size) ∧
    ∃ s, Slice.of onetwo ⟨[102]⟩ 3 100 = .ok s ∧
      let one : Script × Op := (⟨[.ok [116]]⟩, .fill 1)
      let breaking : Script := ⟨[.ok [119], .error deviceError]⟩
      s.Kept (s.run [one]).2 ∧
      ((s.run [one]).2.apply breaking (.fill 9)).1 = .bytes (.error deviceError) ∧
      (((s.run [one]).2.apply breaking (.fill 9)).2.apply onetwo (.fill 9)).1 =
        .bytes (.ok [119, 111]) := by
  have made : Slice.of onetwo ⟨[102]⟩ 3 100 = .ok ⟨⟨[102]⟩, 3, 3, 0⟩ := onetwo_holds.slice 3 100
  have reported : ∀ n, Disk.size onetwo ⟨[102]⟩ = .ok n → n < UInt64.size := by
    intro n told
    rw [onetwo_holds.size] at told
    cases told
    decide
  obtain ⟨kept, obeys⟩ := slice_keeps_its_place (by decide) reported made
    [((⟨[.ok [116]]⟩ : Script), .fill 1)]
  have one : (Slice.run ⟨⟨[102]⟩, 3, 3, 0⟩ [((⟨[.ok [116]]⟩ : Script), .fill 1)]).2 =
      ⟨⟨[102]⟩, 3, 3, 1⟩ := by
    have came : @Disk.readBlocks Script _ 1 1 [.ok [116]] = .ok [116] := by
      simp [Disk.readBlocks, Disk.read, Script.read, Except.map]
    show (Slice.advance _ (@Disk.readBlocks Script _ 1 1 [.ok [116]])).2 = _
    rw [came]
    rfl
  have failed : (Slice.apply ⟨⟨[102]⟩, 3, 3, 1⟩
      (⟨[.ok [119], .error deviceError]⟩ : Script) (.fill 9)).1 = .bytes (.error deviceError) := by
    have broke : @Disk.readBlocks Script _ 2 2 [.ok [119], .error deviceError] =
        .error deviceError := by
      simp [Disk.readBlocks, Disk.read, Script.read, Except.map]
    show Reply.bytes (Slice.advance _ (@Disk.readBlocks Script _ 2 2 _)).1 = _
    rw [broke]
    rfl
  rw [one] at obeys
  refine ⟨by decide, reported, _, made, kept, ?_, ?_⟩
  · rw [one]
    exact failed
  · rw [one]
    exact (obeys _ (.fill 9)).again (by rw [failed]; rfl) rfl onetwo _ onetwo_holds (by decide)

end Ferry.Files
