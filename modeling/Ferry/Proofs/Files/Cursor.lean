import Ferry.Files.Slice

/-!
A slice of a file as a cursor over bytes in memory. A cursor knows nothing of files: it has its
bytes and an offset, and its seeks stop at its end. As long as the file keeps its content, a slice
answers any sequence of operations as the cursor over its bytes does (`run_eq_cursor`), whatever
else happens to the file system in between.

The induction over a run carries `Within`: the slice lies inside the file and the offset inside the
slice.
-/
namespace Ferry.Files

/-- An operation on a stream that can be moved. -/
inductive Op
  | readBytes (amount : Option Nat)
  | fill (n : Nat)
  | seekTo (offset : Nat)
  | seek (w : Whence)
  | tell
  | checksum

/-- What an operation answers. -/
inductive Reply
  | bytes (r : Except IoError (List UInt8))
  | offset (r : Except IoError Nat)
  | text (r : Except IoError String)
  | done

section Disks

variable {δ : Type} [Disk δ]

namespace Slice

/-- One operation, the disk being `disk` while it lasts. -/
def apply (s : Slice) (disk : δ) : Op → Reply × Slice
  | .readBytes amount => ((s.readBytes disk amount).map .bytes id)
  | .fill n => ((s.fill disk n).map .bytes id)
  | .seekTo offset => (.done, s.seekTo offset)
  | .seek w => ((s.seek w).map .offset id)
  | .tell => (.offset (.ok s.offset), s)
  | .checksum => ((s.checksum disk).map .text id)

/-- Operations one after another, each with the disk at its time. -/
def run (s : Slice) : List (δ × Op) → List Reply × Slice
  | [] => ([], s)
  | (disk, op) :: ops =>
    let (reply, s') := s.apply disk op
    let (replies, s'') := s'.run ops
    (reply :: replies, s'')

theorem run_cons (s : Slice) (disk : δ) (op : Op) (ops : List (δ × Op)) :
    s.run ((disk, op) :: ops) = ((s.apply disk op).1 :: ((s.apply disk op).2.run ops).1,
      ((s.apply disk op).2.run ops).2) := rfl

/-- Neither way of reading touches more of a slice than its offset. -/
theorem read_frame (s : Slice) (n : Nat) (result : Except IoError (List UInt8)) :
    ∃ offset, (if n = 0 then (.ok [], s) else s.advance result).2 = { s with offset } := by
  split
  · exact ⟨_, rfl⟩
  · cases result with
    | ok bytes => exact ⟨_, rfl⟩
    | error _ => exact ⟨_, rfl⟩

theorem seek_frame (s : Slice) (w : Whence) : ∃ offset, (s.seek w).2 = { s with offset } := by
  cases w <;>
  · simp only [Slice.seek]
    split
    · exact ⟨_, rfl⟩
    · exact ⟨_, rfl⟩

/-- No operation does, whatever has become of the file. -/
theorem apply_frame (s : Slice) (disk : δ) (op : Op) :
    ∃ offset, (s.apply disk op).2 = { s with offset } := by
  cases op with
  | readBytes amount =>
    cases amount with
    | none => exact s.read_frame _ _
    | some n => exact s.read_frame _ _
  | fill n => exact s.read_frame _ _
  | seekTo offset => exact ⟨_, rfl⟩
  | seek w => exact s.seek_frame w
  | tell => exact ⟨_, rfl⟩
  | checksum => exact ⟨_, rfl⟩

theorem run_frame (ops : List (δ × Op)) :
    ∀ s : Slice, ∃ offset, (s.run ops).2 = { s with offset } := by
  induction ops with
  | nil => exact fun s => ⟨_, rfl⟩
  | cons x ops ih =>
    intro s
    obtain ⟨between, first⟩ := s.apply_frame x.1 x.2
    obtain ⟨offset, rest⟩ := ih (s.apply x.1 x.2).2
    refine ⟨offset, rest.trans ?_⟩
    rw [first]

/-- Rewound, a slice is what it was when it was made, whatever was done with it. -/
theorem seekTo_zero_run (ops : List (δ × Op)) (s : Slice) :
    (s.run ops).2.seekTo 0 = { s with offset := 0 } := by
  obtain ⟨offset, left⟩ := run_frame ops s
  rw [left, seekTo, Nat.zero_min]

end Slice
end Disks

/-- Bytes in memory, and how many of them are behind. -/
structure Cursor where
  bytes : List UInt8
  offset : Nat

namespace Cursor

/-- The bytes from `start` up to `start + size`, or up to the end where that comes first. -/
def between (content : List UInt8) (start size : Nat) : Cursor :=
  ⟨(content.take (min (start + size) content.length)).drop start, 0⟩

/-- Hands out up to `n` bytes. -/
def read (c : Cursor) (n : Nat) : Reply × Cursor :=
  let bytes := (c.bytes.drop c.offset).take n
  (.bytes (.ok bytes), { c with offset := c.offset + bytes.length })

/-- Moves to an offset, or to the end where that comes first. -/
def move (c : Cursor) (offset : Nat) : Cursor := { c with offset := min offset c.bytes.length }

/-- Where a seek leads, counted from the start; negative before it. -/
def target (c : Cursor) : Whence → Int
  | .start offset => offset
  | .current delta => c.offset + delta
  | .fromEnd delta => c.bytes.length + delta

/-- One operation. None of them fails but a seek to before the start. -/
def apply (c : Cursor) : Op → Reply × Cursor
  | .readBytes none => (.bytes (.ok (c.bytes.drop c.offset)), { c with offset := c.bytes.length })
  | .readBytes (some n) => c.read n
  | .fill n => c.read n
  | .seekTo offset => (.done, c.move offset)
  | .seek w =>
    if c.target w < 0 then (.offset (.error (.refused "seek before the start of the view")), c)
    else (.offset (.ok (c.move (c.target w).toNat).offset), c.move (c.target w).toNat)
  | .tell => (.offset (.ok c.offset), c)
  | .checksum =>
    (.text (.ok (String.ofList (Digest.base64 (Digest.sha256 c.bytes)))), { c with offset := 0 })

/-- Operations one after another. -/
def run (c : Cursor) : List Op → List Reply × Cursor
  | [] => ([], c)
  | op :: ops =>
    let (reply, c') := c.apply op
    let (replies, c'') := c'.run ops
    (reply :: replies, c'')

theorem run_cons (c : Cursor) (op : Op) (ops : List Op) :
    c.run (op :: ops) =
      ((c.apply op).1 :: ((c.apply op).2.run ops).1, ((c.apply op).2.run ops).2) := rfl

end Cursor

/-- A path leads to a file with this content, which may be read. -/
def FileSystem.Holds (fs : FileSystem) (path : Path) (content : List UInt8) : Prop :=
  ∃ place e, fs.resolve path = .ok (place, e) ∧ e.node = .file content ∧ e.isReadable = true

theorem FileSystem.Holds.openRead {fs : FileSystem} {path : Path} {content : List UInt8}
    (there : fs.Holds path content) : fs.openRead path = .ok ⟨.file content, 0⟩ := by
  obtain ⟨place, e, found, isFile, readable⟩ := there
  unfold FileSystem.openRead
  rw [found, ← isFile]
  show (if e.isReadable = true then _ else _) = _
  rw [if_pos readable]

theorem FileSystem.Holds.size {fs : FileSystem} {path : Path} {content : List UInt8}
    (there : fs.Holds path content) : Disk.size fs path = .ok content.length := by
  obtain ⟨place, e, found, isFile, readable⟩ := there
  show (fs.resolve path).map _ = _
  rw [found]
  show Except.ok e.size = _
  rw [Entry.size, isFile]

/-- A slice that is made of the file: cut at the end of the content. -/
theorem FileSystem.Holds.slice {fs : FileSystem} {path : Path} {content : List UInt8}
    (there : fs.Holds path content) (start size : Nat) :
    Slice.of fs path start size = .ok ⟨path, start, min size (content.length - start), 0⟩ := by
  rw [Slice.of, there.size]
  rfl

/-- A first block and what is left of `n` after it are the first `n`, however short the block. -/
theorem take_block_append {α : Type} (l : List α) {m n : Nat} (le : m ≤ n) :
    l.take m ++ (l.drop (l.take m).length).take (n - (l.take m).length) = l.take n := by
  rcases Nat.le_total m l.length with enough | short
  · rw [List.length_take_of_le enough, ← List.take_add, Nat.add_sub_cancel' le]
  · rw [List.take_of_length_le short, List.drop_length, List.take_nil, List.append_nil,
      List.take_of_length_le (Nat.le_trans short le)]

namespace Disk

theorem readBlocks_zero {δ : Type} [Disk δ] (block : Nat) (stream : Stream δ) :
    readBlocks block 0 stream = .ok [] := by
  rw [readBlocks]
  rfl

/-- The first block of a file, and the others after it. -/
theorem readBlocks_step {content : List UInt8} {block n : Nat} (wanted : n ≠ 0) (position : Nat) :
    @readBlocks FileSystem _ block n (⟨.file content, position⟩ : Handle) =
      let bytes := (content.drop position).take (min block n)
      if bytes = [] then .ok []
      else (@readBlocks FileSystem _ block (n - bytes.length)
        (⟨.file content, position + bytes.length⟩ : Handle)).map (bytes ++ ·) := by
  rw [readBlocks, if_neg wanted]
  rfl

/-- Reading by blocks comes to the same as reading at once. -/
theorem readBlocks_file {content : List UInt8} {block : Nat} (pos : 0 < block) (n : Nat) :
    ∀ position : Nat, @readBlocks FileSystem _ block n (⟨.file content, position⟩ : Handle) =
      .ok ((content.drop position).take n) := by
  induction n using Nat.strongRecOn with
  | ind n ih =>
    intro position
    by_cases wanted : n = 0
    · rw [wanted, readBlocks_zero]
      rfl
    · have whole := take_block_append (content.drop position) (Nat.min_le_right block n)
      rw [readBlocks_step wanted]
      generalize came : (content.drop position).take (min block n) = bytes at whole
      show (if bytes = [] then Except.ok [] else _) = _
      split
      · rename_i nothing
        -- nothing came though something was asked for: the file ends here
        rcases List.take_eq_nil_iff.1 (came.trans nothing) with none_asked | ended
        · omega
        · rw [ended, List.take_nil]
      · have some_came := List.length_pos_iff.2 ‹bytes ≠ []›
        rw [ih _ (by omega), ← whole, List.drop_drop]
        rfl

end Disk

namespace Slice

/-- The slice lies inside the content, and its offset inside the slice. -/
structure Within (s : Slice) (content : List UInt8) : Prop where
  inside : s.start + s.size ≤ content.length
  offset_le : s.offset ≤ s.size

/-- The slice as a cursor. -/
def cursor (s : Slice) (content : List UInt8) : Cursor :=
  ⟨(content.drop s.start).take s.size, s.offset⟩

variable {s : Slice} {content : List UInt8} {fs : FileSystem}

theorem Within.length_bytes (within : s.Within content) :
    (s.cursor content).bytes.length = s.size := by
  have := within.inside
  rw [cursor, List.length_take_of_le]
  rw [List.length_drop]
  omega

/-- A file that can be read opens; what can fail is to seek a place in it. -/
theorem opened_eq_seek (there : fs.Holds s.path content) :
    s.opened fs = (⟨.file content, 0⟩ : Handle).seek (s.start + s.offset) := by
  show (fs.openRead s.path >>= fun h => h.seek (s.start + s.offset)) = _
  rw [there.openRead]
  rfl

/-- The file opens wherever it can be sought, be that inside its content or not. -/
theorem opened_of_holds (there : fs.Holds s.path content)
    (sought : s.start + s.offset < Handle.seekLimit) :
    s.opened fs = .ok (⟨.file content, s.start + s.offset⟩ : Handle) := by
  rw [opened_eq_seek there]
  exact if_neg (Nat.not_le.2 sought)

/-- Either way of reading gets what stands at the offset. -/
theorem readBlocks_of_holds (there : fs.Holds s.path content)
    (sought : s.start + s.offset < Handle.seekLimit) {block : Nat} (pos : 0 < block) (n : Nat) :
    (do Disk.readBlocks block n (← s.opened fs)) =
      .ok ((content.drop (s.start + s.offset)).take n) := by
  rw [opened_of_holds there sought]
  exact Disk.readBlocks_file pos n _

theorem Within.sought (within : s.Within content) (fits : content.length < Handle.seekLimit) :
    s.start + s.offset < Handle.seekLimit := by
  have inside := within.inside
  have offset_le := within.offset_le
  omega

/-- What is read from the file at the offset is the same part of the slice. -/
theorem take_content (s : Slice) (content : List UInt8) (n : Nat) :
    (content.drop (s.start + s.offset)).take (min n s.remaining) =
      ((s.cursor content).bytes.drop s.offset).take n := by
  have left : (s.cursor content).bytes.drop s.offset =
      (content.drop (s.start + s.offset)).take s.remaining := by
    rw [cursor, List.drop_take, List.drop_drop, remaining]
  rw [left, List.take_take]

/-- The slice after a read of up to `n` bytes, with what came. -/
def readAhead (s : Slice) (content : List UInt8) (n : Nat) : Except IoError (List UInt8) × Slice :=
  let bytes := ((s.cursor content).bytes.drop s.offset).take n
  (.ok bytes, { s with offset := s.offset + bytes.length })

/-- Either way of reading hands out the next part of the slice, and does nothing else. -/
theorem readAhead_eq {n : Nat} {result : Except IoError (List UInt8)}
    (comes : min n s.remaining ≠ 0 →
      result = .ok ((content.drop (s.start + s.offset)).take (min n s.remaining))) :
    (if min n s.remaining = 0 then (.ok [], s) else s.advance result) = s.readAhead content n := by
  unfold readAhead
  rw [← take_content]
  split
  · rename_i none_left
    rw [none_left]
    rfl
  · rename_i some_left
    rw [comes some_left]
    rfl

theorem Within.fill_eq (within : s.Within content) (there : fs.Holds s.path content)
    (fits : content.length < Handle.seekLimit) (n : Nat) : s.fill fs n = s.readAhead content n :=
  readAhead_eq fun some_left =>
    readBlocks_of_holds there (within.sought fits) (Nat.pos_of_ne_zero some_left) _

theorem Within.readBytes_some (within : s.Within content) (there : fs.Holds s.path content)
    (fits : content.length < Handle.seekLimit) (n : Nat) :
    s.readBytes fs (some n) = s.readAhead content n :=
  readAhead_eq fun _ => readBlocks_of_holds there (within.sought fits) (by decide) _

theorem Within.readBytes_none (within : s.Within content) (there : fs.Holds s.path content)
    (fits : content.length < Handle.seekLimit) :
    s.readBytes fs none =
      (.ok ((s.cursor content).bytes.drop s.offset), { s with offset := s.size }) := by
  have same : s.readBytes fs none = s.readBytes fs (some s.remaining) := by
    simp only [readBytes, Nat.min_self]
  have := within.offset_le
  have length_eq : ((s.cursor content).bytes.drop s.offset).length = s.remaining := by
    rw [List.length_drop, within.length_bytes, remaining]
  rw [same, within.readBytes_some there fits, readAhead, ← length_eq, List.take_length, length_eq,
    remaining, Nat.add_sub_cancel' this]

/-- A checksum takes in the whole slice, wherever the offset was. -/
theorem Within.checksum_eq (within : s.Within content) (there : fs.Holds s.path content)
    (fits : content.length < Handle.seekLimit) :
    s.checksum fs =
      (.ok (String.ofList (Digest.base64 (Digest.sha256 (s.cursor content).bytes))),
        { s with offset := 0 }) := by
  have rewound : ({ s with offset := 0 } : Slice).Within content :=
    ⟨within.inside, Nat.zero_le _⟩
  have there : fs.Holds ({ s with offset := 0 } : Slice).path content := there
  simp only [checksum]
  rw [readBlocks_of_holds there (rewound.sought fits) (by decide)]
  rfl

theorem Within.seek_eq (within : s.Within content) (w : Whence) :
    s.seek w =
      if (s.cursor content).target w < 0 then
        (.error (.refused "seek before the start of the view"), s)
      else (.ok (s.seekTo ((s.cursor content).target w).toNat).offset,
        s.seekTo ((s.cursor content).target w).toNat) := by
  cases w with
  | start offset => rfl
  | current delta => rfl
  | fromEnd delta =>
    rw [Cursor.target, within.length_bytes]
    rfl

/-- One operation: the slice answers as its cursor, and afterwards is the slice of its cursor. -/
theorem Within.apply_eq (within : s.Within content) (there : fs.Holds s.path content)
    (fits : content.length < Handle.seekLimit) (op : Op) :
    (s.apply fs op).1 = ((s.cursor content).apply op).1 ∧
      (s.apply fs op).2.cursor content = ((s.cursor content).apply op).2 := by
  cases op with
  | readBytes amount =>
    cases amount with
    | none =>
      rw [apply, within.readBytes_none there fits, Cursor.apply, within.length_bytes]
      exact ⟨rfl, rfl⟩
    | some n =>
      rw [apply, within.readBytes_some there fits]
      exact ⟨rfl, rfl⟩
  | fill n =>
    rw [apply, within.fill_eq there fits]
    exact ⟨rfl, rfl⟩
  | seekTo offset =>
    rw [apply, Cursor.apply, Cursor.move, within.length_bytes]
    exact ⟨rfl, rfl⟩
  | seek w =>
    rw [apply, within.seek_eq w, Cursor.apply, Cursor.move, within.length_bytes]
    split
    · exact ⟨rfl, rfl⟩
    · exact ⟨rfl, rfl⟩
  | tell => exact ⟨rfl, rfl⟩
  | checksum =>
    rw [apply, within.checksum_eq there fits]
    exact ⟨rfl, rfl⟩

end Slice

namespace Cursor

/-- A cursor never leaves its bytes. -/
theorem offset_apply_le {c : Cursor} (le : c.offset ≤ c.bytes.length) (op : Op) :
    (c.apply op).2.offset ≤ c.bytes.length := by
  have read_le : ∀ n, (c.read n).2.offset ≤ c.bytes.length := by
    intro n
    have : ((c.bytes.drop c.offset).take n).length ≤ c.bytes.length - c.offset := by
      rw [List.length_take, List.length_drop]
      exact Nat.min_le_right _ _
    show c.offset + _ ≤ _
    omega
  cases op with
  | readBytes amount =>
    cases amount with
    | none => exact Nat.le_refl _
    | some n => exact read_le n
  | fill n => exact read_le n
  | seekTo offset => exact Nat.min_le_right _ _
  | seek w =>
    rw [apply]
    split
    · exact le
    · exact Nat.min_le_right _ _
  | tell => exact le
  | checksum => exact Nat.zero_le _

end Cursor

namespace Slice

variable {s : Slice} {content : List UInt8} {fs : FileSystem}

theorem Within.apply (within : s.Within content) (there : fs.Holds s.path content)
    (fits : content.length < Handle.seekLimit) (op : Op) : (s.apply fs op).2.Within content := by
  have stays := Cursor.offset_apply_le (c := s.cursor content)
    (within.length_bytes.symm ▸ within.offset_le) op
  obtain ⟨offset, left⟩ := s.apply_frame fs op
  rw [← (within.apply_eq there fits op).2, within.length_bytes, left] at stays
  rw [left]
  exact ⟨within.inside, stays⟩

/-- A whole run: the slice answers as its cursor. -/
theorem run_eq_cursor (fits : content.length < Handle.seekLimit) (ops : List (FileSystem × Op)) :
    ∀ {s : Slice}, s.Within content → (∀ x ∈ ops, x.1.Holds s.path content) →
      (s.run ops).1 = ((s.cursor content).run (ops.map Prod.snd)).1 := by
  induction ops with
  | nil => exact fun _ _ => rfl
  | cons x ops ih =>
    intro s within there
    have here : x.1.Holds s.path content := there x List.mem_cons_self
    obtain ⟨reply, left⟩ := within.apply_eq here fits x.2
    have later : ∀ y ∈ ops, y.1.Holds (s.apply x.1 x.2).2.path content := by
      obtain ⟨offset, frame⟩ := s.apply_frame x.1 x.2
      rw [frame]
      exact fun y hy => there y (List.mem_cons_of_mem x hy)
    have rest := ih (within.apply here fits x.2) later
    rw [left] at rest
    rw [run_cons, List.map_cons, Cursor.run_cons, reply, rest]

end Slice

/-- The operation by which one reads that asks for the same: a buffer filled or bytes returned. -/
def Op.plain : Op → Op
  | .fill n => .readBytes (some n)
  | op => op

theorem Cursor.run_plain (ops : List Op) :
    ∀ c : Cursor, c.run (ops.map Op.plain) = c.run ops := by
  induction ops with
  | nil => exact fun _ => rfl
  | cons op ops ih =>
    intro c
    have same : c.apply op.plain = c.apply op := by cases op <;> rfl
    simp only [List.map_cons, run, same, ih]

/-- A slice made of a file that keeps its content, up to the end of which it is cut: it answers
every sequence of operations as the cursor over its bytes; rewound after whatever was done with it,
it answers as if new; and it is all one by which of the two ways of reading bytes are read. No file
is as long as the first place that cannot be sought. -/
theorem slice_answers_as_cursor {path : Path} {content : List UInt8} {start : Nat}
    (fits : content.length < Handle.seekLimit) (inside : start ≤ content.length) (size : Nat) :
    ∃ s : Slice,
      (∀ fs : FileSystem, fs.Holds path content → Slice.of fs path start size = .ok s) ∧
      (∀ ops : List (FileSystem × Op), (∀ x ∈ ops, x.1.Holds path content) →
        (s.run ops).1 = ((Cursor.between content start size).run (ops.map Prod.snd)).1) ∧
      (∀ before after : List (FileSystem × Op),
        (((s.run before).2.seekTo 0).run after).1 = (s.run after).1) ∧
      ∀ ops ops' : List (FileSystem × Op), (∀ x ∈ ops, x.1.Holds path content) →
        (∀ x ∈ ops', x.1.Holds path content) →
        ops.map (fun x => x.2.plain) = ops'.map (fun x => x.2.plain) →
        (s.run ops).1 = (s.run ops').1 := by
  let s : Slice := ⟨path, start, min size (content.length - start), 0⟩
  have within : s.Within content := by
    refine ⟨?_, Nat.zero_le _⟩
    show start + min size (content.length - start) ≤ content.length
    omega
  have bytes_eq : s.cursor content = Cursor.between content start size := by
    have : min (start + size) content.length - start = min size (content.length - start) := by
      omega
    rw [Cursor.between, List.drop_take, this]
    rfl
  have answers := fun ops => Slice.run_eq_cursor fits ops within
  rw [bytes_eq] at answers
  refine ⟨s, fun fs there => there.slice start size, answers, fun before after => ?_, ?_⟩
  · rw [Slice.seekTo_zero_run]
  · intro ops ops' there there' same
    have plain : ∀ l : List (FileSystem × Op),
        l.map (fun x => x.2.plain) = (l.map Prod.snd).map Op.plain := fun l => by
      rw [List.map_map]
      rfl
    rw [plain, plain] at same
    rw [answers ops there, answers ops' there', ← Cursor.run_plain, same, Cursor.run_plain]

/-- A file system with nothing but a file `f`. -/
def single (content : List UInt8) : FileSystem :=
  FileSystem.empty.set [[102]] ⟨.file content, 0o644, true, FileSystem.noTime, FileSystem.noTime⟩

theorem single_holds (content : List UInt8) : (single content).Holds ⟨[102]⟩ content := by
  have found : (single content).walk FileSystem.maxLinks [] [[102]] = .ok (.entry [[102]]) := by
    rw [FileSystem.walk]
    rfl
  have readable : decide (0o644 / 64 % 8 / 4 % 2 = 1) = true := rfl
  refine ⟨[[102]], ⟨.file content, 0o644, true, FileSystem.noTime, FileSystem.noTime⟩, ?_, rfl,
    readable⟩
  show ((single content).walk FileSystem.maxLinks [] [[102]]).bind _ = _
  rw [found]
  rfl

/-- The file says `onetwo`. -/
def onetwo : FileSystem := single [111, 110, 101, 116, 119, 111]

theorem onetwo_holds : onetwo.Holds ⟨[102]⟩ [111, 110, 101, 116, 119, 111] := single_holds _

/-- The last three bytes of it, of which a hundred were asked for: two read, a seek refused, the
rest read, and nothing left. -/
theorem slice_of_onetwo :
    6 < Handle.seekLimit ∧ 3 ≤ 6 ∧ ∃ s, Slice.of onetwo ⟨[102]⟩ 3 100 = .ok s ∧
      (s.run [(onetwo, .readBytes (some 2)), (onetwo, .seek (.current (-5))), (onetwo, .tell),
        (onetwo, .fill 9), (onetwo, .readBytes none)]).1 =
        [.bytes (.ok [116, 119]), .offset (.error (.refused "seek before the start of the view")),
          .offset (.ok 2), .bytes (.ok [111]), .bytes (.ok [])] := by
  let content : List UInt8 := [111, 110, 101, 116, 119, 111]
  have fits : content.length < Handle.seekLimit := by decide
  have inside : 3 ≤ content.length := by decide
  obtain ⟨s, made, answers, _⟩ := slice_answers_as_cursor fits inside 100
  refine ⟨fits, inside, s, made onetwo onetwo_holds, (answers _ fun x hx => ?_).trans rfl⟩
  simp only [List.mem_cons, List.not_mem_nil, or_false] at hx
  rcases hx with rfl | rfl | rfl | rfl | rfl <;> exact onetwo_holds

end Ferry.Files
