import Ferry.Proofs.Files.Checksum

/-!
A slice without bytes, such as one that starts at the end of its file or beyond. Reading it never
goes to the file, and no operation changes it (`Empty.run_eq`). A checksum alone opens the file and
seeks the place where the slice starts, so it is refused where a place cannot be sought
(`no_checksum_beyond_seek_limit`), be there bytes to read or not.
-/
namespace Ferry.Files

/-- Whether a place is sought before the start of a slice without bytes. -/
def Whence.isBefore : Whence → Bool
  | .start _ => false
  | .current delta => delta < 0
  | .fromEnd delta => delta < 0

/-- What an operation answers where there are no bytes; `sum` is what a checksum comes to. -/
def Op.idle (sum : Except IoError String) : Op → Reply
  | .readBytes _ => .bytes (.ok [])
  | .fill _ => .bytes (.ok [])
  | .seekTo _ => .done
  | .seek w =>
    .offset (if w.isBefore then .error (.refused "seek before the start of the view") else .ok 0)
  | .tell => .offset (.ok 0)
  | .checksum => .text sum

/-- What the checksum of no bytes comes to, by the place where they start. -/
def emptySum (start : Nat) : Except IoError String :=
  if Handle.seekLimit ≤ start then .error .invalidArgument else .ok (digestText [])

namespace Slice

/-- A slice that covers no bytes, with nothing behind it. -/
structure Empty (s : Slice) : Prop where
  size_eq : s.size = 0
  offset_eq : s.offset = 0

variable {s : Slice} {fs : FileSystem} {content : List UInt8}

theorem Empty.rewound (empty : s.Empty) : ({ s with offset := 0 } : Slice) = s := by
  rw [← empty.offset_eq]

theorem Empty.remaining_eq (empty : s.Empty) : s.remaining = 0 := by
  rw [remaining, empty.size_eq, Nat.zero_sub]

theorem Empty.seekTo_eq (empty : s.Empty) (offset : Nat) : s.seekTo offset = s := by
  have back : min offset s.size = 0 := by rw [empty.size_eq, Nat.min_zero]
  rw [seekTo, back, empty.rewound]

/-- Nothing is left to ask the file for. -/
theorem Empty.readBytes_eq (empty : s.Empty) (amount : Option Nat) :
    s.readBytes fs amount = (.ok [], s) := by
  cases amount with
  | none => exact if_pos empty.remaining_eq
  | some n =>
    have none_left : min n s.remaining = 0 := by rw [empty.remaining_eq, Nat.min_zero]
    exact if_pos none_left

theorem Empty.fill_eq (empty : s.Empty) (n : Nat) : s.fill fs n = (.ok [], s) :=
  if_pos (by rw [empty.remaining_eq, Nat.min_zero])

theorem Empty.seek_eq (empty : s.Empty) (w : Whence) :
    s.seek w =
      (if w.isBefore then .error (.refused "seek before the start of the view") else .ok 0, s) := by
  cases w with
  | start offset => simp [Slice.seek, Whence.isBefore, empty.seekTo_eq, empty.offset_eq]
  | current delta =>
    by_cases before : delta < 0 <;>
      simp [Slice.seek, Whence.isBefore, empty.seekTo_eq, empty.offset_eq, before]
  | fromEnd delta =>
    by_cases before : delta < 0 <;>
      simp [Slice.seek, Whence.isBefore, empty.seekTo_eq, empty.offset_eq, empty.size_eq, before]

/-- The file is opened and sought for a checksum, though nothing is read. -/
theorem Empty.checksum_eq (empty : s.Empty) (there : fs.Holds s.path content) :
    s.checksum fs = (emptySum s.start, s) := by
  simp only [checksum]
  rw [empty.rewound, opened_eq_seek there, empty.offset_eq, empty.size_eq, Nat.add_zero,
    Handle.seek, emptySum]
  split
  · rfl
  · show ((Disk.readBlocks blockSize 0 _).map _, s) = _
    rw [Disk.readBlocks_zero]
    rfl

/-- No operation does anything to an empty slice. -/
theorem Empty.apply_eq (empty : s.Empty) {op : Op}
    (there : op = .checksum → fs.Holds s.path content) :
    s.apply fs op = (op.idle (emptySum s.start), s) := by
  cases op with
  | readBytes amount =>
    rw [apply, empty.readBytes_eq]
    rfl
  | fill n =>
    rw [apply, empty.fill_eq]
    rfl
  | seekTo offset =>
    rw [apply, empty.seekTo_eq]
    rfl
  | seek w =>
    rw [apply, empty.seek_eq]
    rfl
  | tell =>
    rw [apply, empty.offset_eq]
    rfl
  | checksum =>
    rw [apply, empty.checksum_eq (there rfl)]
    rfl

theorem Empty.run_eq (empty : s.Empty) (ops : List (FileSystem × Op))
    (there : ∀ x ∈ ops, x.2 = .checksum → x.1.Holds s.path content) :
    s.run ops = (ops.map fun x => x.2.idle (emptySum s.start), s) := by
  induction ops with
  | nil => rfl
  | cons x ops ih =>
    rw [run_cons, empty.apply_eq (there x List.mem_cons_self),
      ih fun y mem => there y (List.mem_cons_of_mem x mem)]
    rfl

end Slice

/-- A slice that starts at the end of a file or beyond has no bytes and stays where it is. All that
is read is nothing, whatever becomes of the file, and as long as the file can be opened a checksum
is that of no bytes, or is refused where the slice starts at a place that cannot be sought. -/
theorem slice_beyond_end_answers (path : Path) {content : List UInt8} {start : Nat}
    (beyond : content.length ≤ start) (size : Nat) :
    ∃ s : Slice,
      (∀ fs : FileSystem, fs.Holds path content → Slice.of fs path start size = .ok s) ∧
      s.size = 0 ∧ s.offset = 0 ∧
      ∀ ops : List (FileSystem × Op), (∀ x ∈ ops, x.2 = .checksum → x.1.Holds path content) →
        s.run ops = (ops.map fun x => x.2.idle (emptySum start), s) := by
  have nothing : min size (content.length - start) = 0 := by omega
  refine ⟨⟨path, start, 0, 0⟩, fun fs there => ?_, rfl, rfl, fun ops there => ?_⟩
  · rw [there.slice start size, nothing]
  · exact Slice.Empty.run_eq ⟨rfl, rfl⟩ ops there

/-- The file `f` with six bytes, from the first place on that cannot be sought. -/
theorem slice_at_seek_limit_answers :
    6 ≤ Handle.seekLimit ∧ onetwo.Holds ⟨[102]⟩ [111, 110, 101, 116, 119, 111] ∧
    ∃ s, Slice.of onetwo ⟨[102]⟩ Handle.seekLimit 10 = .ok s ∧
      s.run [(onetwo, .readBytes none), (onetwo, .seek (.current 7)), (onetwo, .checksum),
        (.empty, .fill 5), (onetwo, .seek (.fromEnd (-1))), (onetwo, .tell)] =
        ([.bytes (.ok []), .offset (.ok 0), .text (.error .invalidArgument), .bytes (.ok []),
          .offset (.error (.refused "seek before the start of the view")),
          .offset (.ok 0)], s) := by
  let content : List UInt8 := [111, 110, 101, 116, 119, 111]
  have beyond : content.length ≤ Handle.seekLimit := by decide
  obtain ⟨s, made, -, -, answers⟩ := slice_beyond_end_answers ⟨[102]⟩ beyond 10
  refine ⟨beyond, onetwo_holds, s, made onetwo onetwo_holds, (answers _ ?_).trans rfl⟩
  simpa using onetwo_holds

/-- A slice of the file `f` that has no bytes has no checksum where it starts at a place that cannot
be sought. -/
theorem no_checksum_beyond_seek_limit :
    onetwo.Holds ⟨[102]⟩ [111, 110, 101, 116, 119, 111] ∧ 6 ≤ Handle.seekLimit ∧
    ∃ s, Slice.of onetwo ⟨[102]⟩ Handle.seekLimit 10 = .ok s ∧ s.size = 0 ∧
      (s.readBytes onetwo none).1 = .ok [] ∧
      (s.checksum onetwo).1 = .error .invalidArgument := by
  have empty : (⟨⟨[102]⟩, Handle.seekLimit, 0, 0⟩ : Slice).Empty := ⟨rfl, rfl⟩
  have refused : emptySum Handle.seekLimit = .error .invalidArgument :=
    if_pos (Nat.le_refl Handle.seekLimit)
  exact ⟨onetwo_holds, by decide, _, onetwo_holds.slice Handle.seekLimit 10, rfl,
    congrArg Prod.fst (empty.readBytes_eq none),
    (congrArg Prod.fst (empty.checksum_eq onetwo_holds)).trans refused⟩

/-- The checksum of no bytes. -/
example : digestText [] = "47DEQpj8HBSa+/TImW+5JCeuQeRkm5NMpJWZG3hSuFU=" := by decide +kernel

end Ferry.Files
