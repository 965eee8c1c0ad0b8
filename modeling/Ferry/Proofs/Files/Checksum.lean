import Ferry.Proofs.Files.Cursor

/-!
The checksum of a slice. It has a way of its own to the bytes: from the start of the slice whatever
was read before, by blocks, and up to the size of the slice instead of what remains of it. It covers
what the slice reads when it is new (`checksum_covers_slice`), because no history leaves more behind
than an offset (`run_frame`), and leaves the slice as new.
-/
namespace Ferry.Files

/-- The SHA-256 digest of bytes in Base64. -/
def digestText (bytes : List UInt8) : String := String.ofList (Digest.base64 (Digest.sha256 bytes))

variable {δ ε : Type} [Disk δ] [Disk ε]

namespace Slice

/-- Where the offset is makes no difference to a checksum. -/
theorem checksum_offset (s : Slice) (disk : δ) (offset : Nat) :
    ({ s with offset } : Slice).checksum disk = s.checksum disk := rfl

/-- Neither does what was done before, with whatever has stood in the place of the file. -/
theorem checksum_run (s : Slice) (disk : δ) (history : List (ε × Op)) :
    (s.run history).2.checksum disk = s.checksum disk := by
  obtain ⟨offset, left⟩ := run_frame history s
  rw [left, checksum_offset]

end Slice

/-- The checksum of a slice is that of the bytes which the slice reads when it is new, after any
history on any disk, and the slice is as new afterwards, so that the same checksum comes when it is
asked for again. No file is as long as the first place that cannot be sought. -/
theorem checksum_covers_slice (δ : Type) [Disk δ] {path : Path} {content : List UInt8} {start : Nat}
    (fits : content.length < Handle.seekLimit) (inside : start ≤ content.length) (size : Nat) :
    ∃ s : Slice,
      (∀ fs : FileSystem, fs.Holds path content → Slice.of fs path start size = .ok s) ∧
      s.offset = 0 ∧
      ∃ bytes, bytes = (content.drop start).take size ∧
        (∀ fs : FileSystem, fs.Holds path content → (s.readBytes fs none).1 = .ok bytes) ∧
        ∀ (history : List (δ × Op)) (fs : FileSystem), fs.Holds path content →
          (s.run history).2.checksum fs = (.ok (digestText bytes), s) ∧
          ∀ later : FileSystem, later.Holds path content →
            ((s.run history).2.checksum fs).2.checksum later = (s.run history).2.checksum fs := by
  let s : Slice := ⟨path, start, min size (content.length - start), 0⟩
  have within : s.Within content := by
    refine ⟨?_, Nat.zero_le _⟩
    show start + min size (content.length - start) ≤ content.length
    omega
  have bytes_eq : (s.cursor content).bytes = (content.drop start).take size := by
    show (content.drop start).take (min size (content.length - start)) = _
    rw [← List.length_drop, ← List.take_eq_take_min]
  have covers : ∀ fs : FileSystem, fs.Holds path content →
      s.checksum fs = (.ok (digestText ((content.drop start).take size)), s) := by
    intro fs there
    rw [within.checksum_eq there fits, bytes_eq]
    rfl
  refine ⟨s, fun fs there => there.slice start size, rfl, _, rfl, fun fs there => ?_,
    fun history fs there => ?_⟩
  · rw [within.readBytes_none there fits, bytes_eq]
    rfl
  · rw [Slice.checksum_run, covers fs there]
    exact ⟨rfl, covers⟩

/-- The last three bytes of `onetwo`, of which two were read, and once more after the file was
gone. -/
theorem checksum_of_two :
    6 < Handle.seekLimit ∧ 3 ≤ 6 ∧ onetwo.Holds ⟨[102]⟩ [111, 110, 101, 116, 119, 111] ∧
    ∃ s, Slice.of onetwo ⟨[102]⟩ 3 100 = .ok s ∧
      ((s.run [(onetwo, .fill 2), (.empty, .readBytes none)]).2.checksum onetwo).1 =
        .ok "P8TM/nRYcOLA2Z9x8w/wZWyN7dQcwdfT03aw2+aF4vM=" := by
  let content : List UInt8 := [111, 110, 101, 116, 119, 111]
  have fits : content.length < Handle.seekLimit := by decide
  have inside : 3 ≤ content.length := by decide
  have digest : digestText [116, 119, 111] = "P8TM/nRYcOLA2Z9x8w/wZWyN7dQcwdfT03aw2+aF4vM=" := by
    decide +kernel
  obtain ⟨s, made, -, bytes, rfl, -, covers⟩ :=
    checksum_covers_slice FileSystem fits inside 100
  refine ⟨fits, inside, onetwo_holds, s, made onetwo onetwo_holds, ?_⟩
  rw [(covers _ onetwo onetwo_holds).1]
  exact congrArg Except.ok digest

end Ferry.Files
