import Ferry.Proofs.Files.Attempts
import Ferry.Proofs.Part.Size
import Ferry.Proofs.Part.Tiling
import Ferry.Settings
import Mathlib.Data.List.Forall2

/-!
A file sent in parts arrives as it was. The part size that the settings give divides it into ranges
that may be sent, each range is made a slice, and the slices are read side by side, each in as many
attempts as it takes. What a part has got depends on what was done to that part alone
(`getElem?_visits`); once every part has come to the end, the parts put together are the file.
-/
namespace Ferry.Part

open Ferry.Files

/-- Something done to one of the parts, the file system being `fs` while it lasts. -/
structure Visit where
  part : Nat
  fs : FileSystem
  op : Op

/-- Parts read side by side. -/
def visits (readers : List Reader) (vs : List Visit) : List Reader :=
  vs.foldl (fun readers v => readers.modify v.part fun rd => rd.apply v.fs v.op) readers

/-- What was done to the `i`-th part. -/
def own (i : Nat) (vs : List Visit) : List (FileSystem × Op) :=
  (vs.filter fun v => v.part = i).map fun v => (v.fs, v.op)

theorem own_append (i : Nat) (vs ws : List Visit) : own i (vs ++ ws) = own i vs ++ own i ws := by
  rw [own, List.filter_append, List.map_append]
  rfl

theorem own_cons_same (v : Visit) (vs : List Visit) :
    own v.part (v :: vs) = (v.fs, v.op) :: own v.part vs := by
  rw [own, List.filter_cons_of_pos (by simp)]
  rfl

theorem own_cons_other {v : Visit} {i : Nat} (elsewhere : v.part ≠ i) (vs : List Visit) :
    own i (v :: vs) = own i vs := by
  rw [own, List.filter_cons_of_neg (by simpa using elsewhere)]
  rfl

/-- Parts do not get into each other's way. -/
theorem getElem?_visits (vs : List Visit) (i : Nat) :
    ∀ readers : List Reader,
      (visits readers vs)[i]? = readers[i]?.map fun rd => rd.attempts (own i vs) := by
  induction vs with
  | nil =>
    intro readers
    exact Option.map_id'.symm
  | cons v vs ih =>
    intro readers
    show (visits (readers.modify v.part fun rd => rd.apply v.fs v.op) vs)[i]? = _
    rw [ih, List.getElem?_modify, Option.map_eq_map, Option.map_map]
    congr 1
    funext rd
    rw [Function.comp_apply]
    rcases eq_or_ne v.part i with rfl | elsewhere
    · rw [own_cons_same, if_pos rfl]
      rfl
    · rw [own_cons_other elsewhere, if_neg elsewhere]

/-- In whatever order the parts are read, it comes to the same. -/
theorem visits_eq_of_own {vs ws : List Visit} (same : ∀ i, own i vs = own i ws)
    (readers : List Reader) : visits readers vs = visits readers ws := by
  apply List.ext_getElem?
  intro i
  rw [getElem?_visits, getElem?_visits, same]

/-- The ranges may be sent as parts: there are not too many, none is too large, and none but the
last is too small. -/
structure Sendable (rs : List Range) : Prop where
  length_le : rs.length ≤ maxCount
  le_maxSize : ∀ r ∈ rs, r.length ≤ maxSize
  minSize_le : ∀ r ∈ rs.dropLast, minSize ≤ r.length

/-- Ranges of a size that is allowed may be sent. -/
theorem sendable_ranges {total size : Nat} (minSize_le : minSize ≤ size)
    (le_maxSize : size ≤ maxSize) (few : count total size ≤ maxCount) :
    Sendable (ranges total size) := by
  have pos : 0 < minSize := by decide
  have step_eq : step total size = size := if_neg (by omega)
  refine ⟨?_, fun r hr => ?_, fun r hr => ?_⟩
  · rw [length_ranges, rangeCount, step_eq]
    exact few
  · obtain ⟨n, hn⟩ := List.mem_iff_getElem?.1 hr
    rw [(getElem?_ranges hn).2]
    have := range_length_le total size n
    omega
  · obtain ⟨n, hn⟩ := List.mem_iff_getElem?.1 hr
    rw [List.getElem?_dropLast, length_ranges] at hn
    split at hn
    · rename_i not_last
      rw [(getElem?_ranges hn).2, range_length_eq (by omega), step_eq]
      exact minSize_le
    · cases hn

/-- The settings give a part size for every object that is not too large. -/
theorem exists_sendable (s : Settings) {total : Nat} (sendable : total ≤ maxTotal) :
    ∃ size, s.partSizeFor total = .ok size ∧ Sendable (ranges total size) := by
  obtain ⟨size, found, minSize_le, le_maxSize, few⟩ := size_spec sendable s.partSize.toNat
  exact ⟨size, found, sendable_ranges minSize_le le_maxSize few⟩

/-- Whoever asks for less than the smallest part gets that, as long as it needs no more parts than
there may be. -/
theorem partSizeFor_smallest {s : Settings} {total : Nat} (asked : s.partSize.toNat ≤ minSize)
    (few : total ≤ maxCount * minSize) : s.partSizeFor total = .ok minSize := by
  have pos : 0 < minSize := by decide
  have least : maxCount * minSize ≤ maxTotal := by decide
  rw [Settings.partSizeFor, Part.size, if_neg (by omega), Nat.max_eq_right asked,
    widen_eq ((count_le_iff pos).2 few), Nat.min_eq_left (by decide)]

/-- What the slices made for the ranges of a file are good for. -/
structure Reassembles (path : Path) (content : List UInt8) (rs : List Range) (slices : List Slice) :
    Prop where
  /-- They are what is made for the ranges, whenever that is done. -/
  made : List.Forall₂ (fun r s => ∀ fs : FileSystem, fs.Holds path content →
    Slice.of fs path r.start r.length = .ok s) rs slices
  /-- None is cut short. -/
  sizes : slices.map (·.size) = rs.map (·.length)
  /-- Each read to the end, in any portions and after any number of attempts given up, they bring
  as many bytes as the ranges have, and together the file. -/
  whole : ∀ vs, (∀ v ∈ vs, Serves path content (v.fs, v.op)) →
    (∀ rd ∈ visits (slices.map .of) vs, rd.isDone = true) →
    (visits (slices.map .of) vs).map (·.got.length) = rs.map (·.length) ∧
      ((visits (slices.map .of) vs).map (·.got)).flatten = content
  /-- Each comes to the end when an attempt asks as often as the range has bytes. -/
  ends : ∀ vs ws, (∀ v ∈ vs ++ ws, Serves path content (v.fs, v.op)) →
    ∀ i rd, (visits (slices.map .of) (vs ++ ws))[i]? = some rd →
      (∀ x ∈ own i ws, x.2.asks = true) → (∀ r ∈ rs[i]?, r.length ≤ (own i ws).length) →
        rd.isDone = true
  /-- It does not matter in what order they are read. -/
  order : ∀ vs ws, (∀ i, own i vs = own i ws) →
    visits (slices.map .of) vs = visits (slices.map .of) ws

/-- The slice of a range. -/
def Range.slice (path : Path) (r : Range) : Slice := ⟨path, r.start, r.length, 0⟩

section

variable {path : Path} {content : List UInt8} {size : Nat}

theorem end_le_of_mem {total : Nat} {r : Range} (hr : r ∈ ranges total size) :
    r.start + r.length ≤ total := by
  obtain ⟨n, hn⟩ := List.mem_iff_getElem?.1 hr
  obtain ⟨lt, rfl⟩ := getElem?_ranges hn
  exact range_end_le lt

theorem within_slice {r : Range} (hr : r ∈ ranges content.length size) :
    (r.slice path).Within content :=
  ⟨end_le_of_mem hr, Nat.zero_le _⟩

theorem serves_own {vs : List Visit} (serves : ∀ v ∈ vs, Serves path content (v.fs, v.op))
    (i : Nat) : ∀ x ∈ own i vs, Serves path content x := by
  intro x hx
  obtain ⟨v, hv, rfl⟩ := List.mem_map.1 hx
  exact serves v (List.mem_filter.1 hv).1

/-- The reader of a part is, whatever has been done, a reader of the slice of its range. -/
theorem reads_own (fits : content.length < Handle.seekLimit) {vs : List Visit}
    (serves : ∀ v ∈ vs, Serves path content (v.fs, v.op)) {r : Range}
    (hr : r ∈ ranges content.length size) (i : Nat) :
    Reads (r.slice path) content ((Reader.of (r.slice path)).attempts (own i vs)) :=
  Reads.attempts (within_slice hr) fits (Reads.start (r.slice path) content) (serves_own serves i)

/-- The readers of all parts, before anything is read. -/
def readers (path : Path) (total size : Nat) : List Reader :=
  ((ranges total size).map (Range.slice path)).map .of

theorem getElem?_visits_readers (path : Path) (total size : Nat) (vs : List Visit) (i : Nat) :
    (visits (readers path total size) vs)[i]? =
      (ranges total size)[i]?.map fun r => (Reader.of (r.slice path)).attempts (own i vs) := by
  rw [getElem?_visits, readers, List.getElem?_map, List.getElem?_map, Option.map_map,
    Option.map_map]
  rfl

/-- When every part has come to the end, they have got the pieces of the content. -/
theorem map_got_visits (fits : content.length < Handle.seekLimit) {vs : List Visit}
    (serves : ∀ v ∈ vs, Serves path content (v.fs, v.op))
    (done : ∀ rd ∈ visits (readers path content.length size) vs, rd.isDone = true) :
    (visits (readers path content.length size) vs).map (·.got) =
      (ranges content.length size).map fun r => r.piece content := by
  apply List.ext_getElem?
  intro i
  have at_i := getElem?_visits_readers path content.length size vs i
  rw [List.getElem?_map, List.getElem?_map, at_i]
  cases hr : (ranges content.length size)[i]? with
  | none => rfl
  | some r =>
    rw [hr] at at_i
    have r_mem := List.mem_of_getElem? hr
    have finished := done _ (List.mem_of_getElem? at_i)
    exact congrArg some ((reads_own fits serves r_mem i).got_eq (within_slice r_mem) finished)

/-- An attempt that asks as often as its range has bytes comes to the end, whatever was there
before it. -/
theorem isDone_attempts (fits : content.length < Handle.seekLimit) {vs ws : List Visit}
    (serves : ∀ v ∈ vs ++ ws, Serves path content (v.fs, v.op)) {r : Range}
    (hr : r ∈ ranges content.length size) {i : Nat} (asks : ∀ x ∈ own i ws, x.2.asks = true)
    (enough : r.length ≤ (own i ws).length) :
    ((Reader.of (r.slice path)).attempts (own i (vs ++ ws))).isDone = true := by
  have within : (r.slice path).Within content := within_slice hr
  have before := reads_own fits (fun v hv => serves v (List.mem_append_left ws hv)) hr i
  have asked : ∀ x ∈ own i ws, x.1.Holds path content ∧ x.2.asks = true := fun x hx =>
    ⟨(serves_own (fun v hv => serves v (List.mem_append_right vs hv)) i x hx).1, asks x hx⟩
  have grown := before.le_length_attempts within fits asked
  have reads := reads_own fits serves hr i
  have size_eq : (r.slice path).size = r.length := rfl
  refine (reads.isDone_iff within).2 (Nat.le_antisymm (reads.got_le within) ?_)
  rw [own_append, Reader.attempts_append]
  omega

theorem reassembles_ranges (fits : content.length < Handle.seekLimit) (path : Path) (size : Nat) :
    Reassembles path content (ranges content.length size)
      ((ranges content.length size).map (Range.slice path)) where
  made := by
    rw [List.forall₂_map_right_iff, List.forall₂_same]
    intro r hr fs there
    have := end_le_of_mem hr
    rw [there.slice, Nat.min_eq_left (by omega)]
    rfl
  sizes := List.map_map
  whole vs serves done := by
    have pieces := map_got_visits fits serves done
    constructor
    · calc
        (visits (readers path content.length size) vs).map (·.got.length) =
            ((visits (readers path content.length size) vs).map (·.got)).map List.length :=
          List.map_map.symm
        _ = (ranges content.length size).map fun r => (r.piece content).length := by
          rw [pieces, List.map_map]
          rfl
        _ = (ranges content.length size).map (·.length) :=
          List.map_congr_left fun r hr => (within_slice hr : (r.slice path).Within _).length_bytes
    · exact (congrArg List.flatten pieces).trans (flatten_pieces content size)
  ends vs ws serves i rd hrd asks enough := by
    obtain ⟨r, hr, rfl⟩ := Option.map_eq_some_iff.1
      ((getElem?_visits_readers path content.length size (vs ++ ws) i).symm.trans hrd)
    exact isDone_attempts fits serves (List.mem_of_getElem? hr) asks (enough r hr)
  order vs ws same := visits_eq_of_own same _

end

/-- Every file that is not too large is sent as it is, whatever the settings ask for: the part size
they give divides it into ranges that may be sent, and slices of it are made for them that bring
together the file, read in attempts side by side. -/
theorem parts_reassemble (settings : Settings) (path : Path) {content : List UInt8}
    (sendable : content.length ≤ maxTotal) :
    ∃ size slices, settings.partSizeFor content.length = .ok size ∧
      Sendable (ranges content.length size) ∧
      Reassembles path content (ranges content.length size) slices := by
  obtain ⟨size, found, may_be_sent⟩ := exists_sendable settings sendable
  have far : maxTotal < Handle.seekLimit := by decide
  exact ⟨size, _, found, may_be_sent,
    reassembles_ranges (Nat.lt_of_le_of_lt sendable far) path size⟩

/-- A file of two bytes more than the smallest part has. -/
def sevens : List UInt8 := List.replicate (minSize + 2) 7

theorem length_sevens : sevens.length = 5242882 := by
  rw [sevens, List.length_replicate]
  decide

theorem own_replicate (i n : Nat) (v : Visit) :
    own i (List.replicate n v) = if v.part = i then List.replicate n (v.fs, v.op) else [] := by
  rw [own, List.filter_replicate]
  split <;> simp_all

/-- A first attempt at the first of two parts is given up. -/
def givenUp (fs : FileSystem) : List Visit :=
  [⟨0, fs, .fill 4⟩, ⟨1, fs, .readBytes (some 1)⟩, ⟨0, fs, .seekTo 0⟩]

/-- Two parts, of `n` and of two bytes, are read byte by byte. -/
def bytewise (fs : FileSystem) (n : Nat) : List Visit :=
  List.replicate 2 ⟨1, fs, .fill 1⟩ ++ List.replicate n ⟨0, fs, .readBytes (some 1)⟩

theorem serves_two {fs : FileSystem} {path : Path} {content : List UInt8}
    (there : fs.Holds path content) (n : Nat) :
    ∀ v ∈ givenUp fs ++ bytewise fs n, Serves path content (v.fs, v.op) := by
  intro v hv
  simp only [givenUp, bytewise, List.mem_append, List.mem_cons, List.not_mem_nil, or_false,
    List.mem_replicate] at hv
  rcases hv with (rfl | rfl | rfl) | ⟨-, rfl⟩ | ⟨-, rfl⟩
  · exact ⟨there, .inl rfl⟩
  · exact ⟨there, .inl rfl⟩
  · exact ⟨there, .inr rfl⟩
  · exact ⟨there, .inl rfl⟩
  · exact ⟨there, .inl rfl⟩

theorem asks_bytewise (fs : FileSystem) (n i : Nat) :
    (∀ x ∈ own i (bytewise fs n), x.2.asks = true) ∧
      ∀ r ∈ [(⟨0, n⟩ : Range), ⟨n, 2⟩][i]?, r.length ≤ (own i (bytewise fs n)).length := by
  rw [bytewise, own_append, own_replicate, own_replicate]
  match i with
  | 0 =>
    refine ⟨fun x hx => ?_, by simp⟩
    rw [List.eq_of_mem_replicate (show x ∈ List.replicate n _ by simpa using hx)]
    rfl
  | 1 =>
    refine ⟨fun x hx => ?_, by simp⟩
    rw [List.eq_of_mem_replicate (show x ∈ List.replicate 2 _ by simpa using hx)]
    rfl
  | i + 2 => exact ⟨nofun, nofun⟩

/-- Part sizes of one byte are asked for, and the smallest parts that there may be are made. The
first attempt at the first part is given up; then either part is read byte by byte. -/
theorem two_parts_reassembled :
    let settings : Settings := { Settings.initial with partSize := 1 }
    let file := single sevens
    sevens.length ≤ maxTotal ∧ ∃ size slices, settings.partSizeFor sevens.length = .ok size ∧
      ranges sevens.length size = [⟨0, minSize⟩, ⟨minSize, 2⟩] ∧
      List.Forall₂ (fun r s => Slice.of file ⟨[102]⟩ r.start r.length = .ok s)
        (ranges sevens.length size) slices ∧
      ((visits (slices.map .of) (givenUp file ++ bytewise file minSize)).map (·.got)).flatten =
        sevens := by
  intro settings file
  have sendable : sevens.length ≤ maxTotal := by
    rw [length_sevens]
    decide
  obtain ⟨size, slices, found, -, parts⟩ := parts_reassemble settings ⟨[102]⟩ sendable
  have least : settings.partSizeFor sevens.length = .ok minSize :=
    partSizeFor_smallest (by decide) (by rw [length_sevens]; decide)
  obtain rfl : minSize = size := Except.ok.inj (least.symm.trans found)
  have two : ranges sevens.length minSize = [⟨0, minSize⟩, ⟨minSize, 2⟩] := by
    rw [length_sevens]
    decide
  have there : file.Holds ⟨[102]⟩ sevens := single_holds sevens
  have serves := serves_two there minSize
  refine ⟨sendable, _, slices, found, two, parts.made.imp fun _ _ always => always _ there,
    (parts.whole _ serves fun rd hrd => ?_).2⟩
  obtain ⟨i, hi⟩ := List.mem_iff_getElem?.1 hrd
  obtain ⟨asks, enough⟩ := asks_bytewise file minSize i
  exact parts.ends _ _ serves i rd hi asks (by rwa [two])

end Ferry.Part
