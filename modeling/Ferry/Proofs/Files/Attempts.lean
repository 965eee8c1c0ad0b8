import Ferry.Proofs.Files.Cursor

/-!
A slice read in attempts, as when a part is sent and has to be sent again. Bytes are asked for in
any portions; an attempt may be given up at any time by moving back to the start, and what it got
then counts for nothing. What an attempt has got is a beginning of the bytes of the slice, and all
of them once it has come to the end (`Reads.got_eq`).
-/
namespace Ferry.Files

/-- Whether an operation asks for bytes, one at least. -/
def Op.asks : Op → Bool
  | .readBytes none => true
  | .readBytes (some n) => 0 < n
  | .fill n => 0 < n
  | _ => false

/-- An operation of those who read in attempts, the file holding `content` while it lasts. -/
def Serves (path : Path) (content : List UInt8) (x : FileSystem × Op) : Prop :=
  x.1.Holds path content ∧ (x.2.asks = true ∨ x.2 = .seekTo 0)

/-- A slice being read: what the attempt under way has got, and whether nothing came when bytes
were asked for last. -/
structure Reader where
  slice : Slice
  got : List UInt8
  ended : Bool

namespace Reader

/-- The first attempt, before anything is read. -/
def of (slice : Slice) : Reader := ⟨slice, [], false⟩

/-- One operation. To move is to give up the attempt. -/
def apply (rd : Reader) (fs : FileSystem) (op : Op) : Reader :=
  match op, rd.slice.apply fs op with
  | .seekTo _, (_, slice) => ⟨slice, [], false⟩
  | _, (.bytes (.ok bytes), slice) => ⟨slice, rd.got ++ bytes, bytes.isEmpty⟩
  | _, (_, slice) => { rd with slice }

/-- Operations one after another. -/
def attempts (rd : Reader) (ops : List (FileSystem × Op)) : Reader :=
  ops.foldl (fun rd x => rd.apply x.1 x.2) rd

theorem attempts_append (rd : Reader) (ops ops' : List (FileSystem × Op)) :
    rd.attempts (ops ++ ops') = (rd.attempts ops).attempts ops' :=
  List.foldl_append

/-- Whether the attempt has come to the end: nothing came, or nothing remains. -/
def isDone (rd : Reader) : Bool := rd.ended || rd.slice.remaining == 0

end Reader

namespace Slice

variable {s : Slice} {content : List UInt8} {fs : FileSystem} {op : Op}

/-- However bytes are asked for, the next ones of the slice come. -/
theorem Within.apply_asks (within : s.Within content) (there : fs.Holds s.path content)
    (fits : content.length < Handle.seekLimit) (asks : op.asks = true) :
    ∃ n, 0 < n ∧ s.apply fs op =
      (.bytes (s.readAhead content n).1, (s.readAhead content n).2) := by
  cases op with
  | readBytes amount =>
    cases amount with
    | none =>
      -- all that remains is no more than what remains and one byte
      have same : s.readBytes fs none = s.readBytes fs (some (s.remaining + 1)) := by
        simp only [readBytes, Nat.min_eq_right (Nat.le_succ s.remaining)]
      refine ⟨s.remaining + 1, Nat.succ_pos _, ?_⟩
      rw [Slice.apply, same, within.readBytes_some there fits]
      rfl
    | some n =>
      refine ⟨n, of_decide_eq_true asks, ?_⟩
      rw [Slice.apply, within.readBytes_some there fits]
      rfl
  | fill n =>
    refine ⟨n, of_decide_eq_true asks, ?_⟩
    rw [Slice.apply, within.fill_eq there fits]
    rfl
  | seekTo _ => cases asks
  | seek _ => cases asks
  | tell => cases asks
  | checksum => cases asks

end Slice

/-- A reader of a slice: what the attempt has got is as much of the bytes as lies behind. -/
structure Reads (s : Slice) (content : List UInt8) (rd : Reader) : Prop where
  slice_eq : rd.slice = { s with offset := rd.got.length }
  got_prefix : rd.got <+: (s.cursor content).bytes
  ended : rd.ended = true → rd.got.length = s.size

namespace Reads

variable {s : Slice} {content : List UInt8} {fs : FileSystem} {op : Op} {rd : Reader}
  {ops : List (FileSystem × Op)}

theorem start (s : Slice) (content : List UInt8) :
    Reads { s with offset := 0 } content (.of { s with offset := 0 }) :=
  ⟨rfl, List.nil_prefix, nofun⟩

theorem got_le (reads : Reads s content rd) (within : s.Within content) :
    rd.got.length ≤ s.size :=
  within.length_bytes ▸ reads.got_prefix.length_le

theorem within (reads : Reads s content rd) (within : s.Within content) :
    rd.slice.Within content := by
  rw [reads.slice_eq]
  exact ⟨within.inside, reads.got_le within⟩

/-- To ask for bytes brings at least one as long as there is one. -/
theorem ask (reads : Reads s content rd) (within : s.Within content)
    (there : fs.Holds s.path content) (fits : content.length < Handle.seekLimit)
    (asks : op.asks = true) :
    Reads s content (rd.apply fs op) ∧
      min s.size (rd.got.length + 1) ≤ (rd.apply fs op).got.length := by
  have here : fs.Holds rd.slice.path content := by
    rw [reads.slice_eq]
    exact there
  obtain ⟨n, pos, came⟩ := (reads.within within).apply_asks here fits asks
  let block := ((s.cursor content).bytes.drop rd.got.length).take n
  have next : rd.apply fs op =
      ⟨{ s with offset := rd.got.length + block.length }, rd.got ++ block, block.isEmpty⟩ := by
    have result : rd.slice.apply fs op =
        (.bytes (.ok block), { s with offset := rd.got.length + block.length }) := by
      rw [came, reads.slice_eq]
      rfl
    cases op with
    | readBytes _ => simp only [Reader.apply, result]
    | fill _ => simp only [Reader.apply, result]
    | seekTo _ => cases asks
    | seek _ => cases asks
    | tell => cases asks
    | checksum => cases asks
  have length_block : block.length = min n (s.size - rd.got.length) := by
    rw [List.length_take, List.length_drop, within.length_bytes]
  have got_le := reads.got_le within
  have grown : (rd.got ++ block).length = rd.got.length + block.length := List.length_append
  rw [next]
  refine ⟨⟨?_, ?_, fun none_came => ?_⟩, ?_⟩
  · rw [grown]
  · have behind : rd.got = (s.cursor content).bytes.take rd.got.length :=
      List.prefix_iff_eq_take.1 reads.got_prefix
    have : rd.got ++ block = (s.cursor content).bytes.take (rd.got.length + n) := calc
      rd.got ++ block = (s.cursor content).bytes.take rd.got.length ++ block :=
        congrArg (· ++ block) behind
      _ = (s.cursor content).bytes.take (rd.got.length + n) := List.take_add.symm
    rw [this]
    exact List.take_prefix _ _
  · -- nothing came though something was asked for: nothing was left
    have : block.length = 0 := by
      rw [List.isEmpty_iff.1 none_came]
      rfl
    show (rd.got ++ block).length = s.size
    omega
  · show _ ≤ (rd.got ++ block).length
    omega

/-- Moving back to the start begins the next attempt. -/
theorem rewind (reads : Reads s content rd) : Reads s content (rd.apply fs (.seekTo 0)) := by
  refine ⟨?_, List.nil_prefix, nofun⟩
  show rd.slice.seekTo 0 = { s with offset := 0 }
  rw [reads.slice_eq, Slice.seekTo, Nat.zero_min]

theorem attempts (within : s.Within content) (fits : content.length < Handle.seekLimit) :
    ∀ {rd : Reader}, Reads s content rd → (∀ x ∈ ops, Serves s.path content x) →
      Reads s content (rd.attempts ops) := by
  induction ops with
  | nil => exact fun reads _ => reads
  | cons x ops ih =>
    intro rd reads serves
    obtain ⟨there, what⟩ := serves x List.mem_cons_self
    have next : Reads s content (rd.apply x.1 x.2) := by
      rcases what with asks | back
      · exact (reads.ask within there fits asks).1
      · rw [back]
        exact reads.rewind
    exact ih next fun y hy => serves y (List.mem_cons_of_mem x hy)

/-- As long as an attempt is not given up it gets on, until there is nothing more. -/
theorem le_length_attempts (within : s.Within content) (fits : content.length < Handle.seekLimit) :
    ∀ {rd : Reader}, Reads s content rd →
      (∀ x ∈ ops, x.1.Holds s.path content ∧ x.2.asks = true) →
      min s.size (rd.got.length + ops.length) ≤ (rd.attempts ops).got.length := by
  induction ops with
  | nil => exact fun _ _ => Nat.min_le_right _ _
  | cons x ops ih =>
    intro rd reads asked
    obtain ⟨there, asks⟩ := asked x List.mem_cons_self
    obtain ⟨next, more⟩ := reads.ask within there fits asks
    have rest := ih next fun y hy => asked y (List.mem_cons_of_mem x hy)
    rw [List.length_cons]
    show _ ≤ ((rd.apply x.1 x.2).attempts ops).got.length
    omega

theorem isDone_iff (reads : Reads s content rd) (within : s.Within content) :
    rd.isDone = true ↔ rd.got.length = s.size := by
  have := reads.got_le within
  have remaining : rd.slice.remaining = s.size - rd.got.length := by
    rw [reads.slice_eq]
    rfl
  rw [Reader.isDone, Bool.or_eq_true, beq_iff_eq, remaining]
  constructor
  · rintro (nothing | none_left)
    · exact reads.ended nothing
    · omega
  · intro all
    exact .inr (by omega)

/-- An attempt that has come to the end has got every byte of the slice, in order. -/
theorem got_eq (reads : Reads s content rd) (within : s.Within content)
    (done : rd.isDone = true) : rd.got = (s.cursor content).bytes :=
  reads.got_prefix.eq_of_length
    (((reads.isDone_iff within).1 done).trans within.length_bytes.symm)

end Reads
end Ferry.Files
