import Ferry.Proofs.ByteSize.Reading
import Ferry.Proofs.Json.Members
import Ferry.Proofs.Records
import Ferry.SettingsFile

/-!
What a settings object says. `IsSize` tells which values stand for a size, without mention of the
reader: the byte count itself, or a text that is read as it. The reader takes exactly these
(`sizeCodec_eq_ok_iff`), so a value for a size may be put in place of any other one for it, and
everything else is refused (`sizes_read_alike_or_refused`).

Settings are read exactly if the object tells all five of them: under each name there is one value
that stands for the setting, or none and the setting is the initial one (`ToldBy`).
-/
namespace Ferry.Settings

open Ferry.Files Ferry.Json

/-- A value stands for a size: it is the number of bytes, or a text that is read as it. -/
inductive IsSize (n : UInt64) : Draft → Prop
  | number : IsSize n (.number (.ok (.integer n.toNat)))
  | text {s : String} (read : ByteSize.read s = .ok n.toNat) : IsSize n (.string (.ok s))

/-- A value is an unsigned word. -/
def IsUnsigned (n : UInt64) (d : Draft) : Prop := d = .number (.ok (.integer n.toNat))

/-- A value is a signed word. -/
def IsSigned (n : Int64) (d : Draft) : Prop := d = .number (.ok (.integer n.toInt))

/-- What an object says of a setting: the one value under its name stands for it, or there is none
and it is the initial one. -/
inductive Tells {α : Type} (stands : α → Draft → Prop) (initial : α) (ds : List Draft) :
    α → Prop
  | absent (none : ds = []) : Tells stands initial ds initial
  | value {d : Draft} {a : α} (one : ds = [d]) (value : stands a d) : Tells stands initial ds a

/-- An object says what the settings are. -/
structure ToldBy (ms : List Member) (s : Settings) : Prop where
  threshold : Tells IsSize initial.threshold (given "multipart_threshold" ms) s.threshold
  partSize : Tells IsSize initial.partSize (given "multipart_chunksize" ms) s.partSize
  queueCapacity : Tells IsUnsigned initial.queueCapacity (given "max_queue_size" ms) s.queueCapacity
  maxPriority : Tells IsSigned initial.maxPriority (given "max_priority" ms) s.maxPriority
  maxRequests :
    Tells IsUnsigned initial.maxRequests (given "max_concurrent_requests" ms) s.maxRequests

/-- The names of the two sizes. -/
def sizeNames : List String := ["multipart_threshold", "multipart_chunksize"]

/-- The names of all settings. -/
def names : List String :=
  sizeNames ++ ["max_queue_size", "max_priority", "max_concurrent_requests"]

variable {d d' : Draft} {n : UInt64} {s : Settings} {text name : String}
  {members front back : List Member} {stop after : Option Fault}

theorem ofNat_toNat_eq_iff {k : Int} (inside : 0 ≤ k ∧ k.toNat < UInt64.size) :
    UInt64.ofNat k.toNat = n ↔ k = n.toNat := by
  constructor
  · rintro rfl
    rw [UInt64.toNat_ofNat_of_lt' inside.2, Int.toNat_of_nonneg inside.1]
  · rintro rfl
    rw [Int.toNat_natCast, UInt64.ofNat_toNat]

/-- The sizes that people write have 64 bits. -/
theorem lt_of_read_size {s : String} {m : Nat} (read : ByteSize.read s = .ok m) :
    m < UInt64.size := by
  obtain ⟨_, _, _, fits, rfl⟩ := ByteSize.read?_eq_some_iff.1 (ByteSize.read_eq_ok_iff.1 read)
  exact fits

/-- A size is read exactly of what stands for it. -/
theorem sizeCodec_eq_ok_iff : sizeCodec.read d = .ok n ↔ IsSize n d := by
  constructor
  · intro whole
    simp only [sizeCodec] at whole
    split at whole
    · cases whole
    · split at whole
      · split at whole
        · rename_i inside
          rw [(ofNat_toNat_eq_iff inside).1 (Except.ok.inj whole)]
          exact .number
        · cases whole
      · split at whole
        · rename_i read
          obtain rfl := Except.ok.inj whole
          refine .text (read.trans (congrArg _ ?_))
          rw [UInt64.toNat_ofNat_of_lt' (lt_of_read_size read)]
        · cases whole
      · cases whole
  · rintro (_ | read)
    · exact (sizeCodec_keeps n).read_write
    · simp only [sizeCodec, Draft.flaw, Draft.faultOf, read, UInt64.ofNat_toNat]

theorem word_eq_ok_iff {wanted : String} : (Codec.word wanted).read d = .ok n ↔ IsUnsigned n d := by
  constructor
  · intro whole
    simp only [Codec.word] at whole
    split at whole
    · split at whole
      · rename_i inside
        rw [(ofNat_toNat_eq_iff inside).1 (Except.ok.inj whole)]
        rfl
      · cases whole
    · cases whole
  · rintro rfl
    exact (Codec.word_keeps wanted n).read_write

theorem signedWord_eq_ok_iff {wanted : String} {n : Int64} :
    (Codec.signedWord wanted).read d = .ok n ↔ IsSigned n d := by
  constructor
  · intro whole
    simp only [Codec.signedWord] at whole
    split at whole
    · split at whole
      · rename_i inside
        obtain rfl := Except.ok.inj whole
        rw [IsSigned, Int64.toInt_ofInt_of_le inside.1 (Int.lt_of_le_of_lt inside.2 (by decide))]
      · cases whole
    · cases whole
  · rintro rfl
    exact (Codec.signedWord_keeps wanted n).read_write

theorem IsSize.gap (size : IsSize n d) : d.gap = none := by
  cases size <;> rfl

/-- A field with a default is told what is said of it. -/
theorem told_default_iff {α : Type} {name : String} {c : Codec α} {initial a : α}
    {ds : List Draft} {stands : α → Draft → Prop} (reads : ∀ a d, c.read d = .ok a ↔ stands a d) :
    (Field.default name c initial).Told ds a ↔ Tells stands initial ds a := by
  constructor
  · rintro (⟨none, value⟩ | ⟨d, one, read⟩)
    · obtain rfl := Option.some.inj value
      exact .absent none
    · exact .value one ((reads a d).1 read)
  · rintro (none | ⟨one, value⟩)
    · exact .inl ⟨none, rfl⟩
    · exact .inr ⟨_, one, (reads a _).2 value⟩

theorem told_size {name : String} {initial : UInt64} {ds : List Draft} :
    (Field.default name sizeCodec initial).Told ds n ↔ Tells IsSize initial ds n :=
  told_default_iff fun _ _ => sizeCodec_eq_ok_iff

theorem told_word {name wanted : String} {initial : UInt64} {ds : List Draft} :
    (Field.default name (.word wanted) initial).Told ds n ↔ Tells IsUnsigned initial ds n :=
  told_default_iff fun _ _ => word_eq_ok_iff

theorem told_signedWord {name wanted : String} {initial n : Int64} {ds : List Draft} :
    (Field.default name (.signedWord wanted) initial).Told ds n ↔
      Tells IsSigned initial ds n :=
  told_default_iff fun _ _ => signedWord_eq_ok_iff

/-- Settings are read of an object exactly if it is whole, tells all of them, and what is passed
over is JSON. -/
theorem codec_object_eq_ok_iff : codec.read (.object members stop) = .ok s ↔
    stop = none ∧ PassedOver names members ∧ s.ToldBy members := by
  refine (Codec.iso_eq_ok_iff ?_).trans ((Codec.record_object_eq_ok_iff (by decide)).trans
    (and_congr_right' (and_congr_right' ?_)))
  · rintro ⟨a, b, c, d, e, ⟨⟩⟩ ⟨a', b', c', d', e'⟩
    constructor <;> rintro ⟨⟩ <;> rfl
  · constructor
    · rintro ⟨a, b, c, d, e, -⟩
      exact ⟨told_size.1 a, told_size.1 b, told_word.1 c, told_signedWord.1 d, told_word.1 e⟩
    · rintro ⟨a, b, c, d, e⟩
      exact ⟨told_size.2 a, told_size.2 b, told_word.2 c, told_signedWord.2 d, told_word.2 e,
        trivial⟩

/-- What settings are read of an object, or why none are, stays the same when one value for a size
stands in place of another. -/
theorem codec_object_congr (sized : name ∈ sizeNames) (size : IsSize n d) (size' : IsSize n d') :
    codec.read (.object (front ++ (.ok name, d) :: back) stop) =
      codec.read (.object (front ++ (.ok name, d') :: back) stop) := by
  have alike : sizeCodec.read d = sizeCodec.read d' := by
    rw [sizeCodec_eq_ok_iff.2 size, sizeCodec_eq_ok_iff.2 size']
  refine congrArg (Except.map _) (Codec.record_object_congr ?_ (by rw [size.gap, size'.gap]))
  simp only [List.forall_mem_cons]
  refine ⟨fun _ => alike, fun _ => alike, ?_, ?_, ?_, nofun⟩
  all_goals
    rintro rfl
    exact absurd sized (by decide)

theorem Tells.stands {α : Type} {stands : α → Draft → Prop} {initial a : α} {ds : List Draft}
    (told : Tells stands initial ds a) (mem : d ∈ ds) : stands a d := by
  obtain none | ⟨one, value⟩ := told
  · rw [none] at mem
    cases mem
  · rw [one, List.mem_singleton] at mem
    rwa [mem]

/-- No settings are read of an object with a value for a size that stands for none. -/
theorem codec_object_ne_ok (sized : name ∈ sizeNames) (mem : (.ok name, d) ∈ members)
    (no_size : ∀ n, ¬ IsSize n d) : codec.read (.object members stop) ≠ .ok s := by
  intro whole
  obtain ⟨-, -, told⟩ := codec_object_eq_ok_iff.1 whole
  have given := mem_given_of_mem mem
  rw [sizeNames, List.mem_pair] at sized
  obtain rfl | rfl := sized
  · exact no_size _ (told.threshold.stands given)
  · exact no_size _ (told.partSize.stands given)

/-- A file whose text is refused is refused as well. -/
theorem load_eq_error {fs : FileSystem} {p : Path} {problem : Problem}
    (content : readText fs p = .ok text) (refused : read text = .error problem) :
    load fs p = .error (.content problem) := by
  have found : fs.exists? p = true := by
    obtain ⟨h, opened, -⟩ := exists_of_bind_eq_ok content
    obtain ⟨e, resolved, -⟩ := exists_of_bind_eq_ok opened
    rw [FileSystem.exists?, resolved]
    rfl
  rw [load, if_pos found, content]
  show (read text).mapError LoadError.content = _
  rw [refused]
  rfl

/-- A size may be spelled as a number or as any text that is read as it: with the one in place of
the other a text comes to the same settings or to the same problem. A value that is neither is
refused, and the file with it. Settings are read exactly if the object tells all of them, where the
initial one applies to each that is not given. -/
theorem sizes_read_alike_or_refused
    (reads : Reading.ofString text = ⟨.object members stop, after⟩) :
    (∀ name ∈ sizeNames, ∀ front back d d' n other, IsSize n d → IsSize n d' →
        members = front ++ (.ok name, d) :: back →
        Reading.ofString other = ⟨.object (front ++ (.ok name, d') :: back) stop, after⟩ →
        read other = read text) ∧
      (∀ name ∈ sizeNames, ∀ d, (.ok name, d) ∈ members → (∀ n, ¬ IsSize n d) →
        ∃ problem, read text = .error problem ∧
          ∀ fs p, readText fs p = .ok text → load fs p = .error (.content problem)) ∧
      ∀ s, read text = .ok s ↔
        stop = none ∧ after = none ∧ PassedOver names members ∧ s.ToldBy members := by
  have ok_iff : ∀ s, read text = .ok s ↔
      codec.read (.object members stop) = .ok s ∧ after = none := by
    intro s
    rw [read, Codec.readText_eq_ok_iff, reads]
  refine ⟨?_, ?_, ?_⟩
  · rintro name sized front back d d' n other size size' rfl reads'
    rw [read, read, Codec.readText, Codec.readText, reads, reads',
      codec_object_congr sized size size']
  · intro name sized d mem no_size
    cases refused : read text with
    | ok s => exact absurd ((ok_iff s).1 refused).1 (codec_object_ne_ok sized mem no_size)
    | error problem => exact ⟨problem, rfl, fun fs p content => load_eq_error content refused⟩
  · intro s
    rw [ok_iff, codec_object_eq_ok_iff, and_right_comm, and_assoc]

/-- Five kibibytes in words and as a number, beside another setting and three that are not given;
and a size that is null. -/
theorem five_kibibytes_spelled_twice :
    let priority := ("max_priority", Json.number (.integer (-1)))
    let words := Json.object [("multipart_threshold", .string "5 KiB"), priority]
    let count := Json.object [("multipart_threshold", .number (.integer 5120)), priority]
    let nothing := Json.object [("multipart_chunksize", .null), priority]
    read count.render = read words.render ∧
      read words.render = .ok { initial with threshold := 5120, maxPriority := -1 } ∧
      ∃ problem, read nothing.render = .error problem := by
  intro priority words count nothing
  have five : IsSize 5120 (.string (.ok "5 KiB")) := .text (by decide)
  have least : Json.IsWord (-1) := ⟨by decide, by decide⟩
  have exact_words : words.IsExact := ⟨trivial, least, trivial⟩
  have exact_count : count.IsExact := ⟨⟨by decide, by decide⟩, least, trivial⟩
  have exact_nothing : nothing.IsExact := ⟨trivial, least, trivial⟩
  refine ⟨?_, ?_, ?_⟩
  · exact (sizes_read_alike_or_refused (reading_render exact_words)).1 "multipart_threshold"
      (by decide) [] _ _ _ 5120 _ five .number rfl (reading_render exact_count)
  · refine ((sizes_read_alike_or_refused (reading_render exact_words)).2.2 _).2
      ⟨rfl, rfl, ?_, .value rfl five, .absent rfl, .absent rfl, .value rfl rfl, .absent rfl⟩
    intro m mem
    obtain _ | ⟨_, _ | ⟨_, ⟨⟩⟩⟩ := mem
    · exact ⟨_, rfl, fun _ => rfl⟩
    · exact ⟨_, rfl, fun _ => rfl⟩
  · obtain ⟨problem, refused, -⟩ := (sizes_read_alike_or_refused (reading_render exact_nothing)).2.1
      "multipart_chunksize" (by decide) .null (.head _) nofun
    exact ⟨problem, refused⟩

end Ferry.Settings
