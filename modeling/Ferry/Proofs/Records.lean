import Ferry.Outcome
import Ferry.Request.Options
import Ferry.Settings
import Ferry.Store.Object
import Ferry.Proofs.Json.Record
import Ferry.Proofs.Time.Stamp

/-!
The records that travel as JSON come back as they were sent. For each there is a lemma that its
codec keeps its values; only a time has to be one that a timestamp can tell. It is written by the
clocks of the zone of the program, and those have to be whole minutes ahead of universal time, or
behind it: then, and only then, the time comes back.
-/
namespace Ferry

open Json

namespace Settings

/-- A size is written as a byte count, never as a text for people. -/
theorem sizeCodec_keeps (n : UInt64) : sizeCodec.Keeps n where
  isExact := Codec.isExact_writeInt_word n
  read_write := by
    show (if _ then _ else _) = _
    rw [if_pos (Codec.word_inside n), Int.toNat_natCast, UInt64.ofNat_toNat]

theorem codec_keeps (s : Settings) : codec.Keeps s := by
  refine (Codec.record_keeps (by decide) ?_).iso rfl
  exact ⟨Field.default_keeps (sizeCodec_keeps _), Field.default_keeps (sizeCodec_keeps _),
    Field.default_keeps (Codec.word_keeps _ _), Field.default_keeps (Codec.signedWord_keeps _ _),
    Field.default_keeps (Codec.word_keeps _ _), trivial⟩

end Settings

theorem Outcome.codec_keeps (o : Outcome) : codec.Keeps o := by
  refine (Codec.record_keeps (by decide) ?_).iso rfl
  exact ⟨Field.required_keeps (Codec.text_keeps _), Field.required_keeps (Codec.flag_keeps _),
    Field.required_keeps (Codec.flag_keeps _), trivial⟩

namespace Request

theorem optionField_keeps (name : String) (s : Option String) : (optionField name).Keeps s :=
  Field.default_keeps (Codec.optionalText_keeps s)

theorem Options.codec_keeps (o : Options) : codec.Keeps o := by
  refine (Codec.record_keeps (by decide) ?_).iso rfl
  repeat' first | exact trivial | refine ⟨optionField_keeps _ _, ?_⟩

end Request

namespace Store

theorem objectFields_nodup {α : Type} (time : Codec α) :
    ((objectFields time).map (·.name)).Nodup := by
  show ["Key", "LastModified", "Size", "ETag", "StorageClass"].Nodup
  decide

theorem objectFields_keeps {α : Type} {time : Codec α} {t : α} (keeps : time.Keeps t)
    (key : String) (size : UInt64) (eTag storageClass : Option String) :
    Row.Keeps (objectFields time) (key, t, size, eTag, storageClass, ()) :=
  ⟨Field.required_keeps (Codec.text_keeps key), Field.required_keeps keeps,
    Field.required_keeps (Codec.word_keeps _ size), Field.maybeText_keeps _ eTag,
    Field.maybeText_keeps _ storageClass, trivial⟩

theorem Listed.codec_keeps (o : Listed) : codec.Keeps o := by
  refine (Codec.record_keeps (by decide) ?_).iso rfl
  exact objectFields_keeps (Codec.text_keeps _) _ _ _ _

theorem SharedBeginning.codec_keeps (s : SharedBeginning) : codec.Keeps s := by
  refine (Codec.record_keeps (by decide) ?_).iso rfl
  exact ⟨Field.required_keeps (Codec.text_keeps _), trivial⟩

theorem Page.codec_keeps (p : Page) : codec.Keeps p := by
  refine (Codec.record_keeps (by decide) ?_).iso rfl
  exact ⟨Field.optional_keeps (Codec.list_keeps fun o _ => o.codec_keeps) List.isEmpty_iff.1,
    Field.optional_keeps (Codec.list_keeps fun s _ => s.codec_keeps) List.isEmpty_iff.1,
    Field.default_keeps (Codec.flag_keeps _), Field.maybeText_keeps _ _, trivial⟩

theorem CopySource.codec_keeps (s : CopySource) : codec.Keeps s := by
  refine (Codec.record_keeps (by decide) ?_).iso rfl
  exact ⟨Field.required_keeps (Codec.text_keeps _), Field.required_keeps (Codec.text_keeps _),
    Field.maybeText_keeps _ _, trivial⟩

variable {zone : Time.Zone}

theorem instantCodec_back_iff {t : Time.Instant} (stamped : t.IsStamped) :
    (instantCodec zone).read ((instantCodec zone).write t).draft = .ok t ↔ zone.Tells t := by
  rw [← Time.Instant.readLoose?_text_iff stamped .letter]
  simp only [instantCodec, draft]
  cases Time.Instant.readLoose? (t.text zone .letter) with
  | none => exact iff_of_false nofun nofun
  | some read => simp

theorem instantCodec_keeps {t : Time.Instant} (stamped : t.IsStamped) (tells : zone.Tells t) :
    (instantCodec zone).Keeps t where
  isExact := trivial
  read_write := (instantCodec_back_iff stamped).2 tells

theorem Object.codec_keeps {o : Object} (stamped : o.lastModified.IsStamped)
    (tells : zone.Tells o.lastModified) : (codec zone).Keeps o := by
  refine (Codec.record_keeps (objectFields_nodup _) ?_).iso rfl
  exact objectFields_keeps (instantCodec_keeps stamped tells) _ _ _ _

/-- The values of an object's fields, in their order. -/
def Object.row (zone : Time.Zone) (o : Object) : Row (objectFields (instantCodec zone)) :=
  (o.key, o.lastModified, o.size, o.eTag, o.storageClass, ())

end Store

open Store Request

end Ferry
