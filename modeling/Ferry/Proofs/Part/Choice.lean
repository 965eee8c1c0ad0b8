import Ferry.Proofs.Part.Reassembly
import Ferry.Proofs.Records

/-!
Whether an object is sent in one piece or in parts is for the settings to say, and they may say
anything. What they say fits the limits of the service unless the threshold lets through an object
that is too large for one piece, or has an empty object sent in parts, of which there are none.
-/
namespace Ferry.Settings

open Json Ferry.Part

/-- What the settings say about an object fits the limits of the service: one sent in one piece is
not too large for that, and one sent in parts has parts, all of which may be sent. -/
structure Fits (s : Settings) (total : Nat) : Prop where
  whole : s.sendsInParts total = false → total ≤ maxSize
  inParts : s.sendsInParts total = true → ∃ size, s.partSizeFor total = .ok size ∧
    Sendable (ranges total size) ∧ ranges total size ≠ []

variable {s : Settings} {total : Nat}

theorem sendsInParts_iff : s.sendsInParts total = true ↔ s.threshold.toNat ≤ total :=
  decide_eq_true_iff

theorem sendsInParts_eq_false_iff : s.sendsInParts total = false ↔ total < s.threshold.toNat := by
  rw [← Bool.not_eq_true, sendsInParts_iff, Nat.not_le]

theorem fits_iff (s : Settings) (sendable : total ≤ maxTotal) : s.Fits total ↔
    (total ≤ maxSize ∨ s.threshold.toNat ≤ total) ∧ (0 < total ∨ 0 < s.threshold.toNat) := by
  constructor
  · rintro ⟨whole, inParts⟩
    cases choice : s.sendsInParts total with
    | false =>
      have below := sendsInParts_eq_false_iff.1 choice
      exact ⟨.inl (whole choice), .inr (by omega)⟩
    | true =>
      obtain ⟨size, -, -, some_range⟩ := inParts choice
      exact ⟨.inr (sendsInParts_iff.1 choice),
        .inl (Nat.pos_of_ne_zero (mt ranges_eq_nil_iff.2 some_range))⟩
  · rintro ⟨small, something⟩
    refine ⟨fun choice => ?_, fun choice => ?_⟩
    · have below := sendsInParts_eq_false_iff.1 choice
      omega
    · have reached := sendsInParts_iff.1 choice
      obtain ⟨size, found, may_be_sent⟩ := exists_sendable s sendable
      refine ⟨size, found, may_be_sent, mt ranges_eq_nil_iff.1 ?_⟩
      omega

/-- What is sent in one piece is below the threshold, so that a threshold within the limit of one
piece is enough; what is sent in parts has parts that may be sent, at least one unless it is
empty. -/
theorem sent_within_limits (s : Settings) {total : Nat} (sendable : total ≤ maxTotal) :
    (s.sendsInParts total = false →
      total < s.threshold.toNat ∧ (s.threshold.toNat ≤ maxSize + 1 → total ≤ maxSize)) ∧
    (s.sendsInParts total = true → ∃ size, s.partSizeFor total = .ok size ∧
      Sendable (ranges total size) ∧ (ranges total size = [] ↔ total = 0)) ∧
    (s.Fits total ↔
      (total ≤ maxSize ∨ s.threshold.toNat ≤ total) ∧ (0 < total ∨ 0 < s.threshold.toNat)) := by
  refine ⟨fun whole => ?_, fun _ => ?_, s.fits_iff sendable⟩
  · have below := sendsInParts_eq_false_iff.1 whole
    exact ⟨below, by omega⟩
  · obtain ⟨size, found, may_be_sent⟩ := exists_sendable s sendable
    exact ⟨size, found, may_be_sent, ranges_eq_nil_iff⟩

/-- Settings under which twelve million bytes are sent in parts, and in parts of one byte if that
could be: there are three, which may be sent. -/
theorem small_parts_fit :
    let s : Settings := { initial with threshold := 6000000, partSize := 1 }
    12000000 ≤ maxTotal ∧ s.sendsInParts 12000000 = true ∧ s.Fits 12000000 ∧
      ∃ size, s.partSizeFor 12000000 = .ok size ∧ Sendable (ranges 12000000 size) ∧
        (ranges 12000000 size).map (·.length) = [5242880, 5242880, 1514240] := by
  intro s
  have sendable : 12000000 ≤ maxTotal := by decide
  have chosen : s.sendsInParts 12000000 = true := by decide
  obtain ⟨-, inParts, fits⟩ := s.sent_within_limits sendable
  obtain ⟨size, found, may_be_sent, -⟩ := inParts chosen
  have least : s.partSizeFor 12000000 = .ok minSize :=
    partSizeFor_smallest (by decide) (by decide)
  obtain rfl : minSize = size := Except.ok.inj (least.symm.trans found)
  exact ⟨sendable, chosen, fits.2 ⟨.inl (by decide), .inl (by decide)⟩, minSize, found, may_be_sent,
    by decide⟩

/-- A text that asks for a threshold alone. -/
def thresholdText (threshold : UInt64) : String :=
  (Json.object [("multipart_threshold", Codec.writeInt threshold.toNat)]).render

theorem read_thresholdText (threshold : UInt64) :
    read (thresholdText threshold) = .ok { initial with threshold } := by
  have isExact : (Json.object [("multipart_threshold", Codec.writeInt threshold.toNat)]).IsExact :=
    ⟨Codec.isExact_writeInt_word threshold, trivial⟩
  have size : sizeCodec.read (Codec.writeInt threshold.toNat).draft = .ok threshold :=
    (sizeCodec_keeps threshold).read_write
  -- the other fields are absent, and have their initial values
  have read_record : codec.read (Json.object [("multipart_threshold",
      Codec.writeInt threshold.toNat)]).draft = .ok { initial with threshold } := by
    show Except.map _ ((Except.map _ (sizeCodec.read (Codec.writeInt threshold.toNat).draft) >>=
      Slots.fillAll _ []) >>= _) = _
    rw [size]
    rfl
  rw [read, thresholdText, reading_render isExact, Codec.readText, read_record]
  rfl

/-- A threshold just above the limit of one piece has an object sent in one piece that is too large
for it, and without a threshold an empty object is sent in no parts at all. -/
theorem thresholds_outside_limits :
    (read "\x7b\"multipart_threshold\":5368709122\x7d" =
        .ok { initial with threshold := 5368709122 } ∧
      5368709121 ≤ maxTotal ∧
        ¬ Fits { initial with threshold := 5368709122 } 5368709121) ∧
      read "\x7b\"multipart_threshold\":0\x7d" = .ok { initial with threshold := 0 } ∧
        0 ≤ maxTotal ∧ ¬ Fits { initial with threshold := 0 } 0 := by
  have high : thresholdText 5368709122 = "\x7b\"multipart_threshold\":5368709122\x7d" := by decide
  have none : thresholdText 0 = "\x7b\"multipart_threshold\":0\x7d" := by decide
  rw [← high, ← none]
  refine ⟨⟨read_thresholdText _, by decide, fun fits => ?_⟩, read_thresholdText _, by decide,
    fun fits => ?_⟩
  · have too_large : ¬ 5368709121 ≤ maxSize := by decide
    exact too_large (fits.whole (by decide))
  · obtain ⟨size, -, -, some_range⟩ := fits.inParts (by decide)
    exact some_range (ranges_eq_nil_iff.2 rfl)

end Ferry.Settings
