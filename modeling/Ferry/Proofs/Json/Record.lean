import Ferry.Json.Record
import Ferry.Proofs.Bind
import Ferry.Proofs.Json.Reader

/-!
Codecs that give back what they have written. `Codec.Keeps` says so of one value; each way of making
a codec has a lemma that tells when it keeps a value, and a record keeps a row of values if its
fields keep them, have names of their own, and leave out only what they have when absent.
-/
namespace Ferry.Json

variable {α β : Type}

theorem itemsExact_iff {vs : List Json} : ItemsExact vs ↔ ∀ v ∈ vs, v.IsExact := by
  induction vs with
  | nil => simp [ItemsExact]
  | cons v vs ih => simp [ItemsExact, ih]

namespace Codec

/-- What is written for a value can be written exactly, and is read as the value. -/
structure Keeps (c : Codec α) (a : α) : Prop where
  isExact : (c.write a).IsExact
  read_write : c.read (c.write a).draft = .ok a

/-- A value that is kept comes back from its text. -/
theorem Keeps.readText_writeText {c : Codec α} {a : α} (keeps : c.Keeps a) :
    c.readText (.ofString (c.writeText a)) = .ok a := by
  rw [writeText, reading_render keeps.isExact, readText, keeps.read_write]
  rfl

theorem Keeps.iso {c : Codec α} {forth : α → β} {back : β → α} {b : β} (keeps : c.Keeps (back b))
    (inverse : forth (back b) = b) : (c.iso forth back).Keeps b where
  isExact := keeps.isExact
  read_write := by
    show (c.read (c.write (back b)).draft).map forth = _
    rw [keeps.read_write, Except.map, inverse]

theorem text_keeps (s : String) : text.Keeps s := ⟨trivial, rfl⟩

theorem optionalText_keeps : ∀ s : Option String, optionalText.Keeps s
  | none => ⟨trivial, rfl⟩
  | some _ => ⟨trivial, rfl⟩

theorem flag_keeps (b : Bool) : flag.Keeps b := ⟨trivial, rfl⟩

theorem isExact_writeInt_word (n : UInt64) : (writeInt n.toNat).IsExact :=
  ⟨Int.le_trans (by decide) (Int.natCast_nonneg _), Int.ofNat_lt.2 n.toNat_lt⟩

theorem word_inside (n : UInt64) :
    0 ≤ (n.toNat : Int) ∧ ((n.toNat : Int)).toNat < UInt64.size :=
  ⟨Int.natCast_nonneg _, n.toNat_lt⟩

theorem word_keeps (wanted : String) (n : UInt64) : (word wanted).Keeps n where
  isExact := isExact_writeInt_word n
  read_write := by
    show (if _ then _ else _) = _
    rw [if_pos (word_inside n), Int.toNat_natCast, UInt64.ofNat_toNat]

theorem signedWord_keeps (wanted : String) (n : Int64) : (signedWord wanted).Keeps n where
  isExact := by
    have lower := n.le_toInt
    have upper := n.toInt_lt
    exact ⟨lower, Int.lt_trans upper (by decide)⟩
  read_write := by
    have inside : Int64.minValue.toInt ≤ n.toInt ∧ n.toInt ≤ Int64.maxValue.toInt :=
      ⟨Int64.minValue_le_toInt n, Int64.toInt_le n⟩
    show (if _ then _ else _) = _
    rw [if_pos inside, Int64.ofInt_toInt]

theorem list_keeps {c : Codec α} {as : List α} (keeps : ∀ a ∈ as, c.Keeps a) : c.list.Keeps as where
  isExact := by
    show ItemsExact (as.map c.write)
    rw [itemsExact_iff]
    exact List.forall_mem_map.2 fun a mem => (keeps a mem).isExact
  read_write := by
    have read_items : c.readItems (draftItems (as.map c.write)) = .ok as := by
      induction as with
      | nil => rfl
      | cons a as ih =>
        obtain ⟨first, others⟩ := List.forall_mem_cons.1 keeps
        rw [List.map_cons, draftItems, readItems, first.read_write, ih others]
        rfl
    show (do
      let as ← c.readItems (draftItems (as.map c.write))
      raise none
      Except.ok as) = _
    rw [read_items]
    rfl

end Codec

/-! ### Records -/

/-- A field keeps a value if its codec does, and has it anyway if it leaves it out. -/
structure Field.Keeps (f : Field) (v : f.type) : Prop where
  codec : f.codec.Keeps v
  absent : f.hidden v = true → f.absent = some v

namespace Field

theorem required_keeps {name : String} {c : Codec α} {a : α} (keeps : c.Keeps a) :
    (required name c).Keeps a :=
  ⟨keeps, nofun⟩

theorem default_keeps {name : String} {c : Codec α} {absent a : α} (keeps : c.Keeps a) :
    (default name c absent).Keeps a :=
  ⟨keeps, nofun⟩

theorem optional_keeps {name : String} {c : Codec α} {absent a : α} {hidden : α → Bool}
    (keeps : c.Keeps a) (only_absent : hidden a = true → a = absent) :
    (optional name c absent hidden).Keeps a :=
  ⟨keeps, fun isHidden => by rw [only_absent isHidden]; rfl⟩

theorem maybeText_keeps (name : String) (s : Option String) : (maybeText name).Keeps s :=
  optional_keeps (Codec.optionalText_keeps s) Option.isNone_iff_eq_none.1

end Field

namespace Row

/-- All fields keep their values. -/
def Keeps : (fs : List Field) → Row fs → Prop
  | [], _ => True
  | f :: fs, (v, rest) => f.Keeps v ∧ Keeps fs rest

/-- Members are written under the names of the fields. -/
theorem map_members_subset : ∀ (fs : List Field) (row : Row fs),
    (row.members fs).map (·.1) ⊆ fs.map (·.name)
  | [], _ => List.Subset.refl _
  | f :: fs, (v, rest) => by
    have later := map_members_subset fs rest
    rw [members]
    split
    · exact List.subset_cons_of_subset _ later
    · exact List.cons_subset_cons _ later

theorem membersExact : ∀ {fs : List Field} {row : Row fs}, Keeps fs row →
    MembersExact (row.members fs)
  | [], _, _ => trivial
  | f :: fs, (v, rest), ⟨keeps, keeps_rest⟩ => by
    rw [members]
    split
    · exact membersExact keeps_rest
    · exact ⟨keeps.codec.isExact, membersExact keeps_rest⟩

end Row

namespace Slots

section Steps

variable {f : Field} {fs : List Field} {name : String} {d : Draft} {slot : Option f.type}
  {slots : Slots fs}

theorem fill_own : fill (f :: fs) f.name d (none, slots) =
    (f.codec.read d).map fun v => (some v, slots) :=
  if_pos rfl

theorem fill_twice {v : f.type} : fill (f :: fs) f.name d (some v, slots) =
    .error (.duplicateField f.name) :=
  if_pos rfl

theorem fill_other (other : f.name ≠ name) :
    fill (f :: fs) name d (slot, slots) = (fill fs name d slots).map (slot, ·) :=
  if_neg other

theorem row_cons {v : f.type} (given : slot.or f.absent = some v) :
    row (f :: fs) (slot, slots) = (row fs slots).map (v, ·) := by
  rw [row, given]
  cases row fs slots <;> rfl

theorem row_missing (missing : slot.or f.absent = none) :
    row (f :: fs) (slot, slots) = .error (.missingField f.name) := by
  rw [row, missing]
  rfl

end Steps

/-- Members with other names than the first field go past it. -/
theorem fillAll_cons {f : Field} {fs : List Field} {slot : Option f.type} :
    ∀ {ms : List (String × Json)} {slots : Slots fs}, f.name ∉ ms.map (·.1) →
      fillAll (f :: fs) (draftMembers ms) (slot, slots) =
        (fillAll fs (draftMembers ms) slots).map (slot, ·)
  | [], _, _ => rfl
  | (name, v) :: ms, slots, others => by
    rw [List.map_cons, List.mem_cons, not_or] at others
    obtain ⟨other, others⟩ := others
    show (fill (f :: fs) name v.draft (slot, slots) >>= fillAll (f :: fs) (draftMembers ms)) =
      (fill fs name v.draft slots >>= fillAll fs (draftMembers ms)).map (slot, ·)
    rw [fill_other other]
    cases fill fs name v.draft slots with
    | error problem => rfl
    | ok slots => exact fillAll_cons others

/-- What was written of a row fills the slots with it. -/
theorem exists_fillAll : ∀ {fs : List Field} {row : Row fs}, (fs.map (·.name)).Nodup →
    row.Keeps fs → ∃ slots, fillAll fs (draftMembers (row.members fs)) (empty fs) = .ok slots ∧
      slots.row fs = .ok row
  | [], _, _, _ => ⟨(), rfl, rfl⟩
  | f :: fs, (v, rest), nodup, ⟨keeps, keeps_rest⟩ => by
    obtain ⟨own_name, nodup⟩ := List.nodup_cons.1 nodup
    obtain ⟨slots, filled, read⟩ := exists_fillAll nodup keeps_rest
    have others : f.name ∉ (rest.members fs).map (·.1) := fun mem =>
      own_name (Row.map_members_subset fs rest mem)
    -- a value that is left out stands in no slot, and comes back as the one for absence
    by_cases hidden : f.hidden v = true
    · refine ⟨(none, slots), ?_, ?_⟩
      · rw [Row.members, if_pos hidden, empty, fillAll_cons others, filled]
        rfl
      · rw [row_cons (Option.none_or.trans (keeps.absent hidden)), read]
        rfl
    · refine ⟨(some v, slots), ?_, ?_⟩
      · rw [Row.members, if_neg hidden, draftMembers, fillAll, empty, fill_own,
          keeps.codec.read_write]
        show fillAll (f :: fs) _ (some v, empty fs) = _
        rw [fillAll_cons others, filled]
        rfl
      · rw [row_cons Option.some_or, read]
        rfl

end Slots

theorem Codec.record_keeps {name : String} {fs : List Field} {row : Row fs}
    (nodup : (fs.map (·.name)).Nodup) (keeps : row.Keeps fs) :
    (Codec.record name fs).Keeps row where
  isExact := Row.membersExact keeps
  read_write := by
    obtain ⟨slots, filled, read⟩ := Slots.exists_fillAll nodup keeps
    show (do
      let slots ← Slots.fillAll fs (draftMembers (row.members fs)) (Slots.empty fs)
      raise none
      slots.row fs) = _
    rw [filled]
    exact read

/-- A value that a field can come to: one that its codec reads, or the one that it has when it is
not given. -/
def Field.Given (f : Field) (v : f.type) : Prop :=
  (∃ d, f.codec.read d = .ok v) ∨ f.absent = some v

/-- All fields have values that they can come to. -/
def Row.Given : (fs : List Field) → Row fs → Prop
  | [], _ => True
  | f :: fs, (v, rest) => f.Given v ∧ Given fs rest

namespace Slots

/-- What the slots hold has been read by the codecs of their fields. -/
def Given : (fs : List Field) → Slots fs → Prop
  | [], _ => True
  | f :: fs, (slot, slots) => (∀ v ∈ slot, ∃ d, f.codec.read d = .ok v) ∧ Given fs slots

end Slots

/-- A text is read as a value exactly if its draft is and nothing follows it. -/
theorem Codec.readText_eq_ok_iff {c : Codec α} {r : Reading} {a : α} :
    c.readText r = .ok a ↔ c.read r.draft = .ok a ∧ r.after = none := by
  unfold Codec.readText
  cases c.read r.draft with
  | ok b => cases r.after <;> simp [raise, Except.map]
  | error problem =>
    refine iff_of_false ?_ fun both => nomatch both.1
    cases problem <;> nofun

end Ferry.Json
