import Ferry.Proofs.Json.Record

/-!
Records read from objects. The fields of a record do not see each other's members
(`fillAll_cons_eq_ok_iff`), so each is told by what the object gives under its name: one value that
it reads, or none where it may be absent (`Field.Told`). A record is read exactly if every field is
told and what is passed over is JSON (`Codec.record_object_eq_ok_iff`).

What an object comes to, be it a record or a problem, stays the same when a value is put in place of
another one that its field reads alike (`Codec.record_object_congr`).
-/
namespace Ferry.Json

/-- A member of an object as far as it can be read. -/
abbrev Member := Except Fault String × Draft

/-- Whether a member stands under a name. -/
def isNamed (name : String) (m : Member) : Bool :=
  match m.1 with
  | .ok n => n = name
  | .error _ => false

/-- What an object gives under a name. -/
def given (name : String) (ms : List Member) : List Draft := (ms.filter (isNamed name)).map (·.2)

/-- The members under other names. -/
def others (name : String) (ms : List Member) : List Member := ms.filter fun m => !isNamed name m

/-- What is given for a field tells its value: it is the one draft there is, or there is none and
the field may be absent. -/
def Field.Told (f : Field) (ds : List Draft) (v : f.type) : Prop :=
  (ds = [] ∧ f.absent = some v) ∨ ∃ d, ds = [d] ∧ f.codec.read d = .ok v

/-- All fields are told their values by an object. -/
def Row.Told : (fs : List Field) → List Member → Row fs → Prop
  | [], _, _ => True
  | f :: fs, ms, (v, rest) => f.Told (given f.name ms) v ∧ Told fs ms rest

/-- What drafts given for a field make of its slot. -/
inductive Field.Fills (f : Field) : List Draft → Option f.type → Option f.type → Prop
  | nothing (slot : Option f.type) : Fills f [] slot slot
  | value {d : Draft} {v : f.type} (read : f.codec.read d = .ok v) : Fills f [d] none (some v)

/-- Members that can be passed over where their names are not among the given ones. -/
def PassedOver (names : List String) (ms : List Member) : Prop :=
  ∀ m ∈ ms, ∃ name, m.1 = .ok name ∧ (name ∉ names → m.2.gap = none)

variable {f : Field} {fs : List Field} {ms ns : List Member} {name other : String} {d d' : Draft}
  {slot slot' : Option f.type} {slots filled : Slots fs} {v : f.type}

theorem given_cons_own : given name ((.ok name, d) :: ms) = d :: given name ms := by
  simp [given, isNamed]

theorem given_cons_other (ne : other ≠ name) :
    given name ((.ok other, d) :: ms) = given name ms := by
  simp [given, isNamed, ne]

theorem others_cons_own : others name ((.ok name, d) :: ms) = others name ms := by
  simp [others, isNamed]

theorem others_cons_other (ne : other ≠ name) :
    others name ((.ok other, d) :: ms) = (.ok other, d) :: others name ms := by
  simp [others, isNamed, ne]

theorem mem_given_of_mem (mem : (.ok name, d) ∈ ms) : d ∈ given name ms :=
  List.mem_map.2 ⟨_, List.mem_filter.2 ⟨mem, decide_eq_true rfl⟩, rfl⟩

/-- What is given under one name is not lost with the members under another. -/
theorem given_others (ne : name ≠ other) : given name (others other ms) = given name ms := by
  unfold given others
  rw [List.filter_filter]
  refine congrArg _ (List.filter_congr fun m _ => ?_)
  cases named : m.1 with
  | error fault => simp [isNamed, named]
  | ok n =>
    by_cases own : n = name
    · simp [isNamed, named, own, ne]
    · simp [isNamed, named, own]

theorem isNamed_iff {m : Member} : isNamed name m = true ↔ m.1 = .ok name := by
  unfold isNamed
  split <;> simp_all

theorem mem_others_iff {m : Member} : m ∈ others name ms ↔ m ∈ ms ∧ m.1 ≠ .ok name := by
  rw [others, List.mem_filter, Bool.not_eq_true', ← Bool.not_eq_true, isNamed_iff]

theorem passedOver_cons_iff {names : List String} :
    PassedOver (name :: names) ms ↔ PassedOver names (others name ms) := by
  constructor
  · intro passed m mem
    obtain ⟨mem, other⟩ := mem_others_iff.1 mem
    obtain ⟨n, named, whole⟩ := passed m mem
    have ne : n ≠ name := fun same => other (same ▸ named)
    exact ⟨n, named, fun unknown => whole (by simp [ne, unknown])⟩
  · intro passed m mem
    by_cases own : m.1 = .ok name
    · exact ⟨name, own, fun unknown => absurd List.mem_cons_self unknown⟩
    · obtain ⟨n, named, whole⟩ := passed m (mem_others_iff.2 ⟨mem, own⟩)
      exact ⟨n, named, fun unknown => whole fun known => unknown (List.mem_cons_of_mem _ known)⟩

namespace Field

theorem not_fills_twice {ds : List Draft} : ¬ f.Fills (d :: ds) (some v) slot' := nofun

theorem not_fills_unread {ds : List Draft} {problem : Problem}
    (unread : f.codec.read d = .error problem) : ¬ f.Fills (d :: ds) none slot' := by
  rintro ⟨⟩
  rename_i read
  cases unread.symm.trans read

/-- A value that a field has read fills its slot, and another one is refused. -/
theorem fills_cons_iff {ds : List Draft} (read : f.codec.read d = .ok v) :
    f.Fills (d :: ds) none slot' ↔ f.Fills ds (some v) slot' := by
  constructor
  · rintro ⟨⟩
    rename_i w read'
    obtain rfl : v = w := Except.ok.inj (read.symm.trans read')
    exact .nothing _
  · rintro ⟨⟩
    exact .value read

theorem exists_fills_iff {ds : List Draft} :
    (∃ slot, f.Fills ds none slot ∧ slot.or f.absent = some v) ↔ f.Told ds v := by
  constructor
  · rintro ⟨_, ⟨⟩ | ⟨read⟩, value⟩
    · exact .inl ⟨rfl, value⟩
    · obtain rfl := Option.some.inj value
      exact .inr ⟨_, rfl, read⟩
  · rintro (⟨rfl, absent⟩ | ⟨d, rfl, read⟩)
    · exact ⟨none, .nothing none, absent⟩
    · exact ⟨some v, .value read, rfl⟩

end Field

/-- Fields under other names are told the same without the members under one. -/
theorem Row.told_others : ∀ {fs : List Field} {row : Row fs}, name ∉ fs.map (·.name) →
    (row.Told fs (others name ms) ↔ row.Told fs ms)
  | [], _, _ => Iff.rfl
  | f :: fs, (v, rest), other => by
    rw [List.map_cons, List.mem_cons, not_or] at other
    show f.Told (given f.name (others name ms)) v ∧ rest.Told fs (others name ms) ↔ _
    rw [given_others (Ne.symm other.1), told_others other.2]
    rfl

namespace Slots

/-- A row takes the value of its first field from the first slot, or has the one for absence. -/
theorem row_cons_eq_ok_iff {rest : Row fs} : row (f :: fs) (slot, slots) = .ok (v, rest) ↔
    slot.or f.absent = some v ∧ row fs slots = .ok rest := by
  cases value : slot.or f.absent with
  | none =>
    rw [row_missing value]
    exact iff_of_false nofun fun both => nomatch both.1
  | some w =>
    rw [row_cons value]
    constructor
    · intro whole
      obtain ⟨others, read, same⟩ := exists_of_map_eq_ok whole
      obtain ⟨rfl, rfl⟩ := Prod.mk.inj same
      exact ⟨rfl, read⟩
    · rintro ⟨⟨⟩, read⟩
      rw [read]
      rfl

theorem fillAll_member : fillAll fs ((.ok name, d) :: ms) slots =
    fill fs name d slots >>= fillAll fs ms :=
  rfl

/-- A field takes the members under its name, and those after it take the others. -/
theorem fillAll_cons_eq_ok_iff : fillAll (f :: fs) ms (slot, slots) = .ok (slot', filled) ↔
    f.Fills (given f.name ms) slot slot' ∧ fillAll fs (others f.name ms) slots = .ok filled := by
  induction ms generalizing slot slots with
  | nil =>
    show Except.ok (slot, slots) = Except.ok (slot', filled) ↔
      f.Fills [] slot slot' ∧ Except.ok slots = Except.ok filled
    rw [Except.ok.injEq, Except.ok.injEq, Prod.mk.injEq]
    refine and_congr_left fun _ => ⟨?_, ?_⟩
    · rintro rfl
      exact .nothing slot
    · rintro ⟨⟩
      rfl
  | cons m ms ih =>
    obtain ⟨fault | name, d⟩ := m
    · exact iff_of_false nofun fun ⟨_, read⟩ => nomatch read
    by_cases own : name = f.name
    · subst own
      rw [given_cons_own, others_cons_own]
      show fill (f :: fs) f.name d (slot, slots) >>= fillAll (f :: fs) ms = .ok (slot', filled) ↔ _
      cases slot with
      | some v =>
        rw [fill_twice]
        exact iff_of_false nofun fun both => Field.not_fills_twice both.1
      | none =>
        rw [fill_own]
        cases read : f.codec.read d with
        | ok v => exact ih.trans (and_congr_left' (Field.fills_cons_iff read).symm)
        | error problem =>
          exact iff_of_false nofun fun both => Field.not_fills_unread read both.1
    · rw [given_cons_other own, others_cons_other own, fillAll_member]
      show fill (f :: fs) name d (slot, slots) >>= fillAll (f :: fs) ms = .ok (slot', filled) ↔ _
      rw [fill_other (Ne.symm own)]
      cases fill fs name d slots with
      | ok slots => exact ih
      | error problem => exact iff_of_false nofun fun ⟨_, read⟩ => nomatch read

/-- Where there are no fields, everything is passed over. -/
theorem fillAll_nil_eq_ok_iff {slots filled : Slots []} :
    fillAll [] ms slots = .ok filled ↔ PassedOver [] ms := by
  induction ms generalizing slots with
  | nil => exact ⟨fun _ => nofun, fun _ => rfl⟩
  | cons m ms ih =>
    obtain ⟨fault | name, d⟩ := m
    · constructor
      · nofun
      · intro passed
        obtain ⟨name, ⟨⟩, -⟩ := passed _ List.mem_cons_self
    · rw [fillAll_member, PassedOver, List.forall_mem_cons]
      show ((raise d.gap).map fun _ => slots) >>= fillAll [] ms = .ok filled ↔ _
      cases d.gap with
      | none => exact ih.trans ⟨fun passed => ⟨⟨name, rfl, fun _ => rfl⟩, passed⟩, And.right⟩
      | some fault =>
        constructor
        · nofun
        · rintro ⟨⟨_, ⟨⟩, whole⟩, -⟩
          cases whole nofun

/-- A row is read of an object exactly if all its fields are told and the rest is passed over. -/
theorem exists_row_iff {row : Row fs} (nodup : (fs.map (·.name)).Nodup) :
    (∃ filled, fillAll fs ms (empty fs) = .ok filled ∧ filled.row fs = .ok row) ↔
      PassedOver (fs.map (·.name)) ms ∧ row.Told fs ms := by
  induction fs generalizing ms with
  | nil =>
    constructor
    · rintro ⟨filled, read, -⟩
      exact ⟨fillAll_nil_eq_ok_iff.1 read, trivial⟩
    · rintro ⟨passed, -⟩
      exact ⟨(), fillAll_nil_eq_ok_iff.2 passed, rfl⟩
  | cons f fs ih =>
    obtain ⟨v, rest⟩ := row
    obtain ⟨own_name, nodup⟩ := List.nodup_cons.1 nodup
    have told_iff : rest.Told fs (others f.name ms) ↔ rest.Told fs ms := Row.told_others own_name
    rw [List.map_cons, passedOver_cons_iff]
    show _ ↔ _ ∧ f.Told (given f.name ms) v ∧ rest.Told fs ms
    constructor
    · rintro ⟨⟨slot, filled⟩, read, whole⟩
      obtain ⟨fills, read⟩ := fillAll_cons_eq_ok_iff.1 read
      obtain ⟨value, read_rest⟩ := row_cons_eq_ok_iff.1 whole
      obtain ⟨passed, told⟩ := (ih nodup).1 ⟨filled, read, read_rest⟩
      exact ⟨passed, Field.exists_fills_iff.1 ⟨slot, fills, value⟩, told_iff.1 told⟩
    · rintro ⟨passed, told, told_rest⟩
      obtain ⟨slot, fills, value⟩ := Field.exists_fills_iff.2 told
      obtain ⟨filled, read, read_rest⟩ := (ih nodup).2 ⟨passed, told_iff.2 told_rest⟩
      exact ⟨(slot, filled), fillAll_cons_eq_ok_iff.2 ⟨fills, read⟩,
        row_cons_eq_ok_iff.2 ⟨value, read_rest⟩⟩

theorem fillAll_append : fillAll fs (ms ++ ns) slots = fillAll fs ms slots >>= fillAll fs ns := by
  induction ms generalizing slots with
  | nil => rfl
  | cons m ms ih =>
    obtain ⟨fault | name, d⟩ := m
    · rfl
    · rw [List.cons_append, fillAll_member, fillAll_member]
      cases fill fs name d slots with
      | error problem => rfl
      | ok slots => exact ih

/-- A field does the same with values that it reads alike. -/
theorem fill_congr (alike : ∀ f ∈ fs, f.name = name → f.codec.read d = f.codec.read d')
    (gap : d.gap = d'.gap) : fill fs name d slots = fill fs name d' slots := by
  induction fs with
  | nil =>
    show (raise d.gap).map _ = (raise d'.gap).map _
    rw [gap]
  | cons f fs ih =>
    obtain ⟨slot, slots⟩ := slots
    obtain ⟨first, later⟩ := List.forall_mem_cons.1 alike
    by_cases own : f.name = name
    · subst own
      cases slot with
      | some v => rw [fill_twice, fill_twice]
      | none => rw [fill_own, fill_own, first rfl]
    · rw [fill_other own, fill_other own, ih later]

end Slots

/-- A record is read of an object exactly if the object is whole, its fields are told by it and the
rest is passed over. -/
theorem Codec.record_object_eq_ok_iff {record : String} {stop : Option Fault} {row : Row fs}
    (nodup : (fs.map (·.name)).Nodup) : (Codec.record record fs).read (.object ms stop) = .ok row ↔
      stop = none ∧ PassedOver (fs.map (·.name)) ms ∧ row.Told fs ms := by
  rw [← Slots.exists_row_iff nodup]
  constructor
  · intro whole
    obtain ⟨filled, read, later⟩ := exists_of_bind_eq_ok whole
    obtain ⟨_, ends, read_row⟩ := exists_of_bind_eq_ok later
    cases stop with
    | none => exact ⟨rfl, filled, read, read_row⟩
    | some fault => cases ends
  · rintro ⟨rfl, filled, read, read_row⟩
    show Slots.fillAll fs ms (Slots.empty fs) >>= _ = _
    rw [read]
    exact read_row

/-- An object comes to the same with a value in place of one that its field reads alike. -/
theorem Codec.record_object_congr {record : String} {stop : Option Fault}
    (alike : ∀ f ∈ fs, f.name = name → f.codec.read d = f.codec.read d') (gap : d.gap = d'.gap) :
    (Codec.record record fs).read (.object (ms ++ (.ok name, d) :: ns) stop) =
      (Codec.record record fs).read (.object (ms ++ (.ok name, d') :: ns) stop) := by
  have same : Slots.fillAll fs (ms ++ (.ok name, d) :: ns) (Slots.empty fs) =
      Slots.fillAll fs (ms ++ (.ok name, d') :: ns) (Slots.empty fs) := by
    rw [Slots.fillAll_append, Slots.fillAll_append]
    cases Slots.fillAll fs ms (Slots.empty fs) with
    | error problem => rfl
    | ok slots =>
      show Slots.fillAll fs ((.ok name, d) :: ns) slots =
        Slots.fillAll fs ((.ok name, d') :: ns) slots
      rw [Slots.fillAll_member, Slots.fillAll_member, Slots.fill_congr alike gap]
  show Slots.fillAll fs (ms ++ (.ok name, d) :: ns) (Slots.empty fs) >>= _ =
    Slots.fillAll fs (ms ++ (.ok name, d') :: ns) (Slots.empty fs) >>= _
  rw [same]

/-- A codec made of another one reads a value exactly where the other one reads what stands for
it. -/
theorem Codec.iso_eq_ok_iff {α β : Type} {c : Codec α} {forth : α → β} {back : β → α} {b : β}
    (inverse : ∀ a b, forth a = b ↔ a = back b) :
    (c.iso forth back).read d = .ok b ↔ c.read d = .ok (back b) := by
  constructor
  · intro whole
    obtain ⟨a, read, same⟩ := exists_of_map_eq_ok whole
    rwa [← (inverse a b).1 same]
  · intro read
    show (c.read d).map forth = _
    rw [read, Except.map, (inverse _ b).2 rfl]

end Ferry.Json
