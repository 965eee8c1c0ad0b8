import Ferry.Proofs.Json.Members
import Ferry.Proofs.Json.Recognition
import Mathlib.Data.List.Forall2
import Mathlib.Data.List.Nodup
import Mathlib.Logic.Relation

/-!
What a reader does not see of a text. A shape tells where the names of members are known; a change
puts in a member under a name that is not, or another order of members, into any object of a value
(`Tree.Change`). Codecs bear changes, each way of making one by a lemma of its own
(`Codec.Bears`): leaves have no members, a list bears what its items bear, and a record what its
fields do. One change is borne by cases on where it is, any number of them by induction.

Leaving out a member whose field has a default puts the default in place of the field's value
(`Row.clear`, `Codec.record_leave_out`).
-/
namespace Ferry.Json

variable {α β : Type}

/-! ### Trees as drafts -/

/-- The member that is written. -/
def Labelled.draft (m : Labelled Tree) : Member := (m.name.value, m.value.value.draft)

/-- Another value between the same spaces. -/
def Padded.put (p : Padded Tree) (t : Tree) : Padded Tree := { p with value := t }

/-- Another value under the same name. -/
def Labelled.put (m : Labelled Tree) (t : Tree) : Labelled Tree := { m with value := m.value.put t }

theorem Labelled.draft_of_named {m : Labelled Tree} {name : String}
    (named : m.name.value = .ok name) : m.draft = (.ok name, m.value.value.draft) := by
  rw [draft, named]

theorem Labelled.draft_put {m : Labelled Tree} {name : String} {t : Tree}
    (named : m.name.value = .ok name) : (m.put t).draft = (.ok name, t.draft) := by
  rw [draft]
  exact congrArg (·, t.draft) named

namespace Tree

theorem itemDrafts_eq_map (ps : List (Padded Tree)) :
    itemDrafts ps = ps.map fun p => p.value.draft := by
  induction ps with
  | nil => rfl
  | cons p ps ih => rw [itemDrafts, ih, List.map_cons]

theorem memberDrafts_eq_map (ms : List (Labelled Tree)) :
    memberDrafts ms = ms.map Labelled.draft := by
  induction ms with
  | nil => rfl
  | cons m ms ih =>
    rw [memberDrafts, ih, List.map_cons]
    rfl

theorem draft_array {space : Space} {ps : List (Padded Tree)} :
    (array space ps).draft = .array (ps.map fun p => p.value.draft) none := by
  rw [draft, itemDrafts_eq_map]

theorem draft_object {space : Space} {ms : List (Labelled Tree)} :
    (object space ms).draft = .object (ms.map Labelled.draft) none := by
  rw [draft, memberDrafts_eq_map]

mutual
/-- A tree is whole, so it can be passed over. -/
theorem gap_draft : ∀ t : Tree, t.draft.gap = none
  | .null | .boolean _ | .number _ | .string _ => rfl
  | .array _ ps => by simp [draft, Draft.gap, gap_itemDrafts ps]
  | .object _ ms => by simp [draft, Draft.gap, gap_memberDrafts ms]

theorem gap_itemDrafts : ∀ ps : List (Padded Tree), Draft.gapItems (itemDrafts ps) = none
  | [] => rfl
  | ⟨_, t, _⟩ :: ps => by simp [itemDrafts, Draft.gapItems, gap_draft t, gap_itemDrafts ps]

theorem gap_memberDrafts : ∀ ms : List (Labelled Tree), Draft.gapMembers (memberDrafts ms) = none
  | [] => rfl
  | ⟨_, _, _, _, t, _⟩ :: ms => by
    simp [memberDrafts, Draft.gapMembers, gap_draft t, gap_memberDrafts ms]
end

end Tree

/-! ### Changes -/

/-- Where the names of members are known: in the records among the items of a list, the fields of a
record and so on; nowhere else. -/
inductive Shape
  | plain
  | list (item : Shape)
  | record (fields : List (String × Shape))

namespace Shape

/-- The shape of the item at a place. A record may be given as a list of its fields. -/
def item : Shape → Nat → Shape
  | .plain, _ => .plain
  | .list shape, _ => shape
  | .record fields, i => (fields[i]?.map (·.2)).getD .plain

/-- The shape of the value under a name, if the name is known. -/
def field? : Shape → String → Option Shape
  | .record fields, name => fields.lookup name
  | _, _ => none

/-- A record without records in its fields. -/
def flat (names : List String) : Shape := .record (names.map (·, .plain))

end Shape

/-- A change to a value that is read as something of a shape: in one of its objects, however deep
inside, one more member under a name that is not known there, or the same members in another
order. -/
inductive Tree.Change : Shape → Tree → Tree → Prop
  | insert {shape : Shape} {space : Space} {front back : List (Labelled Tree)}
      {m : Labelled Tree} {name : String} (named : m.name.value = .ok name)
      (unknown : shape.field? name = none) :
      Change shape (.object space (front ++ back)) (.object space (front ++ m :: back))
  | reorder {shape : Shape} {space : Space} {ms ns : List (Labelled Tree)} (perm : ms.Perm ns) :
      Change shape (.object space ms) (.object space ns)
  | item {shape : Shape} {space : Space} {front back : List (Padded Tree)} {p : Padded Tree}
      {t : Tree} (change : Change (shape.item front.length) p.value t) :
      Change shape (.array space (front ++ p :: back)) (.array space (front ++ p.put t :: back))
  | member {shape : Shape} {space : Space} {front back : List (Labelled Tree)}
      {m : Labelled Tree} {name : String} {t : Tree} (named : m.name.value = .ok name)
      (change : Change ((shape.field? name).getD .plain) m.value.value t) :
      Change shape (.object space (front ++ m :: back)) (.object space (front ++ m.put t :: back))

/-- A codec reads the same before a change and after it. -/
def Codec.Bears (c : Codec α) (shape : Shape) : Prop :=
  ∀ ⦃t t' : Tree⦄ ⦃a : α⦄, t.Change shape t' → c.read t.draft = .ok a → c.read t'.draft = .ok a

/-! ### Leaves and lists -/

/-- A codec that reads neither lists nor objects. -/
structure Codec.Plain (c : Codec α) : Prop where
  no_array : ∀ items stop a, c.read (.array items stop) ≠ .ok a
  no_object : ∀ members stop a, c.read (.object members stop) ≠ .ok a

namespace Codec

theorem Plain.bears {c : Codec α} (plain : c.Plain) (shape : Shape) : c.Bears shape := by
  intro t t' a change read
  cases change with
  | insert | reorder | member => exact absurd read (plain.no_object _ _ _)
  | item => exact absurd read (plain.no_array _ _ _)

theorem text_plain : text.Plain := ⟨fun _ _ _ => nofun, fun _ _ _ => nofun⟩

theorem optionalText_plain : optionalText.Plain := ⟨fun _ _ _ => nofun, fun _ _ _ => nofun⟩

theorem flag_plain : flag.Plain := ⟨fun _ _ _ => nofun, fun _ _ _ => nofun⟩

theorem word_plain (wanted : String) : (word wanted).Plain :=
  ⟨fun _ _ _ => nofun, fun _ _ _ => nofun⟩

theorem signedWord_plain (wanted : String) : (signedWord wanted).Plain :=
  ⟨fun _ _ _ => nofun, fun _ _ _ => nofun⟩

theorem Bears.iso {c : Codec α} {shape : Shape} (bears : c.Bears shape) (forth : α → β)
    (back : β → α) : (c.iso forth back).Bears shape := by
  intro t t' b change read
  obtain ⟨a, own, rfl⟩ := exists_of_map_eq_ok read
  show (c.read t'.draft).map forth = _
  rw [bears change own]
  rfl

variable {c : Codec α} {d : Draft} {ds es : List Draft} {as : List α}

/-- The items of a list are read one by one, so that each can be exchanged. -/
theorem exists_of_readItems (read : c.readItems (ds ++ d :: es) = .ok as) :
    ∃ before a after, as = before ++ a :: after ∧ before.length = ds.length ∧ c.read d = .ok a ∧
      ∀ d' a', c.read d' = .ok a' → c.readItems (ds ++ d' :: es) = .ok (before ++ a' :: after) := by
  induction ds generalizing as with
  | nil =>
    obtain ⟨a, first, later⟩ := exists_of_bind_eq_ok read
    obtain ⟨after, others, same⟩ := exists_of_bind_eq_ok later
    obtain rfl := Except.ok.inj same
    refine ⟨[], a, after, rfl, rfl, first, fun d' a' other => ?_⟩
    rw [List.nil_append, readItems, other, others]
    rfl
  | cons e ds ih =>
    obtain ⟨b, first, later⟩ := exists_of_bind_eq_ok read
    obtain ⟨bs, others, same⟩ := exists_of_bind_eq_ok later
    obtain rfl := Except.ok.inj same
    obtain ⟨before, a, after, rfl, length, own, exchange⟩ := ih others
    refine ⟨b :: before, a, after, rfl, congrArg (· + 1) length, own, fun d' a' other => ?_⟩
    rw [List.cons_append, readItems, first, exchange d' a' other]
    rfl

theorem list_array_eq_ok_iff : c.list.read (.array ds none) = .ok as ↔ c.readItems ds = .ok as := by
  show (c.readItems ds >>= fun as => Except.ok as) = _ ↔ _
  cases c.readItems ds <;> rfl

theorem Bears.list {shape : Shape} (bears : c.Bears shape) : c.list.Bears (.list shape) := by
  intro t t' as change read
  cases change with
  | insert | reorder | member => cases read
  | item change =>
    rw [Tree.draft_array, list_array_eq_ok_iff, List.map_append, List.map_cons] at read ⊢
    obtain ⟨before, a, after, rfl, -, own, exchange⟩ := exists_of_readItems read
    exact exchange _ a (bears change own)

end Codec

/-! ### Records given as objects -/

variable {f : Field} {fs : List Field} {row : Row fs} {ms ns front back : List Member}
  {d d' : Draft} {name : String}

theorem given_append : given name (ms ++ ns) = given name ms ++ given name ns := by
  rw [given, List.filter_append, List.map_append, given, given]

theorem given_perm (perm : ms.Perm ns) : (given name ms).Perm (given name ns) :=
  (perm.filter _).map _

/-- What is told by one draft among others is told by it alone. -/
theorem Field.told_among_iff {ds es : List Draft} {v : f.type} :
    f.Told (ds ++ d :: es) v ↔ ds = [] ∧ es = [] ∧ f.codec.read d = .ok v := by
  constructor
  · rintro (⟨none, -⟩ | ⟨d', one, read⟩)
    · cases (List.append_eq_nil_iff.1 none).2
    · cases ds with
      | nil =>
        cases one
        exact ⟨rfl, rfl, read⟩
      | cons e ds => cases (List.append_eq_nil_iff.1 (List.cons.inj one).2).2
  · rintro ⟨rfl, rfl, read⟩
    exact .inr ⟨d, rfl, read⟩

theorem Field.Told.perm {ds es : List Draft} {v : f.type} (told : f.Told ds v)
    (perm : ds.Perm es) : f.Told es v := by
  obtain ⟨rfl, absent⟩ | ⟨d, rfl, read⟩ := told
  · exact .inl ⟨perm.nil_eq.symm, absent⟩
  · exact .inr ⟨d, List.perm_singleton.1 perm.symm, read⟩

/-- A row is told by other members as well if each field is. -/
theorem Row.Told.imp : ∀ {fs : List Field} {row : Row fs},
    (∀ f ∈ fs, ∀ v, f.Told (given f.name ms) v → f.Told (given f.name ns) v) →
      row.Told fs ms → row.Told fs ns
  | [], _, _, _ => trivial
  | _ :: _, (_, _), each, ⟨told, told_rest⟩ =>
    ⟨each _ List.mem_cons_self _ told,
      Row.Told.imp (fun f mem => each f (List.mem_cons_of_mem _ mem)) told_rest⟩

theorem Row.Told.insert (told : row.Told fs (front ++ back)) (unknown : name ∉ fs.map (·.name)) :
    row.Told fs (front ++ (.ok name, d) :: back) := by
  refine told.imp fun f mem v told => ?_
  have other : name ≠ f.name := fun same => unknown (same ▸ List.mem_map_of_mem mem)
  rwa [given_append, given_cons_other other, ← given_append]

theorem Row.Told.perm (told : row.Told fs ms) (perm : ms.Perm ns) : row.Told fs ns :=
  told.imp fun _ _ _ told => told.perm (given_perm perm)

theorem Row.Told.exchange (told : row.Told fs (front ++ (.ok name, d) :: back))
    (each : ∀ f ∈ fs, f.name = name → ∀ v, f.codec.read d = .ok v → f.codec.read d' = .ok v) :
    row.Told fs (front ++ (.ok name, d') :: back) := by
  refine told.imp fun f mem v told => ?_
  rw [given_append] at told ⊢
  by_cases own : name = f.name
  · subst own
    rw [given_cons_own, Field.told_among_iff] at told ⊢
    obtain ⟨first, last, read⟩ := told
    exact ⟨first, last, each f mem rfl v read⟩
  · rwa [given_cons_other own] at told ⊢

theorem passedOver_iff_named {names : List String} {ms : List (Labelled Tree)} :
    PassedOver names (ms.map Labelled.draft) ↔ ∀ m ∈ ms, ∃ name, m.name.value = .ok name := by
  rw [PassedOver, List.forall_mem_map]
  refine forall₂_congr fun m _ => exists_congr fun name => ?_
  exact and_iff_left fun _ => Tree.gap_draft _

theorem forall_mem_around {γ : Type} {P : γ → Prop} {x : γ} {xs ys : List γ} :
    (∀ y ∈ xs ++ x :: ys, P y) ↔ P x ∧ ∀ y ∈ xs ++ ys, P y := by
  rw [List.forall_mem_append, List.forall_mem_cons, List.forall_mem_append, and_left_comm]

/-- An object is read as a row exactly if all its names can be read and all fields are told. -/
theorem Codec.record_tree_eq_ok_iff {record : String} {space : Space} {ms : List (Labelled Tree)}
    (nodup : (fs.map (·.name)).Nodup) :
    (Codec.record record fs).read (Tree.object space ms).draft = .ok row ↔
      (∀ m ∈ ms, ∃ name, m.name.value = .ok name) ∧ row.Told fs (ms.map Labelled.draft) := by
  rw [Tree.draft_object, Codec.record_object_eq_ok_iff nodup, passedOver_iff_named]
  exact and_iff_right rfl

/-! ### Records with their shapes -/

/-- The fields of a record have their names, and bear changes of their shapes, one by one. -/
abbrev FieldsBear (fs : List Field) (fields : List (String × Shape)) : Prop :=
  List.Forall₂ (fun f p => f.name = p.1 ∧ f.codec.Bears p.2) fs fields

variable {fields : List (String × Shape)}

theorem FieldsBear.exists_shape (bear : FieldsBear fs fields) (nodup : (fs.map (·.name)).Nodup)
    {f : Field} (mem : f ∈ fs) :
    ∃ shape, (Shape.record fields).field? f.name = some shape ∧ f.codec.Bears shape := by
  induction bear with
  | nil => cases mem
  | @cons g p fs fields own later ih =>
    obtain ⟨own_name, nodup⟩ := List.nodup_cons.1 nodup
    show ∃ shape, (p :: fields).lookup f.name = _ ∧ _
    obtain rfl | mem := List.mem_cons.1 mem
    · refine ⟨p.2, ?_, own.2⟩
      rw [List.lookup_cons, own.1, beq_self_eq_true]
    · have other : (f.name == p.1) = false := by
        rw [← own.1]
        exact beq_false_of_ne fun same => own_name (List.mem_map.2 ⟨f, mem, same⟩)
      rw [List.lookup_cons, other]
      exact ih nodup mem

theorem FieldsBear.not_mem (bear : FieldsBear fs fields) (nodup : (fs.map (·.name)).Nodup)
    (unknown : (Shape.record fields).field? name = none) : name ∉ fs.map (·.name) := by
  intro known
  obtain ⟨f, mem, rfl⟩ := List.mem_map.1 known
  obtain ⟨shape, found, -⟩ := bear.exists_shape nodup mem
  rw [found] at unknown
  cases unknown

/-- A record that is given as a list has its fields at their places. -/
theorem Row.ofItems_exchange {record : String} {size given : Nat} {stop : Option Fault}
    {ds es : List Draft} (bear : FieldsBear fs fields) {p : Tree} {t : Tree}
    (change : Tree.Change ((Shape.record fields).item ds.length) p t)
    (read : Row.ofItems record size stop given fs (ds ++ p.draft :: es) = .ok row) :
    Row.ofItems record size stop given fs (ds ++ t.draft :: es) = .ok row := by
  -- the fields take the items in turn, so the one at the place is reached after those before it
  induction bear generalizing ds given with
  | nil => cases ds <;> cases read
  | @cons f shape fs fields own later ih =>
    cases ds with
    | nil =>
      obtain ⟨v, first, others⟩ := exists_of_bind_eq_ok read
      have first' : f.codec.read t.draft = .ok v := own.2 change first
      show f.codec.read t.draft >>= _ = _
      rw [first']
      exact others
    | cons e ds =>
      obtain ⟨v, first, others⟩ := exists_of_bind_eq_ok read
      obtain ⟨rest, read_rest, same⟩ := exists_of_bind_eq_ok others
      show f.codec.read e >>= _ = _
      rw [first]
      show Row.ofItems _ _ _ _ fs (ds ++ t.draft :: es) >>= _ = _
      rw [ih change read_rest]
      exact same

/-- A record bears what its fields bear, and members under other names. -/
theorem Codec.record_bears {record : String} (nodup : (fs.map (·.name)).Nodup)
    (bear : FieldsBear fs fields) : (Codec.record record fs).Bears (.record fields) := by
  intro t t' row change read
  cases change with
  | item change =>
    rw [Tree.draft_array] at read ⊢
    rw [List.map_append, List.map_cons] at read ⊢
    refine Row.ofItems_exchange bear ?_ read
    rwa [List.length_map]
  | reorder perm =>
    rw [record_tree_eq_ok_iff nodup] at read ⊢
    obtain ⟨named, told⟩ := read
    exact ⟨fun m mem => named m (perm.mem_iff.2 mem), told.perm (perm.map _)⟩
  | insert own unknown =>
    -- no field is told by the new member, and its name can be read
    rw [record_tree_eq_ok_iff nodup] at read ⊢
    obtain ⟨named, told⟩ := read
    refine ⟨forall_mem_around.2 ⟨⟨_, own⟩, named⟩, ?_⟩
    rw [List.map_append] at told
    rw [List.map_append, List.map_cons, Labelled.draft_of_named own]
    exact told.insert (bear.not_mem nodup unknown)
  | member own change =>
    -- inside a value that a field reads, or one that is passed over before and after
    rw [record_tree_eq_ok_iff nodup] at read ⊢
    obtain ⟨named, told⟩ := read
    refine ⟨forall_mem_around.2 ⟨⟨_, own⟩, (forall_mem_around.1 named).2⟩, ?_⟩
    rw [List.map_append, List.map_cons, Labelled.draft_of_named own] at told
    rw [List.map_append, List.map_cons, Labelled.draft_put own]
    refine told.exchange fun f mem same v read => ?_
    obtain ⟨shape, found, bears⟩ := bear.exists_shape nodup mem
    rw [same] at found
    rw [found] at change
    exact bears change read

/-- A record without records in its fields. -/
theorem Codec.record_bears_flat {record : String} (nodup : (fs.map (·.name)).Nodup)
    (plain : ∀ f ∈ fs, f.codec.Plain) :
    (Codec.record record fs).Bears (.flat (fs.map (·.name))) := by
  refine record_bears nodup ?_
  rw [List.map_map]
  exact List.forall₂_map_right_iff.2 (List.forall₂_same.2 fun f mem => ⟨rfl, (plain f mem).bears _⟩)

/-- Any number of changes. -/
theorem Codec.Bears.changes {c : Codec α} {shape : Shape} (bears : c.Bears shape) {t t' : Tree}
    {a : α} (changes : Relation.ReflTransGen (Tree.Change shape) t t')
    (read : c.read t.draft = .ok a) : c.read t'.draft = .ok a := by
  induction changes with
  | refl => exact read
  | tail _ change ih => exact bears change ih

/-! ### Members left out -/

/-- The row with the default of the field of a name in place of its value. -/
def Row.clear (name : String) : (fs : List Field) → Row fs → Row fs
  | [], _ => ()
  | f :: fs, (v, rest) => (if f.name = name then f.absent.getD v else v, clear name fs rest)

theorem Row.exists_told_of_mem : ∀ {fs : List Field} {row : Row fs}, row.Told fs ms →
    ∀ f ∈ fs, ∃ v, f.Told (given f.name ms) v
  | f :: fs, (v, rest), ⟨told, told_rest⟩, g, mem => by
    obtain rfl | mem := List.mem_cons.1 mem
    · exact ⟨v, told⟩
    · exact exists_told_of_mem told_rest g mem

/-- Without the member of a field that may be absent, the field has its default and the others
keep their values. -/
theorem Row.told_clear : ∀ {fs : List Field} {row : Row fs},
    (∀ f ∈ fs, f.name = name → f.absent.isSome) → given name ns = [] →
    (∀ other, other ≠ name → given other ns = given other ms) →
      row.Told fs ms → (row.clear name fs).Told fs ns
  | [], _, _, _, _, _ => trivial
  | f :: fs, (v, rest), optional, own, others, ⟨told, told_rest⟩ => by
    obtain ⟨first, later⟩ := List.forall_mem_cons.1 optional
    refine ⟨?_, told_clear later own others told_rest⟩
    by_cases same : f.name = name
    · obtain ⟨w, absent⟩ := Option.isSome_iff_exists.1 (first same)
      rw [if_pos same, absent, same, own]
      exact .inl ⟨rfl, absent⟩
    · rw [if_neg same, others _ same]
      exact told

/-- A codec reads something else, though still what is told, where a member is left out. -/
def Codec.BearsLoss (c : Codec α) (leavesOut : Tree → Tree → (α → α) → Prop) : Prop :=
  ∀ ⦃t t' : Tree⦄ ⦃reset : α → α⦄ ⦃a : α⦄, leavesOut t t' reset → c.read t.draft = .ok a →
    c.read t'.draft = .ok (reset a)

/-- A member is left out of an object. The table tells what that does to the value, for each name
that may be left out. -/
inductive Tree.LeavesOut (resets : List (String × (α → α))) : Tree → Tree → (α → α) → Prop
  | member {space : Space} {front back : List (Labelled Tree)} {m : Labelled Tree} {name : String}
      {reset : α → α} (named : m.name.value = .ok name) (known : (name, reset) ∈ resets) :
      LeavesOut resets (.object space (front ++ m :: back)) (.object space (front ++ back)) reset

/-- Where nothing may be left out, nothing is lost. -/
theorem Codec.bearsLoss_nil {c : Codec α} : c.BearsLoss (Tree.LeavesOut []) := by
  rintro t t' reset a ⟨-, known⟩
  cases known

theorem Codec.record_leave_out {record : String} (nodup : (fs.map (·.name)).Nodup)
    {f : Field} (mem : f ∈ fs) (optional : f.absent.isSome) {space : Space}
    {front back : List (Labelled Tree)} {m : Labelled Tree} (named : m.name.value = .ok f.name)
    (read : (Codec.record record fs).read (Tree.object space (front ++ m :: back)).draft =
      .ok row) :
    (Codec.record record fs).read (Tree.object space (front ++ back)).draft =
      .ok (row.clear f.name fs) := by
  rw [record_tree_eq_ok_iff nodup] at read ⊢
  obtain ⟨all_named, told⟩ := read
  refine ⟨(forall_mem_around.1 all_named).2, ?_⟩
  rw [List.map_append, List.map_cons, Labelled.draft_of_named named] at told
  rw [List.map_append]
  refine Row.told_clear (fun g mem' same => ?_) ?_ (fun other ne => ?_) told
  · obtain rfl := List.inj_on_of_nodup_map nodup mem' mem same
    exact optional
  · -- the member was the only one under its name
    obtain ⟨v, told⟩ := Row.exists_told_of_mem told f mem
    rw [given_append, given_cons_own, Field.told_among_iff] at told
    rw [given_append, told.1, told.2.1]
    rfl
  · rw [given_append, given_append, given_cons_other ne.symm]

/-- What a table says of a record's fields: each name is that of a field with a default, and the
value is reset as the row is cleared. -/
def Resets (fs : List Field) (forth : Row fs → β) (resets : List (String × (β → β))) : Prop :=
  ∀ p ∈ resets, (∃ f ∈ fs, f.name = p.1 ∧ f.absent.isSome) ∧
    ∀ row, forth (row.clear p.1 fs) = p.2 (forth row)

theorem Codec.record_bears_loss {record : String} {forth : Row fs → β} {back : β → Row fs}
    {resets : List (String × (β → β))} (nodup : (fs.map (·.name)).Nodup)
    (table : Resets fs forth resets) :
    ((Codec.record record fs).iso forth back).BearsLoss (Tree.LeavesOut resets) := by
  rintro t t' reset b ⟨named, known⟩ read
  obtain ⟨row, own, rfl⟩ := exists_of_map_eq_ok read
  obtain ⟨⟨f, mem, rfl, optional⟩, cleared⟩ := table _ known
  show ((Codec.record record fs).read _).map forth = _
  rw [record_leave_out nodup mem optional named own]
  exact congrArg Except.ok (cleared row)

/-- Something is left out of one item of a list. -/
inductive Tree.ItemLeavesOut (leavesOut : Tree → Tree → (α → α) → Prop) :
    Tree → Tree → (List α → List α) → Prop
  | item {space : Space} {front back : List (Padded Tree)} {p : Padded Tree} {t : Tree}
      {reset : α → α} (left_out : leavesOut p.value t reset) :
      ItemLeavesOut leavesOut (.array space (front ++ p :: back))
        (.array space (front ++ p.put t :: back)) (·.modify front.length reset)

theorem Codec.BearsLoss.list {c : Codec α} {leavesOut : Tree → Tree → (α → α) → Prop}
    (bears : c.BearsLoss leavesOut) : c.list.BearsLoss (Tree.ItemLeavesOut leavesOut) := by
  intro t t' reset as left_out read
  cases left_out with
  | @item space front back p t reset left_out =>
    rw [Tree.draft_array, list_array_eq_ok_iff, List.map_append, List.map_cons] at read ⊢
    obtain ⟨before, a, after, rfl, length, own, exchange⟩ := exists_of_readItems read
    rw [List.length_map] at length
    have modified : (before ++ a :: after).modify front.length reset =
        before ++ reset a :: after := by
      rw [← length]
      simp [List.modify_eq_take_cons_drop]
    exact (exchange _ _ (bears left_out own)).trans (congrArg _ modified.symm)

/-- With another value of its first field, a row is told by the members with the value exchanged. -/
theorem Row.Told.exchange_first {v v' : f.type} {rest : Row fs}
    (own_name : f.name ∉ fs.map (·.name))
    (told : Row.Told (f :: fs) (front ++ (.ok f.name, d) :: back) (v, rest))
    (exchange : f.codec.read d = .ok v → f.codec.read d' = .ok v') :
    Row.Told (f :: fs) (front ++ (.ok f.name, d') :: back) (v', rest) := by
  obtain ⟨told, told_rest⟩ := told
  rw [given_append, given_cons_own, Field.told_among_iff] at told
  obtain ⟨first, last, read⟩ := told
  refine ⟨?_, told_rest.exchange fun g mem same => ?_⟩
  · rw [given_append, given_cons_own, Field.told_among_iff]
    exact ⟨first, last, exchange read⟩
  · exact absurd (List.mem_map.2 ⟨g, mem, same⟩) own_name

/-- What is left out of the value of its first field is left out of the record. -/
theorem Codec.record_leave_out_first {record : String} (nodup : ((f :: fs).map (·.name)).Nodup)
    {leavesOut : Tree → Tree → (f.type → f.type) → Prop} (bears : f.codec.BearsLoss leavesOut)
    {space : Space} {front back : List (Labelled Tree)} {m : Labelled Tree} {t : Tree}
    {reset : f.type → f.type} {v : f.type} {rest : Row fs} (named : m.name.value = .ok f.name)
    (left_out : leavesOut m.value.value t reset)
    (read : (Codec.record record (f :: fs)).read (Tree.object space (front ++ m :: back)).draft =
      .ok (v, rest)) :
    (Codec.record record (f :: fs)).read (Tree.object space (front ++ m.put t :: back)).draft =
      .ok (reset v, rest) := by
  obtain ⟨all_named, told⟩ := (record_tree_eq_ok_iff nodup).1 read
  refine (record_tree_eq_ok_iff nodup).2
    ⟨forall_mem_around.2 ⟨⟨_, named⟩, (forall_mem_around.1 all_named).2⟩, ?_⟩
  rw [List.map_append, List.map_cons, Labelled.draft_of_named named] at told
  rw [List.map_append, List.map_cons, Labelled.draft_put named]
  exact told.exchange_first (List.nodup_cons.1 nodup).1 fun own => bears left_out own

end Ferry.Json
