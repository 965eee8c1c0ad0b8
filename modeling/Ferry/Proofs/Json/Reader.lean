import Ferry.Json.Writer
import Ferry.Proofs.Json.Recognition

/-!
A value that has been written is read back as it was, if its numbers are whole ones of 64 bits. What
is written of it is a tree of the grammar without space, and the tree means the value.
-/
namespace Ferry.Json

open Ferry.Text

/-! ### Texts -/

theorem hexValue?_hexDigit {n : Nat} (lt : n < 16) : hexValue? (hexDigit n) = some n := by
  have all : ∀ n < 16, hexValue? (hexDigit n) = some n := by decide
  exact all n lt

/-- A control is written as its code. -/
theorem code?_of_control {c : Char} (control : c.toNat < 0x20) :
    code? '0' '0' (hexDigit (c.toNat / 16)) (hexDigit (c.toNat % 16)) = some c.toNat := by
  have high : c.toNat / 16 < 16 := by omega
  have low : c.toNat % 16 < 16 := Nat.mod_lt _ (by decide)
  have zero : hexValue? '0' = some 0 := rfl
  simp only [code?, zero, hexValue?_hexDigit high, hexValue?_hexDigit low, Option.bind_eq_bind,
    Option.bind_some, Option.some.injEq]
  omega

/-- Each character is written as one sign that stands for it. -/
theorem exists_sign (c : Char) : ∃ s : TextSign, s.chars = textChar c ∧
    ∀ stop us, unitChars stop (s.unit :: us) = (unitChars stop us).map (c :: ·) := by
  unfold textChar
  split
  iterate 7 exact ⟨.letter _ _ rfl, rfl, fun _ _ => rfl⟩
  rename_i no_quote no_backslash _ _ _ _ _
  split
  · rename_i control
    refine ⟨.code _ _ _ _ _ (code?_of_control control), rfl, fun stop us => ?_⟩
    have no_low : ¬ isLowHalf c.toNat = true := by simp [isLowHalf]; omega
    have no_high : ¬ isHighHalf c.toNat = true := by simp [isHighHalf]; omega
    rw [TextSign.unit, unitChars.eq_def]
    simp only [if_neg no_low, if_neg no_high, Char.ofNat_toNat]
  · rename_i no_control
    exact ⟨.plain c ⟨by omega, no_quote, no_backslash⟩, rfl, fun _ _ => rfl⟩

theorem exists_spelling_of_text (s : List Char) : ∃ w : Spelling,
    w.chars = s.flatMap textChar ++ ['"'] ∧ unitChars none (w.map TextSign.unit) = .ok s := by
  induction s with
  | nil => exact ⟨[], rfl, rfl⟩
  | cons c s ih =>
    obtain ⟨w, written, value⟩ := ih
    obtain ⟨sign, written_sign, stands⟩ := exists_sign c
    refine ⟨sign :: w, ?_, ?_⟩
    · rw [Spelling.chars_cons, written_sign, written, List.flatMap_cons, List.append_assoc]
    · rw [List.map_cons, stands, value]
      rfl

/-- A text is written as a spelling of it. -/
theorem exists_spelling_writeText (s : String) :
    ∃ w : Spelling, '"' :: w.chars = writeText s ∧ w.value = .ok s := by
  obtain ⟨w, written, value⟩ := exists_spelling_of_text s.toList
  refine ⟨w, by rw [written]; rfl, ?_⟩
  rw [Spelling.value, value, Except.map, String.ofList_toList]

/-! ### Whole numbers -/

/-- All digits of a number below `2 ^ 64` fit a word. -/
theorem fitWord_of_readDigits {n m : Nat} {ds : List Char} (read : readDigits n ds = some m)
    (lt : m < UInt64.size) : fitWord n ds = (m, ds.length) := by
  induction ds generalizing n with
  | nil =>
    obtain rfl := Option.some.inj read
    rfl
  | cons c ds ih =>
    obtain ⟨d, digit, read⟩ := Option.bind_eq_some_iff.1 read
    have fits : 10 * n + d < UInt64.size := Nat.lt_of_le_of_lt (le_of_readDigits read) lt
    rw [fitWord, digit, Option.getD_some, if_pos fits, ih read]
    rfl

/-- The whole numbers that JSON has here: those of a signed or unsigned 64-bit word. -/
def IsWord (n : Int) : Prop := -0x8000000000000000 ≤ n ∧ n < UInt64.size

-- The bound is made a variable below, since comparing with it is not meant to be computed.
theorem numberOf_digits {n : Nat} {ds : List Char} (read : readDigits 0 ds = some n)
    (lt : n < UInt64.size) : numberOf false ds none none = .ok (.integer n) := by
  unfold numberOf
  rw [fitWord_of_readDigits read lt]
  generalize 0x8000000000000000 = bound
  simp

theorem numberOf_negative_digits {n : Nat} {ds : List Char} (read : readDigits 0 ds = some n)
    (pos : 0 < n) (le : n ≤ 0x8000000000000000) :
    numberOf true ds none none = .ok (.integer (-n)) := by
  have lt : n < UInt64.size := Nat.lt_of_le_of_lt le (by decide)
  unfold numberOf
  rw [fitWord_of_readDigits read lt]
  generalize 0x8000000000000000 = bound at le ⊢
  simp [pos, le]

/-- The digits of a number with a minus sign before them or without. -/
def Numeral.ofNat (negative : Bool) (n : Nat) : Numeral where
  negative := negative
  whole :=
    { chars := Nat.toDigits 10 n
      some_digit := by
        obtain ⟨c, ds, eq, -⟩ := toDigits_eq_cons n
        rw [eq]
        exact List.cons_ne_nil c ds
      digits := fun _ => isDigit_of_mem_toDigits }
  no_leading_zero := by
    obtain ⟨c, ds, eq, -, zero⟩ := toDigits_eq_cons n
    rintro ds leading
    obtain ⟨rfl, rfl⟩ := List.cons.inj (eq.symm.trans leading)
    exact zero rfl
  places := none
  exponent := none

theorem Numeral.chars_ofNat (negative : Bool) (n : Nat) :
    (ofNat negative n).chars = signChars negative ++ Nat.toDigits 10 n :=
  congrArg _ (List.append_nil _)

/-- A whole number is written as a numeral of it. -/
theorem exists_numeral_writeNumber {n : Int} (word : IsWord n) :
    ∃ m : Numeral, m.chars = writeNumber (.integer n) ∧ m.value = .ok (.integer n) := by
  obtain ⟨lower, upper⟩ := word
  cases n with
  | ofNat n =>
    have lt : n < UInt64.size := Int.ofNat_lt.1 upper
    refine ⟨.ofNat false n, ?_, numberOf_digits (readDigits_toDigits n) lt⟩
    rw [Numeral.chars_ofNat]
    exact Nat.toList_repr.symm
  | negSucc n =>
    have le : n + 1 ≤ 0x8000000000000000 := by omega
    refine ⟨.ofNat true (n + 1), ?_,
      numberOf_negative_digits (readDigits_toDigits (n + 1)) n.succ_pos le⟩
    rw [Numeral.chars_ofNat]
    show _ = ("-" ++ (n + 1).repr).toList
    rw [String.toList_append, Nat.toList_repr]
    rfl

/-! ### Values -/

mutual
/-- Whether all numbers in a value are whole ones of 64 bits. -/
def IsExact : Json → Prop
  | .number (.integer n) => IsWord n
  | .number (.real _) => False
  | .array items => ItemsExact items
  | .object members => MembersExact members
  | _ => True

/-- Whether all numbers in the items of a list are whole ones of 64 bits. -/
def ItemsExact : List Json → Prop
  | [] => True
  | v :: vs => IsExact v ∧ ItemsExact vs

/-- Whether all numbers in the members of an object are whole ones of 64 bits. -/
def MembersExact : List (String × Json) → Prop
  | [] => True
  | (_, v) :: ms => IsExact v ∧ MembersExact ms
end

mutual
/-- A value is written as a tree that means it. -/
theorem exists_tree_chars : ∀ v : Json, v.IsExact →
    ∃ t : Tree, t.chars = v.chars ∧ t.draft = v.draft
  | .null, _ => ⟨.null, rfl, rfl⟩
  | .boolean true, _ => ⟨.boolean true, rfl, rfl⟩
  | .boolean false, _ => ⟨.boolean false, rfl, rfl⟩
  | .number (.integer n), word => by
    obtain ⟨m, written, value⟩ := exists_numeral_writeNumber word
    exact ⟨.number m, written, by rw [Tree.draft, value]; rfl⟩
  | .string s, _ => by
    obtain ⟨w, written, value⟩ := exists_spelling_writeText s
    exact ⟨.string w, written, by rw [Tree.draft, value]; rfl⟩
  | .array vs, exact_items => by
    obtain ⟨ps, written, drafts⟩ := exists_items_chars vs exact_items
    exact ⟨.array .none ps, by rw [Tree.chars, written]; rfl, by rw [Tree.draft, drafts]; rfl⟩
  | .object ms, exact_members => by
    obtain ⟨ns, written, drafts⟩ := exists_members_chars ms exact_members
    exact ⟨.object .none ns, by rw [Tree.chars, written]; rfl, by rw [Tree.draft, drafts]; rfl⟩

theorem exists_items_chars : ∀ vs : List Json, ItemsExact vs →
    ∃ ps, Tree.itemChars ps = itemChars vs ∧ Tree.itemDrafts ps = draftItems vs
  | [], _ => ⟨[], rfl, rfl⟩
  | [v], ⟨exact_item, _⟩ => by
    obtain ⟨t, written, draft⟩ := exists_tree_chars v exact_item
    refine ⟨[⟨.none, t, .none⟩], ?_, by rw [Tree.itemDrafts, draft]; rfl⟩
    rw [Tree.itemChars, written, itemChars]
    exact List.append_nil _
  | v :: w :: vs, ⟨exact_item, exact_items⟩ => by
    obtain ⟨t, written, draft⟩ := exists_tree_chars v exact_item
    obtain ⟨ps, written_items, drafts⟩ := exists_items_chars (w :: vs) exact_items
    have some_item : ps ≠ [] := by
      rintro rfl
      cases drafts
    refine ⟨⟨.none, t, .none⟩ :: ps, ?_, by rw [Tree.itemDrafts, draft, drafts]; rfl⟩
    rw [Tree.itemChars_cons some_item, written, written_items, itemChars]
    rfl

theorem exists_members_chars : ∀ ms : List (String × Json), MembersExact ms →
    ∃ ns, Tree.memberChars ns = memberChars ms ∧ Tree.memberDrafts ns = draftMembers ms
  | [], _ => ⟨[], rfl, rfl⟩
  | [(name, v)], ⟨exact_value, _⟩ => by
    obtain ⟨w, written_name, value⟩ := exists_spelling_writeText name
    obtain ⟨t, written, draft⟩ := exists_tree_chars v exact_value
    refine ⟨[⟨.none, w, .none, .none, t, .none⟩], ?_,
      by rw [Tree.memberDrafts, value, draft]; rfl⟩
    rw [memberChars, ← written_name, ← written, Tree.memberChars]
    simp [Space.none]
  | (name, v) :: m :: ms, ⟨exact_value, exact_members⟩ => by
    obtain ⟨w, written_name, value⟩ := exists_spelling_writeText name
    obtain ⟨t, written, draft⟩ := exists_tree_chars v exact_value
    obtain ⟨ns, written_members, drafts⟩ := exists_members_chars (m :: ms) exact_members
    have some_member : ns ≠ [] := by
      rintro rfl
      cases drafts
    refine ⟨⟨.none, w, .none, .none, t, .none⟩ :: ns, ?_,
      by rw [Tree.memberDrafts, value, draft, drafts]; rfl⟩
    rw [memberChars, ← written_name, ← written, ← written_members,
      Tree.memberChars_cons some_member]
    simp [Space.none]
end

/-- What is read of the text of a value is the value, and nothing after it. -/
theorem reading_render {v : Json} (isExact : v.IsExact) :
    Reading.ofString v.render = ⟨v.draft, none⟩ := by
  obtain ⟨t, written, draft⟩ := exists_tree_chars v isExact
  have text : Document.text ⟨.none, t, .none⟩ = v.render := by
    rw [Document.text, Document.chars, Space.none, List.nil_append, List.append_nil, written]
    rfl
  rw [← text, Reading.ofString_text, draft]

end Ferry.Json
