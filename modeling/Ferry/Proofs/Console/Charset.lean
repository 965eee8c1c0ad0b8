import Ferry.Console.Charset
import Ferry.Proofs.Text.Utf8

/-!
Text in the character sets of consoles. A set that has one byte for each character writes every text
character by character (`encode_eq_map`), the shortcut for texts all in ASCII included; so what is
read back is the text with a question mark for each character that the set lacks.
-/
namespace Ferry.Console.Charset

/-- The greatest character of a set that has one byte for each. -/
def limit? : Charset → Option Nat
  | .utf8 => none
  | .ascii => some 0x7F
  | .latin1 => some 0xFF

/-- Whether a set has a character. -/
def has (charset : Charset) (c : Char) : Bool := charset.limit?.all fun limit => c.toNat ≤ limit

/-- A text with a question mark for each character that a set lacks. -/
def replaced (charset : Charset) (s : List Char) : List Char :=
  s.map fun c => if charset.has c then c else '?'

/-- The text of some bytes; nothing where they are no text of the set. -/
def decode? (charset : Charset) (bs : List UInt8) : Option (List Char) :=
  match charset.limit? with
  | none => Utf8.decode? bs
  | some limit => bs.mapM fun b => if b.toNat ≤ limit then some (Char.ofNat b.toNat) else none

variable {charset : Charset} {limit : Nat} {s : List Char}

theorem limit_bounds (single : charset.limit? = some limit) : 0x7F ≤ limit ∧ limit ≤ 0xFF := by
  cases charset <;> cases single <;> decide

theorem has_eq (single : charset.limit? = some limit) (c : Char) :
    charset.has c = decide (c.toNat ≤ limit) := by
  rw [has, single, Option.all_some]

theorem toNat_byteUpTo (fits : limit ≤ 0xFF) (c : Char) :
    (byteUpTo limit c).toNat = if c.toNat ≤ limit then c.toNat else '?'.toNat := by
  rw [byteUpTo]
  split
  · rename_i inside
    exact UInt8.toNat_ofNat_of_lt' (Nat.lt_of_le_of_lt (Nat.le_trans inside fits) (by decide))
  · rfl

/-- A character in ASCII is one byte everywhere. -/
theorem encodeChar_ascii {c : Char} (ascii : c.toNat ≤ 0x7F) (at_least : 0x7F ≤ limit) :
    String.utf8EncodeChar c = [byteUpTo limit c] := by
  rw [byteUpTo, if_pos (Nat.le_trans ascii at_least)]
  exact (String.utf8EncodeChar.eq_1 c).trans (if_pos ascii)

theorem encode_ascii (ascii : ∀ c ∈ s, c.toNat ≤ 0x7F) (at_least : 0x7F ≤ limit) :
    Utf8.encode s = s.map (byteUpTo limit) := by
  induction s with
  | nil => rfl
  | cons c s ih =>
    obtain ⟨first, rest⟩ := List.forall_mem_cons.1 ascii
    rw [Utf8.encode, List.flatMap_cons, ← Utf8.encode, encodeChar_ascii first at_least, ih rest]
    rfl

/-- A set of single bytes writes a text character by character. -/
theorem encode_eq_map (single : charset.limit? = some limit) (s : List Char) :
    charset.encode s = s.map (byteUpTo limit) := by
  cases charset with
  | utf8 => cases single
  | latin1 =>
    cases single
    rfl
  | ascii =>
    cases single
    rw [encode]
    split
    · rename_i ascii
      exact encode_ascii (by simpa using ascii) (Nat.le_refl _)
    · rfl

theorem encode_append (charset : Charset) (s t : List Char) :
    charset.encode (s ++ t) = charset.encode s ++ charset.encode t := by
  cases single : charset.limit? with
  | none =>
    cases charset <;> cases single
    exact Utf8.encode_append s t
  | some limit => simp only [encode_eq_map single, List.map_append]

/-- A set of more than single bytes has every character. -/
theorem replaced_eq_self (all : charset.limit? = none) (s : List Char) :
    charset.replaced s = s := by
  have kept (c : Char) : (if charset.has c then c else '?') = c := by
    rw [has, all]
    rfl
  simp only [replaced, kept, List.map_id']

/-- The byte of a character stands for the character, or for the question mark in its place. -/
theorem char_of_byteUpTo (single : charset.limit? = some limit) (c : Char) :
    (byteUpTo limit c).toNat ≤ limit ∧
      Char.ofNat (byteUpTo limit c).toNat = if charset.has c then c else '?' := by
  obtain ⟨at_least, fits⟩ := limit_bounds single
  rw [toNat_byteUpTo fits, has_eq single]
  by_cases inside : c.toNat ≤ limit
  · simp only [if_pos inside, decide_eq_true inside, if_true]
    exact ⟨inside, Char.ofNat_toNat c⟩
  · rw [if_neg inside, if_neg (by simpa using inside)]
    exact ⟨Nat.le_trans (by decide) at_least, rfl⟩

/-- What is read back is the text as far as the set has its characters. -/
theorem decode?_encode (charset : Charset) (s : List Char) :
    charset.decode? (charset.encode s) = some (charset.replaced s) := by
  rw [decode?]
  cases single : charset.limit? with
  | none =>
    rw [replaced_eq_self single]
    cases charset <;> cases single
    exact Utf8.decode?_encode s
  | some limit =>
    simp only [encode_eq_map single, replaced]
    induction s with
    | nil => rfl
    | cons c s ih =>
      obtain ⟨inside, read⟩ := char_of_byteUpTo single c
      rw [List.map_cons, List.mapM_cons, if_pos inside, read, ih]
      rfl

/-- The text that is read back is written in the same bytes. -/
theorem encode_replaced (charset : Charset) (s : List Char) :
    charset.encode (charset.replaced s) = charset.encode s := by
  cases single : charset.limit? with
  | none => rw [replaced_eq_self single]
  | some limit =>
    rw [encode_eq_map single, encode_eq_map single, replaced, List.map_map]
    refine List.map_congr_left fun c _ => ?_
    obtain ⟨at_least, fits⟩ := limit_bounds single
    rw [Function.comp_apply, has_eq single]
    by_cases inside : c.toNat ≤ limit
    · rw [if_pos (decide_eq_true inside)]
    · have question : '?'.toNat ≤ limit := Nat.le_trans (by decide) at_least
      rw [if_neg (by simpa using inside), byteUpTo, byteUpTo, if_neg inside, if_pos question]
      rfl

/-- Texts all in ASCII are the same in every set. -/
theorem encode_of_ascii (charset : Charset) (ascii : ∀ c ∈ s, c.toNat ≤ 0x7F) :
    charset.encode s = Utf8.encode s := by
  cases single : charset.limit? with
  | none =>
    cases charset <;> cases single
    rfl
  | some limit => rw [encode_eq_map single, encode_ascii ascii (limit_bounds single).1]

/-- The bytes of a string in UTF-8 are its own. -/
theorem encode_utf8 (s : String) : Charset.utf8.encode s.toList = s.toUTF8.data.toList := by
  have own : s.toByteArray = s.toList.utf8Encode := by
    rw [← String.toByteArray_ofList, String.ofList_toList]
  show Utf8.encode s.toList = s.toByteArray.data.toList
  rw [own, List.utf8Encode, List.toList_data_toByteArray, Utf8.encode]

/-- In UTF-8 a text is its own bytes. In ASCII and Latin-1 each character is one byte, in order: its
code, or a question mark where the set lacks it. What is read back is the text with these question
marks, which is written in the same bytes. Text all in ASCII, for which there is a shortcut, is in
every set what it is character by character. -/
theorem texts_in_charsets (s : String) :
    Charset.utf8.encode s.toList = s.toUTF8.data.toList ∧
    Charset.utf8.replaced s.toList = s.toList ∧
    (∀ charset : Charset,
      charset.decode? (charset.encode s.toList) = some (charset.replaced s.toList) ∧
        charset.encode (charset.replaced s.toList) = charset.encode s.toList) ∧
    (∀ (charset : Charset) (limit : Nat), (charset, limit) ∈ [(.ascii, 0x7F), (.latin1, 0xFF)] →
      (charset.encode s.toList).length = s.toList.length ∧
      (∀ (i : Nat) (c : Char), s.toList[i]? = some c → ∃ b, (charset.encode s.toList)[i]? = some b ∧
        b.toNat = if c.toNat ≤ limit then c.toNat else '?'.toNat) ∧
      charset.replaced s.toList = s.toList.map fun c => if c.toNat ≤ limit then c else '?') ∧
    ((∀ c ∈ s.toList, c.toNat ≤ 0x7F) →
      Utf8.encode s.toList = s.toList.map (byteUpTo 0x7F) ∧
      ∀ charset : Charset, charset.encode s.toList = Utf8.encode s.toList) := by
  refine ⟨encode_utf8 s, replaced_eq_self rfl _,
    fun charset => ⟨charset.decode?_encode _, charset.encode_replaced _⟩,
    fun charset limit listed => ?_,
    fun ascii => ⟨encode_ascii ascii (Nat.le_refl _), fun charset => charset.encode_of_ascii ascii⟩⟩
  have single : charset.limit? = some limit := by
    simp only [List.mem_cons, Prod.mk.injEq, List.not_mem_nil, or_false] at listed
    obtain ⟨rfl, rfl⟩ | ⟨rfl, rfl⟩ := listed <;> rfl
  rw [encode_eq_map single]
  refine ⟨List.length_map _, fun i c found => ⟨byteUpTo limit c, ?_, ?_⟩, ?_⟩
  · rw [List.getElem?_map, found, Option.map_some]
  · exact toNat_byteUpTo (limit_bounds single).2 c
  · simp only [replaced, has_eq single, decide_eq_true_eq]

/-- A word with a letter that ASCII lacks and a sign that Latin-1 lacks too, and a plain one. -/
theorem cafe_in_charsets :
    Charset.latin1.encode "caf\u00e9\u2713".toList = [99, 97, 102, 0xE9, 63] ∧
    Charset.latin1.replaced "caf\u00e9\u2713".toList = "caf\u00e9?".toList ∧
    Charset.ascii.replaced "caf\u00e9\u2713".toList = "caf??".toList ∧
    Charset.latin1.encode "tea".toList = Utf8.encode "tea".toList := by
  have latin1 := (texts_in_charsets "caf\u00e9\u2713").2.2.2.1 .latin1 0xFF (by simp)
  have ascii := (texts_in_charsets "caf\u00e9\u2713").2.2.2.1 .ascii 0x7F (by simp)
  have plain := (texts_in_charsets "tea").2.2.2.2 (by simp)
  exact ⟨by decide, latin1.2.2.trans (by decide), ascii.2.2.trans (by decide), plain.2 .latin1⟩

end Ferry.Console.Charset
