/-!
UTF-8 as lists of bytes. `pieces` divides any byte list into characters and maximal broken
stretches; reading strictly, reading lossily and quoting are all said in terms of it.
-/
namespace Ferry.Utf8

/-- The bytes of a text. -/
def encode (s : List Char) : List UInt8 := s.flatMap String.utf8EncodeChar

/-- The bytes of a string. -/
def bytes (s : String) : List UInt8 := encode s.toList

/-- A text as what stands before its byte `n` and what stands from there; nothing where that byte
is within a character or past the end. -/
def splitAt? : List Char → Nat → Option (List Char × List Char)
  | s, 0 => some ([], s)
  | [], _ + 1 => none
  | c :: s, n + 1 =>
    if c.utf8Size ≤ n + 1 then
      (splitAt? s (n + 1 - c.utf8Size)).map fun (front, back) => (c :: front, back)
    else none

theorem encode_append (s t : List Char) : encode (s ++ t) = encode s ++ encode t :=
  List.flatMap_append

theorem length_encode_cons (c : Char) (s : List Char) :
    (encode (c :: s)).length = c.utf8Size + (encode s).length := by
  rw [encode, List.flatMap_cons, List.length_append, String.length_utf8EncodeChar, encode]

theorem length_encode_of_one_byte {s : List Char} (one_byte : ∀ c ∈ s, c.utf8Size = 1) :
    (encode s).length = s.length := by
  induction s with
  | nil => rfl
  | cons c s ih =>
    rw [length_encode_cons, one_byte c List.mem_cons_self,
      ih fun d mem => one_byte d (List.mem_cons_of_mem c mem), List.length_cons, Nat.add_comm]

theorem splitAt?_cons (c : Char) (s : List Char) (n : Nat) : splitAt? (c :: s) (c.utf8Size + n) =
    (splitAt? s n).map fun (front, back) => (c :: front, back) := by
  have some_byte := c.utf8Size_pos
  have positive : c.utf8Size + n = (c.utf8Size + n - 1) + 1 := by omega
  have rest : c.utf8Size + n - 1 + 1 - c.utf8Size = n := by omega
  rw [positive, splitAt?, if_pos (by omega), rest]

theorem splitAt?_append (front back : List Char) :
    splitAt? (front ++ back) (encode front).length = some (front, back) := by
  induction front with
  | nil => exact splitAt?.eq_1 back
  | cons c front ih =>
    rw [List.cons_append, length_encode_cons, splitAt?_cons, ih]
    rfl

theorem eq_append_of_splitAt? {s front back : List Char} {n : Nat}
    (split : splitAt? s n = some (front, back)) :
    s = front ++ back ∧ (encode front).length = n := by
  fun_induction splitAt? s n generalizing front with
  | case1 s =>
    obtain ⟨rfl, rfl⟩ := Prod.mk.inj (Option.some.inj split)
    exact ⟨rfl, rfl⟩
  | case2 n => cases split
  | case3 c s n fits ih =>
    obtain ⟨⟨front, back⟩, inner, eq⟩ := Option.map_eq_some_iff.1 split
    obtain ⟨rfl, rfl⟩ := Prod.mk.inj eq
    obtain ⟨rfl, length⟩ := ih inner
    refine ⟨rfl, ?_⟩
    rw [length_encode_cons]
    omega
  | case4 c s n short => cases split

theorem splitAt?_eq_some_iff {s front back : List Char} {n : Nat} :
    splitAt? s n = some (front, back) ↔ s = front ++ back ∧ (encode front).length = n := by
  refine ⟨eq_append_of_splitAt?, ?_⟩
  rintro ⟨rfl, rfl⟩
  exact splitAt?_append front back

/-- What a first byte announces: how many bytes follow, the range of the first of them, and the
bits of the code point that it carries itself. -/
structure Lead where
  tails : Nat
  low : UInt8
  high : UInt8
  bits : Nat

/-- The announcement of a first byte; nothing where no character starts with it. -/
def lead? (b : UInt8) : Option Lead :=
  if b ≤ 0x7F then some ⟨0, 0x80, 0xBF, b.toNat⟩
  else if 0xC2 ≤ b && b ≤ 0xDF then some ⟨1, 0x80, 0xBF, b.toNat - 0xC0⟩
  else if b = 0xE0 then some ⟨2, 0xA0, 0xBF, 0⟩
  else if b = 0xED then some ⟨2, 0x80, 0x9F, 0xD⟩
  else if 0xE1 ≤ b && b ≤ 0xEF then some ⟨2, 0x80, 0xBF, b.toNat - 0xE0⟩
  else if b = 0xF0 then some ⟨3, 0x90, 0xBF, 0⟩
  else if 0xF1 ≤ b && b ≤ 0xF3 then some ⟨3, 0x80, 0xBF, b.toNat - 0xF0⟩
  else if b = 0xF4 then some ⟨3, 0x80, 0x8F, 4⟩
  else none

/-- Up to `n` continuation bytes at the front of a list, the first of them in `[low, high]`. -/
def tails : Nat → UInt8 → UInt8 → List UInt8 → List UInt8
  | n + 1, low, high, b :: rest =>
    if low ≤ b && b ≤ high then b :: tails n 0x80 0xBF rest else []
  | _, _, _, _ => []

/-- A character, or the longest start of one that is cut short (a single byte where none starts). -/
inductive Piece
  | char (c : Char)
  | broken (bytes : List UInt8)
deriving DecidableEq, Repr

/-- The code point of a first byte's bits and its continuation bytes. -/
def codePoint (bits : Nat) (tail : List UInt8) : Nat :=
  tail.foldl (fun n b => 64 * n + (b.toNat - 0x80)) bits

/-- A byte list as characters and broken stretches, from left to right. -/
def pieces : List UInt8 → List Piece
  | [] => []
  | b :: rest =>
    match lead? b with
    | none => .broken [b] :: pieces rest
    | some lead =>
      let tail := tails lead.tails lead.low lead.high rest
      let piece := if tail.length = lead.tails then .char (Char.ofNat (codePoint lead.bits tail))
        else .broken (b :: tail)
      piece :: pieces (rest.drop tail.length)
termination_by bs => bs.length
decreasing_by all_goals simp_wf; try omega

/-- The text of a byte list that holds nothing broken. -/
def decode? (bs : List UInt8) : Option (List Char) :=
  (pieces bs).mapM fun
    | .char c => some c
    | .broken _ => none

/-- The string of a byte list that holds nothing broken. -/
def string? (bs : List UInt8) : Option String := (decode? bs).map String.ofList

/-- The text of any byte list, with U+FFFD in place of each broken stretch. -/
def lossy (bs : List UInt8) : String :=
  String.ofList ((pieces bs).map fun
    | .char c => c
    | .broken _ => '\uFFFD')

end Ferry.Utf8
