import Ferry.Text.Utf8

/-!
Text written in UTF-8 is read again. A character's first byte announces how many bytes follow it,
and the ranges that the announcement gives for the first of them leave out just what no character is
written as; `pieces_encodeChar` is one character before any bytes, and the text follows by
induction.
-/
namespace Ferry.Utf8

/-- A byte that follows the first one of a character, with the last six bits of a number. -/
def following (n : Nat) : UInt8 := UInt8.ofNat (n % 64 + 128)

theorem toNat_following (n : Nat) : (following n).toNat = n % 64 + 128 := by
  rw [following, UInt8.toNat_ofNat_of_lt']
  have : n % 64 < 64 := Nat.mod_lt _ (by decide)
  show n % 64 + 128 < 256
  omega

theorem tails_zero (low high : UInt8) (bs : List UInt8) : tails 0 low high bs = [] := by
  rw [tails]
  exact nofun

/-- A byte that follows, in the range that an announcement gives for it. -/
theorem tails_within {n m : Nat} {low high : UInt8} (at_least : low.toNat ≤ m % 64 + 128)
    (at_most : m % 64 + 128 ≤ high.toNat) (rest : List UInt8) :
    tails (n + 1) low high (following m :: rest) = following m :: tails n 0x80 0xBF rest := by
  rw [← toNat_following] at at_least at_most
  have inside : (decide (low ≤ following m) && decide (following m ≤ high)) = true := by
    simpa [UInt8.le_iff_toNat_le] using ⟨at_least, at_most⟩
  rw [tails, if_pos inside]

theorem tails_following (n m : Nat) (rest : List UInt8) :
    tails (n + 1) 0x80 0xBF (following m :: rest) =
      following m :: tails n 0x80 0xBF rest := by
  have : m % 64 < 64 := Nat.mod_lt _ (by decide)
  refine tails_within (Nat.le_add_left _ _) ?_ rest
  show m % 64 + 128 ≤ 191
  omega

/-- A character whose first byte announces the bytes that do follow. -/
theorem pieces_of_lead? {b : UInt8} {lead : Lead} (leads : lead? b = some lead)
    (tail rest : List UInt8)
    (follow : tails lead.tails lead.low lead.high (tail ++ rest) = tail)
    (whole : tail.length = lead.tails) :
    pieces (b :: (tail ++ rest)) =
      .char (Char.ofNat (codePoint lead.bits tail)) :: pieces rest := by
  rw [pieces, leads]
  simp only [follow, if_pos whole, List.drop_left]

/-! What the first bytes of characters announce, by the number of bytes. -/

section
variable {n : Nat}

/-- The announcement of a byte, by its number. -/
theorem lead?_ofNat (byte : n < 256) : lead? (UInt8.ofNat n) =
    if n ≤ 0x7F then some ⟨0, 0x80, 0xBF, n⟩
    else if 0xC2 ≤ n ∧ n ≤ 0xDF then some ⟨1, 0x80, 0xBF, n - 0xC0⟩
    else if n = 0xE0 then some ⟨2, 0xA0, 0xBF, 0⟩
    else if n = 0xED then some ⟨2, 0x80, 0x9F, 0xD⟩
    else if 0xE1 ≤ n ∧ n ≤ 0xEF then some ⟨2, 0x80, 0xBF, n - 0xE0⟩
    else if n = 0xF0 then some ⟨3, 0x90, 0xBF, 0⟩
    else if 0xF1 ≤ n ∧ n ≤ 0xF3 then some ⟨3, 0x80, 0xBF, n - 0xF0⟩
    else if n = 0xF4 then some ⟨3, 0x80, 0x8F, 4⟩
    else none := by
  have toNat_eq : (UInt8.ofNat n).toNat = n := UInt8.toNat_ofNat_of_lt' byte
  simp only [lead?, UInt8.le_iff_toNat_le, ← UInt8.toNat_inj, toNat_eq, Bool.and_eq_true,
    decide_eq_true_eq]
  rfl

theorem lead?_one (one : n ≤ 0x7F) : lead? (UInt8.ofNat n) = some ⟨0, 0x80, 0xBF, n⟩ := by
  rw [lead?_ofNat (by omega), if_pos one]

theorem lead?_two (low : 0xC2 ≤ n) (high : n ≤ 0xDF) :
    lead? (UInt8.ofNat n) = some ⟨1, 0x80, 0xBF, n - 0xC0⟩ := by
  rw [lead?_ofNat (by omega), if_neg (by omega), if_pos ⟨low, high⟩]

theorem lead?_three (low : 0xE0 ≤ n) (high : n ≤ 0xEF) :
    lead? (UInt8.ofNat n) =
      some ⟨2, if n = 0xE0 then 0xA0 else 0x80, if n = 0xED then 0x9F else 0xBF, n - 0xE0⟩ := by
  rw [lead?_ofNat (by omega), if_neg (by omega), if_neg (by omega)]
  split
  · subst n
    rfl
  · split
    · subst n
      rfl
    · rw [if_pos (by omega)]

theorem lead?_four (low : 0xF0 ≤ n) (high : n ≤ 0xF4) :
    lead? (UInt8.ofNat n) =
      some ⟨3, if n = 0xF0 then 0x90 else 0x80, if n = 0xF4 then 0x8F else 0xBF, n - 0xF0⟩ := by
  rw [lead?_ofNat (by omega), if_neg (by omega), if_neg (by omega), if_neg (by omega),
    if_neg (by omega), if_neg (by omega)]
  split
  · subst n
    rfl
  · split
    · rw [if_neg (by omega)]
    · rw [if_pos (by omega)]
      have : n = 0xF4 := by omega
      subst this
      rfl

end

theorem codePoint_cons (bits m : Nat) (tail : List UInt8) :
    codePoint bits (following m :: tail) = codePoint (64 * bits + m % 64) tail := by
  rw [codePoint, List.foldl_cons, toNat_following, Nat.add_sub_cancel, ← codePoint]

theorem codePoint_nil (bits : Nat) : codePoint bits [] = bits := rfl

/-! Characters by the number of their bytes, before any others. The number `n` is that of the
character. -/

section
variable {n : Nat}

theorem pieces_one (one : n ≤ 0x7F) (rest : List UInt8) :
    pieces (UInt8.ofNat n :: rest) = .char (Char.ofNat n) :: pieces rest :=
  pieces_of_lead? (lead?_one one) [] rest rfl rfl

theorem pieces_two (low : 0x7F < n) (high : n ≤ 0x7FF) (rest : List UInt8) :
    pieces (UInt8.ofNat (n / 64 % 32 + 0xC0) :: following n :: rest) =
      .char (Char.ofNat n) :: pieces rest := by
  have leads := lead?_two (n := n / 64 % 32 + 0xC0) (by omega) (by omega)
  have follow : tails 1 0x80 0xBF (following n :: rest) = [following n] := by
    rw [tails_following, tails_zero]
  have number : 64 * (n / 64 % 32 + 0xC0 - 0xC0) + n % 64 = n := by omega
  refine (pieces_of_lead? leads [following n] rest follow rfl).trans ?_
  rw [codePoint_cons, codePoint_nil, number]

theorem pieces_three (low : 0x7FF < n) (high : n ≤ 0xFFFF)
    (no_surrogate : n < 0xD800 ∨ 0xDFFF < n) (rest : List UInt8) :
    pieces (UInt8.ofNat (n / 4096 % 16 + 0xE0) :: following (n / 64) :: following n :: rest) =
      .char (Char.ofNat n) :: pieces rest := by
  have leads := lead?_three (n := n / 4096 % 16 + 0xE0) (by omega) (by omega)
  -- the range of the second byte leaves out numbers of fewer bytes, and the surrogates
  have follow : tails 2 (if n / 4096 % 16 + 0xE0 = 0xE0 then 0xA0 else 0x80)
      (if n / 4096 % 16 + 0xE0 = 0xED then 0x9F else 0xBF)
      (following (n / 64) :: following n :: rest) = [following (n / 64), following n] := by
    rw [tails_within, tails_following, tails_zero]
    · split
      · show 0xA0 ≤ _
        omega
      · show 0x80 ≤ _
        omega
    · split
      · show _ ≤ 0x9F
        omega
      · show _ ≤ 0xBF
        omega
  have number : 64 * (64 * (n / 4096 % 16 + 0xE0 - 0xE0) + n / 64 % 64) + n % 64 = n := by omega
  refine (pieces_of_lead? leads [following (n / 64), following n] rest follow rfl).trans ?_
  rw [codePoint_cons, codePoint_cons, codePoint_nil, number]

theorem pieces_four (low : 0xFFFF < n) (high : n < 0x110000) (rest : List UInt8) :
    pieces (UInt8.ofNat (n / 262144 % 8 + 0xF0) :: following (n / 4096) :: following (n / 64) ::
        following n :: rest) =
      .char (Char.ofNat n) :: pieces rest := by
  have leads := lead?_four (n := n / 262144 % 8 + 0xF0) (by omega) (by omega)
  -- the range of the second byte leaves out numbers of fewer bytes, and those beyond the last
  have follow : tails 3 (if n / 262144 % 8 + 0xF0 = 0xF0 then 0x90 else 0x80)
      (if n / 262144 % 8 + 0xF0 = 0xF4 then 0x8F else 0xBF)
      (following (n / 4096) :: following (n / 64) :: following n :: rest) =
        [following (n / 4096), following (n / 64), following n] := by
    rw [tails_within, tails_following, tails_following, tails_zero]
    · split
      · show 0x90 ≤ _
        omega
      · show 0x80 ≤ _
        omega
    · split
      · show _ ≤ 0x8F
        omega
      · show _ ≤ 0xBF
        omega
  have number : 64 * (64 * (64 * (n / 262144 % 8 + 0xF0 - 0xF0) + n / 4096 % 64) + n / 64 % 64) +
      n % 64 = n := by omega
  refine (pieces_of_lead? leads [following (n / 4096), following (n / 64), following n] rest follow
    rfl).trans ?_
  rw [codePoint_cons, codePoint_cons, codePoint_cons, codePoint_nil, number]

end

/-- A character is read where it is written, whatever follows. -/
theorem pieces_encodeChar (c : Char) (rest : List UInt8) :
    pieces (String.utf8EncodeChar c ++ rest) = .char c :: pieces rest := by
  obtain ⟨no_surrogate, in_range⟩ : (c.toNat < 0xD800 ∨ 0xDFFF < c.toNat) ∧ c.toNat < 0x110000 := by
    rcases c.valid with low | ⟨high, top⟩
    · exact ⟨.inl low, Nat.lt_trans low (by decide)⟩
    · exact ⟨.inr high, top⟩
  have written := String.utf8EncodeChar.eq_1 c
  have read : Char.ofNat c.toNat = c := Char.ofNat_toNat c
  conv => rhs; rw [← read]
  rw [written]
  change pieces ((if c.toNat ≤ 0x7F then _ else _) ++ rest) = _
  split
  · rename_i one
    exact pieces_one one rest
  · split
    · rename_i more two
      exact pieces_two (Nat.lt_of_not_le more) two rest
    · split
      · rename_i more three
        exact pieces_three (Nat.lt_of_not_le more) three no_surrogate rest
      · rename_i more
        exact pieces_four (Nat.lt_of_not_le more) in_range rest

theorem pieces_encode (s : List Char) : pieces (encode s) = s.map .char := by
  induction s with
  | nil => rw [encode, List.flatMap_nil, pieces, List.map_nil]
  | cons c s ih =>
    rw [encode, List.flatMap_cons, ← encode, pieces_encodeChar, ih, List.map_cons]

/-- Text written in UTF-8 is read again. -/
theorem decode?_encode (s : List Char) : decode? (encode s) = some s := by
  rw [decode?, pieces_encode]
  induction s with
  | nil => rfl
  | cons c s ih =>
    rw [List.map_cons, List.mapM_cons, ih]
    rfl

end Ferry.Utf8
