import Ferry.Text.Cut

/-! White space: the characters with the Unicode property White_Space. -/
namespace Ferry.Text

/-- The characters of Unicode's White_Space. -/
def isBlank (c : Char) : Bool :=
  let n := c.toNat
  (9 ≤ n && n ≤ 13) || n = 0x20 || n = 0x85 || n = 0xA0 || n = 0x1680
    || (0x2000 ≤ n && n ≤ 0x200A) || n = 0x2028 || n = 0x2029 || n = 0x202F
    || n = 0x205F || n = 0x3000

/-- The text without white space at its two ends. -/
def trimBlanks (s : List Char) : List Char := trimBoth isBlank s

/-- A to Z in small letters, every other character as it is. -/
def lowerAscii (s : List Char) : List Char := s.map Char.toLower

theorem toNat_toLower (c : Char) :
    c.toLower.toNat = if 65 ≤ c.toNat ∧ c.toNat ≤ 90 then c.toNat + 32 else c.toNat := by
  have bounds : (c.val ≥ 'A'.val ∧ c.val ≤ 'Z'.val) ↔ 65 ≤ c.toNat ∧ c.toNat ≤ 90 := Iff.rfl
  unfold Char.toLower
  split
  · rename_i upper
    obtain ⟨lower, above⟩ := bounds.1 upper
    rw [if_pos (bounds.1 upper)]
    show (c.val + 32).toNat = _
    rw [UInt32.toNat_add]
    have : c.val.toNat = c.toNat := rfl
    have : (32 : UInt32).toNat = 32 := rfl
    omega
  · rename_i other
    rw [if_neg (mt bounds.2 other)]

theorem isBlank_toLower (c : Char) : isBlank c.toLower = isBlank c := by
  unfold isBlank
  rw [toNat_toLower]
  split
  · rename_i upper
    obtain ⟨lower, above⟩ := upper
    rw [Bool.eq_iff_iff]
    simp
    omega
  · rfl

theorem trimBlanks_lowerAscii (s : List Char) :
    trimBlanks (lowerAscii s) = lowerAscii (trimBlanks s) := by
  have same : isBlank ∘ Char.toLower = isBlank := funext isBlank_toLower
  rw [trimBlanks, lowerAscii, trimBoth_map, same]
  rfl

end Ferry.Text
