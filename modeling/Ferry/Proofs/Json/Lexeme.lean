import Ferry.Proofs.Json.Grammar
import Ferry.Proofs.Text.Numeral

/-!
The texts and numbers of JSON are read as they are written. What follows a text is never looked at;
what follows a number must be nothing that could belong to it. Conversely, whatever is passed over
as a text or a number is one.
-/
namespace Ferry.Json

open Ferry.Text

variable {rest cs : List Char}

/-! ### Texts -/

/-- One unit is read of each sign. -/
theorem textUnits_sign (s : TextSign) (cs : List Char) :
    textUnits (s.chars ++ cs) = (s.unit :: (textUnits cs).1, (textUnits cs).2) := by
  cases s with
  | plain c allowed =>
    obtain ⟨no_control, no_quote, no_backslash⟩ := allowed
    rw [TextSign.chars, List.singleton_append, textUnits, if_neg (by omega)]
    · rfl
    · exact no_quote
    -- none of the forms of an escape
    all_goals
      intros
      exact no_backslash ‹_›
  | letter e c stands =>
    have no_code : e ≠ 'u' := by
      rintro rfl
      cases stands
    simp only [TextSign.chars, List.cons_append, List.nil_append]
    rw [textUnits.eq_6, stands]
    · rfl
    · intros
      exact no_code ‹_›
    · intros
      exact no_code ‹_›
  | code a b c d n digits =>
    simp only [TextSign.chars, List.cons_append, List.nil_append, textUnits, digits, TextSign.unit]

theorem Spelling.chars_cons (s : TextSign) (w : Spelling) :
    Spelling.chars (s :: w) = s.chars ++ w.chars := by
  rw [Spelling.chars, List.flatMap_cons, List.append_assoc, Spelling.chars]

theorem textUnits_spelling (w : Spelling) (rest : List Char) :
    textUnits (w.chars ++ rest) = (w.map TextSign.unit, .ok rest) := by
  induction w with
  | nil => rfl
  | cons s w ih => rw [Spelling.chars_cons, List.append_assoc, textUnits_sign, ih, List.map_cons]

/-- A text is read as it is spelled, from after its opening quote on. -/
theorem readText_spelling (w : Spelling) (rest : List Char) :
    readText (w.chars ++ rest) = (w.value, .ok rest) := by
  rw [readText, textUnits_spelling]
  rfl

/-- What is passed over as a text is spelled. -/
theorem exists_spelling (read : (textUnits cs).2 = .ok rest) :
    ∃ w : Spelling, cs = w.chars ++ rest := by
  fun_induction textUnits cs with
  | case1 => cases read
  | case2 cs =>
    cases read
    exact ⟨[], rfl⟩
  | case3 => cases read
  | case4 a b c d cs n digits ih =>
    obtain ⟨w, rfl⟩ := ih read
    exact ⟨.code a b c d n digits :: w, rfl⟩
  | case5 => cases read
  | case6 => cases read
  | case7 e cs _ _ c stands ih =>
    obtain ⟨w, rfl⟩ := ih read
    exact ⟨.letter e c stands :: w, rfl⟩
  | case8 => cases read
  | case9 => cases read
  | case10 c cs no_quote no_end _ _ no_escape no_control ih =>
    have no_backslash : c ≠ '\\' := by
      rintro rfl
      cases cs with
      | nil => exact no_end rfl rfl
      | cons e cs => exact no_escape e cs rfl rfl
    obtain ⟨w, rfl⟩ := ih read
    exact ⟨.plain c ⟨by omega, no_quote, no_backslash⟩ :: w, rfl⟩

/-! ### Digits -/

theorem Digits.span (ds : Digits) (ends : ∀ c ∈ rest.head?, isDigit c = false) :
    (ds.chars ++ rest).takeWhile isDigit = ds.chars ∧
      (ds.chars ++ rest).dropWhile isDigit = rest :=
  span_digits ds.digits ends

theorem Digits.not_isEmpty (ds : Digits) : ¬ ds.chars.isEmpty = true := by
  rw [List.isEmpty_iff]
  exact ds.some_digit

theorem Digits.exists_cons (ds : Digits) :
    ∃ c cs, ds.chars = c :: cs ∧ isDigit c = true := by
  cases eq : ds.chars with
  | nil => exact absurd eq ds.some_digit
  | cons c cs => exact ⟨c, cs, rfl, ds.digits c (eq ▸ List.mem_cons_self)⟩

/-- The digits at the front of a text. -/
def Digits.leading (cs : List Char) (some_digit : cs.takeWhile isDigit ≠ []) : Digits :=
  ⟨cs.takeWhile isDigit, some_digit, List.all_eq_true.1 List.all_takeWhile⟩

theorem Digits.eq_leading_append (some_digit : cs.takeWhile isDigit ≠ []) :
    cs = (leading cs some_digit).chars ++ cs.dropWhile isDigit :=
  List.takeWhile_append_dropWhile.symm

/-! ### Exponents -/

/-- A text that does not begin with what could belong to a number. -/
def EndsNumber (rest : List Char) : Prop :=
  ∀ c ∈ rest.head?, isDigit c = false ∧ c ≠ '.' ∧ c ≠ 'e' ∧ c ≠ 'E'

variable {negative : Bool} {whole : List Char} {places : Option (List Char)}

/-- The number after the sign of its exponent, as `readExponent` goes on there. -/
def readPower (negative : Bool) (whole : List Char) (places : Option (List Char)) (minus : Bool)
    (cs : List Char) : Except Fault Number × Rest :=
  let digits := cs.takeWhile isDigit
  if digits.isEmpty then lackingDigits cs
  else
    let size : Int := ((readDigits 0 digits).getD 0 : Nat)
    (numberOf negative whole places (some (if minus then -size else size)),
      .ok (cs.dropWhile isDigit))

theorem readPower_digits (ds : Digits) (minus : Bool)
    (ends : ∀ c ∈ rest.head?, isDigit c = false) :
    readPower negative whole places minus (ds.chars ++ rest) =
      (numberOf negative whole places (some (if minus then -ds.value else ds.value)),
        .ok rest) := by
  obtain ⟨own, others⟩ := ds.span ends
  simp only [readPower, own, others, if_neg ds.not_isEmpty, Digits.value]

theorem exists_digits_of_readPower {minus : Bool}
    (read : (readPower negative whole places minus cs).2 = .ok rest) :
    ∃ ds : Digits, cs = ds.chars ++ rest := by
  simp only [readPower] at read
  split at read
  · cases read
  · rename_i some_digit
    obtain rfl := Except.ok.inj read
    rw [List.isEmpty_iff] at some_digit
    exact ⟨_, Digits.eq_leading_append some_digit⟩

/-- The sign of an exponent is told from the digits after it. -/
def ExponentSign.Stands (sign : ExponentSign) (cs : List Char) : Prop :=
  sign = .none → ∀ c ∈ cs.head?, c ≠ '+' ∧ c ≠ '-'

theorem ExponentSign.exists_stands (cs : List Char) :
    ∃ sign : ExponentSign, ∃ ds, cs = sign.chars ++ ds ∧ sign.Stands ds := by
  cases cs with
  | nil => exact ⟨.none, [], rfl, fun _ => nofun⟩
  | cons c cs =>
    by_cases is_plus : c = '+'
    · exact ⟨.plus, cs, by rw [is_plus]; rfl, nofun⟩
    by_cases is_minus : c = '-'
    · exact ⟨.minus, cs, by rw [is_minus]; rfl, nofun⟩
    refine ⟨.none, c :: cs, rfl, fun _ => ?_⟩
    rintro d ⟨⟩
    exact ⟨is_plus, is_minus⟩

theorem readExponent_sign {mark : Char} (isMark : mark = 'e' ∨ mark = 'E') {sign : ExponentSign}
    (stands : sign.Stands cs) : readExponent negative whole places (mark :: (sign.chars ++ cs)) =
      readPower negative whole places sign.isMinus cs := by
  obtain rfl | rfl := isMark
  all_goals
    cases sign with
    | plus => rfl
    | minus => rfl
    | none =>
      simp only [ExponentSign.chars, List.nil_append, readExponent]
      split
      · exact absurd rfl (stands rfl '+' rfl).1
      · exact absurd rfl (stands rfl '-' rfl).2
      · rfl

theorem readExponent_of_ends (ends : EndsNumber rest) :
    readExponent negative whole places rest = (numberOf negative whole places none, .ok rest) := by
  cases rest with
  | nil => rfl
  | cons c rest =>
    obtain ⟨-, -, no_small, no_capital⟩ := ends c rfl
    unfold readExponent
    split
    · rename_i mark
      injection mark with mark
      exact absurd mark no_small
    · rename_i mark
      injection mark with mark
      exact absurd mark no_capital
    · rfl

theorem readExponent_exponent (x : Exponent) (ends : ∀ c ∈ rest.head?, isDigit c = false) :
    readExponent negative whole places (x.chars ++ rest) =
      (numberOf negative whole places (some x.value), .ok rest) := by
  obtain ⟨mark, isMark, sign, digits⟩ := x
  have stands : sign.Stands (digits.chars ++ rest) := by
    obtain ⟨c, cs, eq, digit⟩ := digits.exists_cons
    rw [eq]
    rintro - _ ⟨⟩
    constructor <;> rintro rfl <;> cases digit
  have written : Exponent.chars ⟨mark, isMark, sign, digits⟩ ++ rest =
      mark :: (sign.chars ++ (digits.chars ++ rest)) := by
    simp [Exponent.chars]
  rw [written, readExponent_sign isMark stands, readPower_digits digits _ ends]
  rfl

theorem readExponent_chars (x : Option Exponent) (ends : EndsNumber rest) :
    readExponent negative whole places (Numeral.exponentChars x ++ rest) =
      (numberOf negative whole places (x.map Exponent.value), .ok rest) := by
  cases x with
  | none => exact readExponent_of_ends ends
  | some x => exact readExponent_exponent x fun c mem => (ends c mem).1

/-- What is passed over after the digits is an exponent or nothing. -/
theorem exists_exponent (read : (readExponent negative whole places cs).2 = .ok rest) :
    ∃ x, cs = Numeral.exponentChars x ++ rest := by
  -- by the mark, since the reader looks for a sign only after one
  by_cases marked : ∃ mark after, cs = mark :: after ∧ (mark = 'e' ∨ mark = 'E')
  · obtain ⟨mark, after, rfl, isMark⟩ := marked
    obtain ⟨sign, cs, rfl, stands⟩ := ExponentSign.exists_stands after
    rw [readExponent_sign isMark stands] at read
    obtain ⟨digits, rfl⟩ := exists_digits_of_readPower read
    refine ⟨some ⟨mark, isMark, sign, digits⟩, ?_⟩
    simp [Numeral.exponentChars, Exponent.chars]
  · refine ⟨none, ?_⟩
    unfold readExponent at read
    split at read
    · exact absurd ⟨_, _, rfl, .inl rfl⟩ marked
    · exact absurd ⟨_, _, rfl, .inr rfl⟩ marked
    · exact Except.ok.inj read

/-! ### Numbers -/

theorem head_exponentChars (x : Option Exponent) (ends : EndsNumber rest) :
    ∀ c ∈ (Numeral.exponentChars x ++ rest).head?, isDigit c = false ∧ c ≠ '.' := by
  cases x with
  | none => exact fun c mem => ⟨(ends c mem).1, (ends c mem).2.1⟩
  | some x =>
    rintro _ ⟨⟩
    obtain mark | mark := x.isMark
    all_goals
      rw [mark]
      decide

theorem head_pointChars (places : Option Digits) (x : Option Exponent) (ends : EndsNumber rest) :
    ∀ c ∈ (Numeral.pointChars places ++ (Numeral.exponentChars x ++ rest)).head?,
      isDigit c = false := by
  cases places with
  | none => exact fun c mem => (head_exponentChars x ends c mem).1
  | some ds =>
    rintro _ ⟨⟩
    rfl

/-- The number after its whole digits, as `readMagnitude` goes on there. -/
def readFraction (negative : Bool) (whole rest : List Char) : Except Fault Number × Rest :=
  match rest with
  | '.' :: rest =>
    let places := rest.takeWhile isDigit
    if places.isEmpty then lackingDigits rest
    else readExponent negative whole (some places) (rest.dropWhile isDigit)
  | rest => readExponent negative whole none rest

theorem readFraction_of_no_point (no_point : ∀ c ∈ rest.head?, c ≠ '.') :
    readFraction negative whole rest = readExponent negative whole none rest := by
  unfold readFraction
  split
  · exact absurd rfl (no_point '.' rfl)
  · rfl

theorem readFraction_chars (places : Option Digits) (x : Option Exponent) (ends : EndsNumber rest) :
    readFraction negative whole
        (Numeral.pointChars places ++ (Numeral.exponentChars x ++ rest)) =
      (numberOf negative whole (places.map Digits.chars) (x.map Exponent.value), .ok rest) := by
  have no_more := head_exponentChars x ends
  cases places with
  | none =>
    refine Eq.trans ?_ (readExponent_chars x ends)
    exact readFraction_of_no_point fun c mem => (no_more c mem).2
  | some ds =>
    obtain ⟨own, others⟩ := ds.span fun c mem => (no_more c mem).1
    simp only [Numeral.pointChars, Option.map_some, Option.getD_some, List.cons_append,
      readFraction, own, others, if_neg ds.not_isEmpty]
    exact readExponent_chars x ends

/-- What is passed over after whole digits is a point with digits, an exponent, both or neither. -/
theorem exists_places (read : (readFraction negative whole cs).2 = .ok rest) :
    ∃ places x, cs = Numeral.pointChars places ++ (Numeral.exponentChars x ++ rest) := by
  unfold readFraction at read
  split at read
  · simp only at read
    split at read
    · cases read
    · rename_i after some_digit
      rw [List.isEmpty_iff] at some_digit
      obtain ⟨x, tail⟩ := exists_exponent read
      refine ⟨some (.leading after some_digit), x, congrArg ('.' :: ·) ?_⟩
      rw [← tail]
      exact Digits.eq_leading_append some_digit
  · obtain ⟨x, eq⟩ := exists_exponent read
    exact ⟨none, x, eq⟩

theorem readMagnitude_eq (whole_ne : cs.takeWhile isDigit ≠ [])
    (no_leading_zero : ∀ ds, cs.takeWhile isDigit = '0' :: ds → ds = []) :
    readMagnitude negative cs =
      readFraction negative (cs.takeWhile isDigit) (cs.dropWhile isDigit) := by
  unfold readMagnitude
  simp only
  split
  · exact absurd ‹_› whole_ne
  · cases no_leading_zero _ ‹_›
  · rfl

theorem readNumber_sign (negative : Bool) (no_sign : ∀ c ∈ cs.head?, c ≠ '-') :
    readNumber (Numeral.signChars negative ++ cs) = readMagnitude negative cs := by
  cases negative with
  | true => rfl
  | false =>
    show readNumber cs = _
    unfold readNumber
    split
    · exact absurd rfl (no_sign '-' rfl)
    · rfl

/-- A number is read as it is written. -/
theorem readNumber_chars (n : Numeral) (ends : EndsNumber rest) :
    readNumber (n.chars ++ rest) = (n.value, .ok rest) := by
  obtain ⟨negative, whole, no_leading_zero, places, exponent⟩ := n
  obtain ⟨own, others⟩ := whole.span (head_pointChars places exponent ends)
  have no_sign : ∀ c ∈ (whole.chars ++ (Numeral.pointChars places ++
      (Numeral.exponentChars exponent ++ rest))).head?, c ≠ '-' := by
    obtain ⟨c, cs, eq, digit⟩ := whole.exists_cons
    rw [eq]
    rintro _ ⟨⟩ rfl
    cases digit
  have written : Numeral.chars ⟨negative, whole, no_leading_zero, places, exponent⟩ ++ rest =
      Numeral.signChars negative ++ (whole.chars ++ (Numeral.pointChars places ++
        (Numeral.exponentChars exponent ++ rest))) := by
    simp [Numeral.chars]
  rw [written, readNumber_sign negative no_sign, readMagnitude_eq, own, others,
    readFraction_chars places exponent ends]
  · rfl
  · rw [own]
    exact whole.some_digit
  · rwa [own]

theorem whole_of_readMagnitude (read : (readMagnitude negative cs).2 = .ok rest) :
    cs.takeWhile isDigit ≠ [] ∧ ∀ ds, cs.takeWhile isDigit = '0' :: ds → ds = [] := by
  unfold readMagnitude at read
  simp only at read
  split at read
  · cases read
  · cases read
  · rename_i some_digit no_more
    refine ⟨some_digit, fun ds eq => ?_⟩
    cases ds with
    | nil => rfl
    | cons d ds => exact absurd eq (no_more d ds)

theorem exists_numeral_of_readMagnitude (negative : Bool)
    (read : (readMagnitude negative cs).2 = .ok rest) :
    ∃ n : Numeral, Numeral.signChars negative ++ cs = n.chars ++ rest := by
  obtain ⟨some_digit, no_leading_zero⟩ := whole_of_readMagnitude read
  rw [readMagnitude_eq some_digit no_leading_zero] at read
  obtain ⟨places, exponent, tail⟩ := exists_places read
  refine ⟨⟨negative, .leading cs some_digit, no_leading_zero, places, exponent⟩, ?_⟩
  have eq := Digits.eq_leading_append some_digit
  rw [tail] at eq
  rw [Numeral.chars, List.append_assoc, List.append_assoc, List.append_assoc, ← eq]

/-- What is passed over as a number is one. -/
theorem exists_numeral (read : (readNumber cs).2 = .ok rest) :
    ∃ n : Numeral, cs = n.chars ++ rest := by
  unfold readNumber at read
  split at read
  · exact exists_numeral_of_readMagnitude true read
  · exact exists_numeral_of_readMagnitude false read

end Ferry.Json
