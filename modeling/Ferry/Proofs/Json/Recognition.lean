import Ferry.Proofs.Json.Lexeme

/-!
What the reader takes to the end of a text is exactly the grammar. A tree is read as what it means,
whatever may follow it (`readValue_tree`); conversely the reader leaves off where a tree ends
(`exists_tree`). So the texts with one value and nothing after it are those of documents
(`Reading.after_eq_none_iff`).
-/
namespace Ferry.Json

open Ferry.Text

variable {fuel : Nat} {c : Char} {cs rest : List Char}

/-! ### Space -/

@[simp] theorem skipSpace_cons (no_space : isSpace c = false) : skipSpace (c :: cs) = c :: cs :=
  List.dropWhile_cons_of_neg (by simp [no_space])

theorem skipSpace_append (s : Space) (cs : List Char) :
    skipSpace (s.chars ++ cs) = skipSpace cs :=
  List.dropWhile_append_of_pos s.blank

/-- The space at the front of a text. -/
def Space.leading (cs : List Char) : Space :=
  ⟨cs.takeWhile isSpace, List.all_eq_true.1 List.all_takeWhile⟩

theorem Space.eq_leading_append (cs : List Char) : cs = (leading cs).chars ++ skipSpace cs :=
  List.takeWhile_append_dropWhile.symm

theorem readValue_space (s : Space) (cs : List Char) :
    readValue fuel (s.chars ++ cs) = readValue fuel cs := by
  cases fuel with
  | zero => rfl
  | succ fuel => simp only [readValue, skipSpace_append]

theorem readItems_space (s : Space) (cs : List Char) :
    readItems fuel (s.chars ++ cs) = readItems fuel cs := by
  cases fuel with
  | zero => rfl
  | succ fuel => simp only [readItems, readValue_space]

theorem readMembers_space (s : Space) (cs : List Char) :
    readMembers fuel (s.chars ++ cs) = readMembers fuel cs := by
  cases fuel with
  | zero => rfl
  | succ fuel => simp only [readMembers, skipSpace_append]

theorem readItems_skipSpace (cs : List Char) :
    readItems fuel (skipSpace cs) = readItems fuel cs := by
  rw [← readItems_space (.leading cs), ← Space.eq_leading_append]

theorem readMembers_skipSpace (cs : List Char) :
    readMembers fuel (skipSpace cs) = readMembers fuel cs := by
  rw [← readMembers_space (.leading cs), ← Space.eq_leading_append]

/-! ### What a number ends at -/

theorem endsNumber_nil : EndsNumber [] := nofun

theorem endsNumber_cons (no_digit : isDigit c = false) (no_mark : c ≠ '.' ∧ c ≠ 'e' ∧ c ≠ 'E') :
    EndsNumber (c :: cs) := by
  rintro d ⟨⟩
  exact ⟨no_digit, no_mark⟩

theorem endsNumber_space (s : Space) (ends : EndsNumber cs) : EndsNumber (s.chars ++ cs) := by
  obtain ⟨chars, blank⟩ := s
  cases chars with
  | nil => exact ends
  | cons c cs =>
    have space : isSpace c = true := blank c List.mem_cons_self
    simp only [isSpace, Bool.or_eq_true, decide_eq_true_eq] at space
    refine endsNumber_cons ?_ ?_
    all_goals
      obtain ((rfl | rfl) | rfl) | rfl := space
      all_goals decide

/-! ### What a value begins with -/

/-- A number begins with a minus sign or a digit. -/
def OpensNumber (c : Char) : Prop := c = '-' ∨ isDigit c = true

theorem OpensNumber.ne (opens : OpensNumber c) {d : Char}
    (other : (d = '-' || isDigit d) = false) : c ≠ d := by
  rintro rfl
  rw [Bool.or_eq_false_iff, decide_eq_false_iff_not] at other
  obtain minus | digit := opens
  · exact other.1 minus
  · rw [digit] at other
    cases other.2

theorem OpensNumber.no_space (opens : OpensNumber c) : isSpace c = false := by
  simp [isSpace, opens.ne (d := ' ') rfl, opens.ne (d := '\n') rfl, opens.ne (d := '\t') rfl,
    opens.ne (d := '\r') rfl]

theorem Numeral.exists_cons (n : Numeral) : ∃ c cs, n.chars = c :: cs ∧ OpensNumber c := by
  obtain ⟨negative, whole, -, places, exponent⟩ := n
  obtain ⟨c, cs, eq, digit⟩ := whole.exists_cons
  cases negative with
  | true => exact ⟨'-', _, rfl, .inl rfl⟩
  | false => exact ⟨c, _, by rw [Numeral.chars, eq]; rfl, .inr digit⟩

/-- A value begins with a sign of its own. -/
theorem Tree.exists_cons : ∀ t : Tree, ∃ c cs, t.chars = c :: cs ∧ isSpace c = false ∧ c ≠ ']'
  | .null | .boolean true | .boolean false | .string _ | .array _ _ | .object _ _ =>
    ⟨_, _, rfl, rfl, by decide⟩
  | .number n => by
    obtain ⟨c, cs, eq, opens⟩ := n.exists_cons
    exact ⟨c, cs, eq, opens.no_space, opens.ne rfl⟩

/-! ### Reading a value that is written -/

theorem readValue_number (opens : OpensNumber c) :
    readValue (fuel + 1) (c :: cs) =
      (.number (readNumber (c :: cs)).1, (readNumber (c :: cs)).2) := by
  have sign : (c = '-' || isDigit c) = true := by simpa [OpensNumber] using opens
  unfold readValue
  rw [skipSpace_cons opens.no_space]
  split
  · contradiction
  iterate 6 rename_i eq; injection eq with eq; exact absurd eq (opens.ne rfl)
  rename_i eq
  injection eq with head tail
  rw [← head, ← tail, if_pos sign]

theorem readValue_text :
    readValue (fuel + 1) ('"' :: cs) = (.string (readText cs).1, (readText cs).2) := rfl

section Inside

variable {after inside more : List Char}

theorem readValue_array (begins : skipSpace cs = c :: inside) (no_end : c ≠ ']')
    {items : List Draft} (read : readItems fuel cs = (items, .ok rest)) :
    readValue (fuel + 1) ('[' :: cs) = (.array items none, .ok rest) := by
  have open_sign : skipSpace ('[' :: cs) = '[' :: cs := rfl
  rw [← readItems_skipSpace, begins] at read
  unfold readValue
  rw [open_sign]
  simp only [begins]
  split
  · contradiction
  · rename_i eq
    injection eq with eq
    exact absurd eq no_end
  · rw [read]
    rfl

theorem readValue_object (begins : skipSpace cs = '"' :: inside)
    {members : List (Except Fault String × Draft)}
    (read : readMembers fuel cs = (members, .ok rest)) :
    readValue (fuel + 1) ('\x7b' :: cs) = (.object members none, .ok rest) := by
  have open_sign : skipSpace ('\x7b' :: cs) = '\x7b' :: cs := rfl
  rw [← readMembers_skipSpace, begins] at read
  unfold readValue
  rw [open_sign]
  simp only [begins]
  show (Draft.object (readMembers fuel ('"' :: inside)).1
    (Draft.faultOf (readMembers fuel ('"' :: inside)).2), (readMembers fuel ('"' :: inside)).2) = _
  rw [read]
  rfl

theorem readValue_empty_array (ends : skipSpace cs = ']' :: rest) :
    readValue (fuel + 1) ('[' :: cs) = (.array [] none, .ok rest) := by
  have open_sign : skipSpace ('[' :: cs) = '[' :: cs := rfl
  unfold readValue
  rw [open_sign]
  simp only [ends]
  rfl

theorem readValue_empty_object (ends : skipSpace cs = '\x7d' :: rest) :
    readValue (fuel + 1) ('\x7b' :: cs) = (.object [] none, .ok rest) := by
  have open_sign : skipSpace ('\x7b' :: cs) = '\x7b' :: cs := rfl
  unfold readValue
  rw [open_sign]
  simp only [ends]
  rfl

theorem readItems_last {d : Draft} (read : readValue fuel cs = (d, .ok after))
    (ends : skipSpace after = ']' :: rest) : readItems (fuel + 1) cs = ([d], .ok rest) := by
  simp only [readItems, read, ends]

theorem readItems_more {d : Draft} {ds : List Draft} (read : readValue fuel cs = (d, .ok after))
    (goes_on : skipSpace after = ',' :: more) (read_more : readItems fuel more = (ds, .ok rest)) :
    readItems (fuel + 1) cs = (d :: ds, .ok rest) := by
  simp only [readItems, read, goes_on, read_more]

variable {name : Except Fault String} {d : Draft} {named value : List Char}

theorem readMembers_last (begins : skipSpace cs = '"' :: inside)
    (read_name : readText inside = (name, .ok named)) (colon : skipSpace named = ':' :: value)
    (read : readValue fuel value = (d, .ok after)) (ends : skipSpace after = '\x7d' :: rest) :
    readMembers (fuel + 1) cs = ([(name, d)], .ok rest) := by
  simp only [readMembers, begins, read_name, colon, read, ends]

theorem readMembers_more {ms : List (Except Fault String × Draft)}
    (begins : skipSpace cs = '"' :: inside)
    (read_name : readText inside = (name, .ok named)) (colon : skipSpace named = ':' :: value)
    (read : readValue fuel value = (d, .ok after)) (goes_on : skipSpace after = ',' :: more)
    (read_more : readMembers fuel more = (ms, .ok rest)) :
    readMembers (fuel + 1) cs = ((name, d) :: ms, .ok rest) := by
  simp only [readMembers, begins, read_name, colon, read, goes_on, read_more]

end Inside

theorem skipSpace_tree (before : Space) (t : Tree) (cs : List Char) :
    ∃ c inside, skipSpace (before.chars ++ (t.chars ++ cs)) = c :: inside ∧ c ≠ ']' := by
  obtain ⟨c, inside, eq, no_space, no_end⟩ := t.exists_cons
  refine ⟨c, inside ++ cs, ?_, no_end⟩
  rw [skipSpace_append, eq, List.cons_append, skipSpace_cons no_space]

/-- The items of a list begin with the sign of the first, after space. -/
theorem skipSpace_itemChars : ∀ ps : List (Padded Tree), ps ≠ [] → ∀ cs,
    ∃ c inside, skipSpace (Tree.itemChars ps ++ cs) = c :: inside ∧ c ≠ ']'
  | [], ne, _ => absurd rfl ne
  | [⟨before, t, after⟩], _, cs => by
    simpa only [Tree.itemChars, List.append_assoc] using skipSpace_tree before t _
  | ⟨before, t, after⟩ :: q :: qs, _, cs => by
    simpa only [Tree.itemChars, List.append_assoc] using skipSpace_tree before t _

theorem skipSpace_memberChars : ∀ ms : List (Labelled Tree), ms ≠ [] → ∀ cs,
    ∃ inside, skipSpace (Tree.memberChars ms ++ cs) = '"' :: inside
  | [], ne, _ => absurd rfl ne
  | [⟨start, _, _, _, _, _⟩], _, cs => by
    rw [Tree.memberChars, List.append_assoc, skipSpace_append]
    exact ⟨_, rfl⟩
  | ⟨start, _, _, _, _, _⟩ :: n :: ns, _, cs => by
    rw [Tree.memberChars, List.append_assoc, skipSpace_append]
    exact ⟨_, rfl⟩

-- The steps are bounded by twice the length of what is written: a list takes one for itself and one
-- for each item, and has brackets and commas to pay for them.
mutual
theorem readValue_tree : ∀ (t : Tree) (fuel : Nat) (rest : List Char),
    2 * t.chars.length + 1 ≤ fuel → EndsNumber rest →
      readValue fuel (t.chars ++ rest) = (t.draft, .ok rest)
  | _, 0, _, enough, _ => by omega
  | .null, fuel + 1, rest, _, _ => by rfl
  | .boolean true, fuel + 1, rest, _, _ => by rfl
  | .boolean false, fuel + 1, rest, _, _ => by rfl
  | .number n, fuel + 1, rest, _, ends => by
    obtain ⟨c, cs, eq, opens⟩ := n.exists_cons
    have read := readNumber_chars n ends
    rw [eq, List.cons_append] at read
    rw [Tree.chars, eq, List.cons_append, readValue_number opens, read]
    rfl
  | .string w, fuel + 1, rest, _, _ => by
    rw [Tree.chars, List.cons_append, readValue_text, readText_spelling]
    rfl
  | .array space [], fuel + 1, rest, _, _ => by
    rw [Tree.chars, List.cons_append, List.append_assoc]
    exact readValue_empty_array (skipSpace_append space _)
  | .array space (p :: ps), fuel + 1, rest, enough, _ => by
    simp only [Tree.chars, List.length_cons, List.length_append] at enough
    have items := readItems_tree (p :: ps) nofun fuel rest (by omega)
    obtain ⟨c, inside, begins, no_end⟩ := skipSpace_itemChars (p :: ps) nofun (']' :: rest)
    rw [← readItems_space space] at items
    rw [← skipSpace_append space] at begins
    rw [Tree.chars, List.cons_append, List.append_assoc, List.append_assoc]
    exact readValue_array begins no_end items
  | .object space [], fuel + 1, rest, _, _ => by
    rw [Tree.chars, List.cons_append, List.append_assoc]
    exact readValue_empty_object (skipSpace_append space _)
  | .object space (m :: ms), fuel + 1, rest, enough, _ => by
    simp only [Tree.chars, List.length_cons, List.length_append] at enough
    have members := readMembers_tree (m :: ms) nofun fuel rest (by omega)
    obtain ⟨inside, begins⟩ := skipSpace_memberChars (m :: ms) nofun ('\x7d' :: rest)
    rw [← readMembers_space space] at members
    rw [← skipSpace_append space] at begins
    rw [Tree.chars, List.cons_append, List.append_assoc, List.append_assoc]
    exact readValue_object begins members

theorem readItems_tree : ∀ ps : List (Padded Tree), ps ≠ [] →
    ∀ (fuel : Nat) (rest : List Char), 2 * (Tree.itemChars ps).length + 2 ≤ fuel →
      readItems fuel (Tree.itemChars ps ++ ']' :: rest) = (Tree.itemDrafts ps, .ok rest)
  | [], ne, _, _, _ => absurd rfl ne
  | _, _, 0, _, enough => by omega
  | [⟨before, t, after⟩], _, fuel + 1, rest, enough => by
    simp only [Tree.itemChars, List.length_append] at enough
    have ends : EndsNumber (after.chars ++ ']' :: rest) :=
      endsNumber_space after (endsNumber_cons rfl (by decide))
    simp only [Tree.itemChars, List.append_assoc, readItems_space]
    exact readItems_last (readValue_tree t fuel _ (by omega) ends) (skipSpace_append after _)
  | ⟨before, t, after⟩ :: q :: qs, _, fuel + 1, rest, enough => by
    simp only [Tree.itemChars, List.length_append, List.length_cons] at enough
    have ends : EndsNumber (after.chars ++ ',' :: (Tree.itemChars (q :: qs) ++ ']' :: rest)) :=
      endsNumber_space after (endsNumber_cons rfl (by decide))
    simp only [Tree.itemChars, List.append_assoc, List.cons_append, readItems_space]
    exact readItems_more (readValue_tree t fuel _ (by omega) ends) (skipSpace_append after _)
      (readItems_tree (q :: qs) nofun fuel rest (by omega))

theorem readMembers_tree : ∀ ms : List (Labelled Tree), ms ≠ [] →
    ∀ (fuel : Nat) (rest : List Char), 2 * (Tree.memberChars ms).length + 2 ≤ fuel →
      readMembers fuel (Tree.memberChars ms ++ '\x7d' :: rest) = (Tree.memberDrafts ms, .ok rest)
  | [], ne, _, _, _ => absurd rfl ne
  | _, _, 0, _, enough => by omega
  | [⟨start, name, between, before, t, after⟩], _, fuel + 1, rest, enough => by
    simp only [Tree.memberChars, List.length_append, List.length_cons] at enough
    have ends : EndsNumber (after.chars ++ '\x7d' :: rest) :=
      endsNumber_space after (endsNumber_cons rfl (by decide))
    have read := readValue_tree t fuel _ (by omega) ends
    rw [← readValue_space before] at read
    simp only [Tree.memberChars, List.append_assoc, List.cons_append]
    exact readMembers_last (skipSpace_append start _) (readText_spelling name _)
      (skipSpace_append between _) read (skipSpace_append after _)
  | ⟨start, name, between, before, t, after⟩ :: n :: ns, _, fuel + 1, rest, enough => by
    simp only [Tree.memberChars, List.length_append, List.length_cons] at enough
    have ends : EndsNumber
        (after.chars ++ ',' :: (Tree.memberChars (n :: ns) ++ '\x7d' :: rest)) :=
      endsNumber_space after (endsNumber_cons rfl (by decide))
    have read := readValue_tree t fuel _ (by omega) ends
    rw [← readValue_space before] at read
    simp only [Tree.memberChars, List.append_assoc, List.cons_append]
    exact readMembers_more (skipSpace_append start _) (readText_spelling name _)
      (skipSpace_append between _) read (skipSpace_append after _)
      (readMembers_tree (n :: ns) nofun fuel rest (by omega))
end

/-! ### What has been read is a value -/

theorem readWord_eq_ok_iff {word : List Char} :
    readWord word cs = .ok rest ↔ cs = word ++ rest := by
  induction word generalizing cs with
  | nil => exact ⟨Except.ok.inj, congrArg _⟩
  | cons w ws ih =>
    cases cs with
    | nil => exact iff_of_false nofun nofun
    | cons c cs =>
      rw [readWord, List.cons_append, List.cons.injEq]
      split
      · rw [ih]
        exact (and_iff_right ‹_›).symm
      · exact iff_of_false nofun fun both => absurd both.1 ‹_›

theorem rest_of_wordDraft {value : Draft} {word : List Char}
    (read : (wordDraft value (readWord word cs)).2 = .ok rest) : cs = word ++ rest := by
  cases eq : readWord word cs with
  | ok after =>
    rw [eq] at read
    exact readWord_eq_ok_iff.1 (eq.trans read)
  | error fault =>
    rw [eq] at read
    cases read

/-- A value that is read to its end is a leaf, or a list or an object whose inside is. -/
theorem readValue_inv (read : (readValue (fuel + 1) cs).2 = .ok rest) :
    (∃ t : Tree, skipSpace cs = t.chars ++ rest) ∨
      (∃ inside, skipSpace cs = '[' :: inside ∧
        (skipSpace inside = ']' :: rest ∨ (readItems fuel inside).2 = .ok rest)) ∨
      ∃ inside, skipSpace cs = '\x7b' :: inside ∧
        (skipSpace inside = '\x7d' :: rest ∨ (readMembers fuel inside).2 = .ok rest) := by
  rw [readValue] at read
  split at read
  · cases read
  · exact .inl ⟨.null, by rw [‹skipSpace cs = _›, rest_of_wordDraft read]; rfl⟩
  · exact .inl ⟨.boolean true, by rw [‹skipSpace cs = _›, rest_of_wordDraft read]; rfl⟩
  · exact .inl ⟨.boolean false, by rw [‹skipSpace cs = _›, rest_of_wordDraft read]; rfl⟩
  · obtain ⟨w, eq⟩ := exists_spelling read
    exact .inl ⟨.string w, by rw [‹skipSpace cs = _›, eq]; rfl⟩
  · rename_i inside begins
    refine .inr (.inl ⟨inside, begins, ?_⟩)
    -- the reader has looked past the space to see whether there is any item
    rw [← readItems_skipSpace]
    split at read
    rename_i eq
    split at eq
    · cases eq
      cases read
    · cases eq
      cases read
      exact .inl ‹_›
    · exact .inr (by rw [eq]; exact read)
  · rename_i inside begins
    refine .inr (.inr ⟨inside, begins, ?_⟩)
    rw [← readMembers_skipSpace]
    split at read
    rename_i eq
    split at eq
    · cases eq
      cases read
      exact .inl ‹_›
    · exact .inr (by rw [eq]; exact read)
  · split at read
    · obtain ⟨n, eq⟩ := exists_numeral read
      exact .inl ⟨.number n, by rw [‹skipSpace cs = _›, eq]; rfl⟩
    · cases read

theorem readItems_inv (read : (readItems (fuel + 1) cs).2 = .ok rest) :
    ∃ after, (readValue fuel cs).2 = .ok after ∧
      (skipSpace after = ']' :: rest ∨
        ∃ more, skipSpace after = ',' :: more ∧ (readItems fuel more).2 = .ok rest) := by
  rw [readItems] at read
  simp only at read
  split at read
  · cases read
  · rename_i after value
    refine ⟨after, value, ?_⟩
    split at read
    · exact .inr ⟨_, ‹_›, read⟩
    · cases read
      exact .inl ‹_›
    · cases read

theorem readMembers_inv (read : (readMembers (fuel + 1) cs).2 = .ok rest) :
    ∃ inside named value after, skipSpace cs = '"' :: inside ∧ (readText inside).2 = .ok named ∧
      skipSpace named = ':' :: value ∧ (readValue fuel value).2 = .ok after ∧
      (skipSpace after = '\x7d' :: rest ∨
        ∃ more, skipSpace after = ',' :: more ∧ (readMembers fuel more).2 = .ok rest) := by
  rw [readMembers] at read
  split at read
  · simp only at read
    split at read
    · cases read
    · split at read
      · split at read
        · cases read
        · refine ⟨_, _, _, _, ‹_›, ‹_›, ‹_›, ‹_›, ?_⟩
          split at read
          · exact .inr ⟨_, ‹_›, read⟩
          · cases read
            exact .inl ‹_›
          · cases read
      · cases read
  · cases read

theorem eq_of_skipSpace {c : Char} {after : List Char} (skip : skipSpace cs = c :: after) :
    cs = (Space.leading cs).chars ++ c :: after := by
  rw [← skip]
  exact Space.eq_leading_append cs

theorem Tree.itemChars_cons {ps : List (Padded Tree)} (some_item : ps ≠ []) (before : Space)
    (t : Tree) (after : Space) : Tree.itemChars (⟨before, t, after⟩ :: ps) =
      before.chars ++ (t.chars ++ (after.chars ++ ',' :: Tree.itemChars ps)) := by
  obtain ⟨q, qs, rfl⟩ := List.exists_cons_of_ne_nil some_item
  rfl

theorem Tree.memberChars_cons {ms : List (Labelled Tree)} (some_member : ms ≠ [])
    (start : Space) (name : Spelling) (between before : Space) (t : Tree) (after : Space) :
    Tree.memberChars (⟨start, name, between, before, t, after⟩ :: ms) =
      start.chars ++ '"' :: (name.chars ++ (between.chars ++ ':' ::
        (before.chars ++ (t.chars ++ (after.chars ++ ',' :: Tree.memberChars ms))))) := by
  obtain ⟨n, ns, rfl⟩ := List.exists_cons_of_ne_nil some_member
  rfl

-- Along the steps of the reader: what is left of each call is what the next one goes on with.
mutual
theorem exists_tree : ∀ (fuel : Nat) {cs rest : List Char},
    (readValue fuel cs).2 = .ok rest → ∃ space : Space, ∃ t : Tree,
      cs = space.chars ++ (t.chars ++ rest)
  | 0, _, _, read => nomatch read
  | fuel + 1, cs, rest, read => by
    refine ⟨.leading cs, ?_⟩
    suffices ∃ t : Tree, skipSpace cs = t.chars ++ rest by
      obtain ⟨t, eq⟩ := this
      exact ⟨t, by rw [← eq, ← Space.eq_leading_append]⟩
    obtain leaf | ⟨inside, begins, ends | items⟩ | ⟨inside, begins, ends | members⟩ :=
      readValue_inv read
    · exact leaf
    · refine ⟨.array (.leading inside) [], ?_⟩
      rw [begins]
      simp only [Tree.chars, Tree.itemChars, List.cons_append, List.nil_append, List.append_assoc]
      rw [← eq_of_skipSpace ends]
    · obtain ⟨ps, -, eq⟩ := exists_items fuel items
      refine ⟨.array .none ps, ?_⟩
      rw [begins, eq]
      simp [Tree.chars, Space.none]
    · refine ⟨.object (.leading inside) [], ?_⟩
      rw [begins]
      simp only [Tree.chars, Tree.memberChars, List.cons_append, List.nil_append,
        List.append_assoc]
      rw [← eq_of_skipSpace ends]
    · obtain ⟨ms, -, eq⟩ := exists_members fuel members
      refine ⟨.object .none ms, ?_⟩
      rw [begins, eq]
      simp [Tree.chars, Space.none]

theorem exists_items : ∀ (fuel : Nat) {cs rest : List Char},
    (readItems fuel cs).2 = .ok rest →
      ∃ ps : List (Padded Tree), ps ≠ [] ∧ cs = Tree.itemChars ps ++ ']' :: rest
  | 0, _, _, read => nomatch read
  | fuel + 1, cs, rest, read => by
    obtain ⟨after, value, later⟩ := readItems_inv read
    obtain ⟨before, t, rfl⟩ := exists_tree fuel value
    obtain ends | ⟨more, goes_on, later⟩ := later
    · refine ⟨[⟨before, t, .leading after⟩], nofun, ?_⟩
      simp only [Tree.itemChars, List.append_assoc]
      rw [← eq_of_skipSpace ends]
    · obtain ⟨ps, some_item, rfl⟩ := exists_items fuel later
      refine ⟨⟨before, t, .leading after⟩ :: ps, nofun, ?_⟩
      simp only [Tree.itemChars_cons some_item, List.append_assoc, List.cons_append]
      rw [← eq_of_skipSpace goes_on]

theorem exists_members : ∀ (fuel : Nat) {cs rest : List Char},
    (readMembers fuel cs).2 = .ok rest →
      ∃ ms : List (Labelled Tree), ms ≠ [] ∧ cs = Tree.memberChars ms ++ '\x7d' :: rest
  | 0, _, _, read => nomatch read
  | fuel + 1, cs, rest, read => by
    obtain ⟨inside, named, colon, after, begins, name, colon_sign, value, later⟩ :=
      readMembers_inv read
    obtain ⟨w, rfl⟩ := exists_spelling name
    obtain ⟨before, t, rfl⟩ := exists_tree fuel value
    obtain ends | ⟨more, goes_on, later⟩ := later
    · refine ⟨[⟨.leading cs, w, .leading named, before, t, .leading after⟩], nofun, ?_⟩
      simp only [Tree.memberChars, List.append_assoc, List.cons_append]
      rw [← eq_of_skipSpace ends, ← eq_of_skipSpace colon_sign, ← eq_of_skipSpace begins]
    · obtain ⟨ms, some_member, rfl⟩ := exists_members fuel later
      refine ⟨⟨.leading cs, w, .leading named, before, t, .leading after⟩ :: ms, nofun, ?_⟩
      simp only [Tree.memberChars_cons some_member, List.append_assoc, List.cons_append]
      rw [← eq_of_skipSpace goes_on, ← eq_of_skipSpace colon_sign, ← eq_of_skipSpace begins]
end

/-! ### Whole texts -/

theorem skipSpace_eq_nil_iff : skipSpace cs = [] ↔ ∃ space : Space, cs = space.chars := by
  constructor
  · intro nothing
    refine ⟨.leading cs, ?_⟩
    conv => lhs; rw [Space.eq_leading_append cs, nothing, List.append_nil]
  · rintro ⟨space, rfl⟩
    rw [← List.append_nil space.chars, skipSpace_append]
    rfl

/-- A document is read as its value, and nothing follows it. -/
theorem Reading.ofString_text (doc : Document) :
    Reading.ofString doc.text = ⟨doc.value.draft, none⟩ := by
  obtain ⟨before, t, after⟩ := doc
  have ends : EndsNumber after.chars := by
    rw [← List.append_nil after.chars]
    exact endsNumber_space after endsNumber_nil
  have nothing : skipSpace after.chars = [] := skipSpace_eq_nil_iff.2 ⟨after, rfl⟩
  have read : readValue (2 * (Document.chars ⟨before, t, after⟩).length + 1)
      (Document.chars ⟨before, t, after⟩) = (t.draft, .ok after.chars) := by
    rw [Document.chars, readValue_space]
    refine readValue_tree t _ _ ?_ ends
    simp only [List.length_append]
    omega
  rw [Reading.ofString, Document.text, String.toList_ofList, Reading.ofChars, read]
  simp only [nothing]
  rfl

/-- The texts that are read to their end are those of documents. -/
theorem Reading.after_eq_none_iff {text : String} :
    (Reading.ofString text).after = none ↔ ∃ doc : Document, doc.text = text := by
  constructor
  · intro nothing
    simp only [Reading.ofString, Reading.ofChars] at nothing
    split at nothing
    · cases nothing
    · rename_i after eq
      split at nothing
      · rename_i only_space
        obtain ⟨last, rfl⟩ := skipSpace_eq_nil_iff.1 (List.isEmpty_iff.1 only_space)
        obtain ⟨before, t, eq⟩ := exists_tree _ eq
        refine ⟨⟨before, t, last⟩, ?_⟩
        rw [Document.text, Document.chars, ← eq, String.ofList_toList]
      · cases nothing
  · rintro ⟨doc, rfl⟩
    rw [Reading.ofString_text]

end Ferry.Json
