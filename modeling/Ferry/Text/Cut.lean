/-!
Cutting a list at a separator: the first cut, all the pieces, and joining pieces again. Nothing is
lost: what was cut joins to the list it came from, and no piece holds a separator.
-/
namespace Ferry.Text

variable {α : Type} [DecidableEq α]

/-- What stands before the first `sep` and what stands after it; nothing where `sep` does not
occur. -/
def cutFirst (sep : α) : List α → Option (List α × List α)
  | [] => none
  | x :: xs =>
    if x = sep then some ([], xs)
    else (cutFirst sep xs).map fun (before, after) => (x :: before, after)

theorem eq_append_of_cutFirst {sep : α} :
    ∀ {xs before after : List α}, cutFirst sep xs = some (before, after) →
      xs = before ++ sep :: after ∧ sep ∉ before
  | [], _, _, h => by simp [cutFirst] at h
  | x :: xs, before, after, h => by
    by_cases e : x = sep
    · simp only [cutFirst, if_pos e, Option.some.injEq, Prod.mk.injEq] at h
      obtain ⟨rfl, rfl⟩ := h
      simp [e]
    · simp only [cutFirst, if_neg e, Option.map_eq_some_iff, Prod.mk.injEq] at h
      obtain ⟨⟨b, a⟩, cut, rfl, rfl⟩ := h
      obtain ⟨rfl, free⟩ := eq_append_of_cutFirst cut
      simp [free, Ne.symm e]

theorem cutFirst_append {sep : α} {before : List α} (h : sep ∉ before) (after : List α) :
    cutFirst sep (before ++ sep :: after) = some (before, after) := by
  induction before with
  | nil => simp [cutFirst]
  | cons x xs ih =>
    simp only [List.mem_cons, not_or] at h
    simp [cutFirst, Ne.symm h.1, ih h.2]

theorem cutFirst_eq_none_iff {sep : α} {xs : List α} : cutFirst sep xs = none ↔ sep ∉ xs := by
  induction xs with
  | nil => simp [cutFirst]
  | cons x xs ih =>
    by_cases e : x = sep
    · simp [cutFirst, e]
    · simp [cutFirst, e, ih, Ne.symm e]

/-- The stretches between separators, empty ones included: one more than there are separators. -/
def pieces (sep : α) : List α → List (List α)
  | [] => [[]]
  | x :: xs =>
    if x = sep then [] :: pieces sep xs
    else match pieces sep xs with
      | [] => [[x]]
      | p :: ps => (x :: p) :: ps

/-- The stretches with one separator between neighbours. -/
def join (sep : α) : List (List α) → List α
  | [] => []
  | [p] => p
  | p :: q :: ps => p ++ sep :: join sep (q :: ps)

theorem pieces_ne_nil (sep : α) (xs : List α) : pieces sep xs ≠ [] := by
  cases xs with
  | nil => simp [pieces]
  | cons x xs =>
    simp only [pieces]
    split
    · simp
    · split <;> simp

theorem not_mem_of_mem_pieces {sep : α} {xs p : List α} (h : p ∈ pieces sep xs) : sep ∉ p := by
  induction xs generalizing p with
  | nil => simp_all [pieces]
  | cons x xs ih =>
    simp only [pieces] at h
    split at h
    · rcases List.mem_cons.1 h with rfl | h
      · simp
      · exact ih h
    · rename_i ne
      split at h
      · simp_all [Ne.symm ne]
      · rename_i q qs cut
        rcases List.mem_cons.1 h with rfl | h
        · have := ih (p := q) (by simp [cut])
          simp [this, Ne.symm ne]
        · exact ih (by simp [cut, h])

omit [DecidableEq α] in
theorem join_cons_cons (sep : α) (p q : List α) (ps : List (List α)) :
    join sep (p :: q :: ps) = p ++ sep :: join sep (q :: ps) := rfl

theorem join_pieces (sep : α) (xs : List α) : join sep (pieces sep xs) = xs := by
  induction xs with
  | nil => rfl
  | cons x xs ih =>
    simp only [pieces]
    split
    · rename_i e
      cases cut : pieces sep xs with
      | nil => exact absurd cut (pieces_ne_nil sep xs)
      | cons p ps => rw [join_cons_cons, ← cut, ih, e]; rfl
    · cases cut : pieces sep xs with
      | nil => exact absurd cut (pieces_ne_nil sep xs)
      | cons p ps =>
        rw [cut] at ih
        cases ps with
        | nil => simpa [join] using ih
        | cons q qs =>
          rw [join_cons_cons] at ih ⊢
          rw [← ih]
          rfl

theorem pieces_append (sep : α) (xs ys : List α) :
    pieces sep (xs ++ sep :: ys) = pieces sep xs ++ pieces sep ys := by
  induction xs with
  | nil => simp [pieces]
  | cons x xs ih =>
    simp only [List.cons_append, pieces, ih]
    split
    · rfl
    · cases cut : pieces sep xs with
      | nil => exact absurd cut (pieces_ne_nil sep xs)
      | cons p ps => rfl

omit [DecidableEq α] in
theorem join_append (sep : α) {ps qs : List (List α)} (hp : ps ≠ []) (hq : qs ≠ []) :
    join sep (ps ++ qs) = join sep ps ++ sep :: join sep qs := by
  induction ps with
  | nil => exact absurd rfl hp
  | cons p ps ih =>
    cases ps with
    | nil =>
      obtain ⟨q, qs, rfl⟩ := List.exists_cons_of_ne_nil hq
      rfl
    | cons p' ps =>
      rw [List.cons_append, List.cons_append, join_cons_cons, ← List.cons_append,
        ih (List.cons_ne_nil _ _), join_cons_cons, List.append_assoc, List.cons_append]

theorem pieces_of_not_mem {sep : α} {xs : List α} (whole : sep ∉ xs) : pieces sep xs = [xs] := by
  induction xs with
  | nil => rfl
  | cons x xs ih =>
    simp only [List.mem_cons, not_or] at whole
    simp [pieces, Ne.symm whole.1, ih whole.2]

theorem pieces_join {sep : α} {ps : List (List α)} (some_piece : ps ≠ [])
    (whole : ∀ p ∈ ps, sep ∉ p) : pieces sep (join sep ps) = ps := by
  induction ps with
  | nil => exact absurd rfl some_piece
  | cons p ps ih =>
    have first : sep ∉ p := whole p List.mem_cons_self
    cases ps with
    | nil => exact pieces_of_not_mem first
    | cons q qs =>
      rw [join_cons_cons, pieces_append, pieces_of_not_mem first,
        ih (List.cons_ne_nil q qs) fun r mem => whole r (List.mem_cons_of_mem p mem)]
      rfl

/-- What follows `lead`, where the list starts with it. -/
def afterLead? (lead : List α) (xs : List α) : Option (List α) :=
  match lead, xs with
  | [], xs => some xs
  | _ :: _, [] => none
  | a :: lead, x :: xs => if a = x then afterLead? lead xs else none

theorem afterLead?_eq_some_iff {lead xs rest : List α} :
    afterLead? lead xs = some rest ↔ xs = lead ++ rest := by
  induction lead generalizing xs with
  | nil => simp [afterLead?]
  | cons a lead ih =>
    cases xs with
    | nil => simp [afterLead?]
    | cons x xs =>
      by_cases e : a = x
      · simp [afterLead?, e, ih]
      · simp [afterLead?, e, Ne.symm e]

/-- Drops the elements that satisfy `p` from both ends. -/
def trimBoth (p : α → Bool) (xs : List α) : List α :=
  ((xs.dropWhile p).reverse.dropWhile p).reverse

section

omit [DecidableEq α]
variable {p : α → Bool}

theorem exists_eq_trimBoth (p : α → Bool) (xs : List α) : ∃ lead trail,
    xs = lead ++ trimBoth p xs ++ trail ∧ (∀ x ∈ lead, p x = true) ∧ ∀ x ∈ trail, p x = true := by
  let rest := (xs.dropWhile p).reverse
  refine ⟨xs.takeWhile p, (rest.takeWhile p).reverse, ?_, ?_, ?_⟩
  · have cut : (rest.takeWhile p ++ rest.dropWhile p).reverse = xs.dropWhile p := by
      rw [List.takeWhile_append_dropWhile, List.reverse_reverse]
    rw [List.append_assoc, trimBoth, ← List.reverse_append, cut, List.takeWhile_append_dropWhile]
  · exact fun x mem => List.all_eq_true.1 List.all_takeWhile x mem
  · intro x mem
    exact List.all_eq_true.1 List.all_takeWhile x (List.mem_reverse.1 mem)

theorem dropWhile_append_of_stops {lead rest : List α} (front : ∀ x ∈ lead, p x = true)
    (stops : ∀ x ∈ rest.head?, p x = false) : (lead ++ rest).dropWhile p = rest := by
  rw [List.dropWhile_append_of_pos front]
  cases rest with
  | nil => rfl
  | cons x rest => exact List.dropWhile_cons_of_neg (by simp [stops x rfl])

theorem trimBoth_append {lead core trail : List α} (front : ∀ x ∈ lead, p x = true)
    (back : ∀ x ∈ trail, p x = true) (some_core : core ≠ [])
    (first : ∀ x ∈ core.head?, p x = false) (last : ∀ x ∈ core.getLast?, p x = false) :
    trimBoth p (lead ++ core ++ trail) = core := by
  have from_first : (lead ++ (core ++ trail)).dropWhile p = core ++ trail := by
    refine dropWhile_append_of_stops front ?_
    obtain ⟨x, core, rfl⟩ := List.exists_cons_of_ne_nil some_core
    exact first
  have to_last : (trail.reverse ++ core.reverse).dropWhile p = core.reverse := by
    refine dropWhile_append_of_stops (fun x mem => back x (List.mem_reverse.1 mem)) ?_
    rwa [List.head?_reverse]
  rw [trimBoth, List.append_assoc, from_first, List.reverse_append, to_last, List.reverse_reverse]

theorem trimBoth_map {β : Type} (f : β → α) (xs : List β) :
    trimBoth p (xs.map f) = (trimBoth (p ∘ f) xs).map f := by
  rw [trimBoth, List.dropWhile_map, ← List.map_reverse, List.dropWhile_map, ← List.map_reverse]
  rfl

end

end Ferry.Text
