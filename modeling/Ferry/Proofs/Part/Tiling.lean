import Ferry.Part.Ranges

/-!
The ranges of an object as a tiling. Each begins where the one before it ends, up to the end of the
object (`tiles_ranges`); none goes past that end, all but the last are of one length, and the pieces
that they cut out of a content are, one after another, that content (`flatten_pieces`).
-/
namespace Ferry.Part

variable {total size : Nat}

theorem step_pos (total size : Nat) : 0 < step total size := by
  unfold step
  split <;> omega

/-- The ranges reach the end of the object. -/
theorem total_le_rangeCount_mul (total size : Nat) :
    total ≤ rangeCount total size * step total size :=
  (count_le_iff (step_pos total size)).1 (Nat.le_refl _)

/-- All ranges but the last are full, and none begins at the end. -/
theorem mul_step_lt_of_lt_rangeCount {n : Nat} (h : n < rangeCount total size) :
    n * step total size < total := by
  rcases Nat.lt_or_ge (n * step total size) total with lt | ge
  · exact lt
  · have := (count_le_iff (step_pos total size)).2 ge
    exact absurd h (Nat.not_lt.2 this)

theorem length_ranges (total size : Nat) : (ranges total size).length = rangeCount total size := by
  rw [ranges, List.length_map, List.length_range]

/-- Only an empty object has no ranges. -/
theorem ranges_eq_nil_iff : ranges total size = [] ↔ total = 0 := by
  rw [← List.length_eq_zero_iff, length_ranges]
  constructor
  · intro none
    have covered := total_le_rangeCount_mul total size
    rw [none, Nat.zero_mul] at covered
    exact Nat.le_zero.1 covered
  · rintro rfl
    rw [rangeCount, ← Nat.le_zero, count_le_iff (step_pos 0 size)]
    exact Nat.zero_le _

theorem getElem?_ranges {n : Nat} {r : Range} (h : (ranges total size)[n]? = some r) :
    n < rangeCount total size ∧ r = range total size n := by
  rw [ranges, List.getElem?_map, Option.map_eq_some_iff] at h
  obtain ⟨m, hm, rfl⟩ := h
  obtain ⟨lt, rfl⟩ := List.getElem?_eq_some_iff.1 hm
  rw [List.length_range] at lt
  rw [List.getElem_range]
  exact ⟨lt, rfl⟩

theorem range_length_le (total size n : Nat) : (range total size n).length ≤ step total size :=
  Nat.min_le_left _ _

theorem range_end_le {n : Nat} (h : n < rangeCount total size) :
    (range total size n).start + (range total size n).length ≤ total := by
  have := mul_step_lt_of_lt_rangeCount h
  show n * step total size + min (step total size) (total - n * step total size) ≤ total
  omega

/-- A range that is not the last is as long as a part. -/
theorem range_length_eq {n : Nat} (h : n + 1 < rangeCount total size) :
    (range total size n).length = step total size := by
  have := mul_step_lt_of_lt_rangeCount h
  rw [Nat.succ_mul] at this
  exact Nat.min_eq_left (by omega)

/-- Ranges that follow each other from one end to another, none of them empty. -/
inductive Tiles : Nat → List Range → Nat → Prop
  | done (stop : Nat) : Tiles stop [] stop
  | next {r : Range} {rs : List Range} {stop : Nat} (some_byte : 0 < r.length)
      (rest : Tiles (r.start + r.length) rs stop) : Tiles r.start (r :: rs) stop

/-- The ranges from the `n`-th on go from its start to the end of the object. -/
theorem tiles_ranges_from (more n : Nat) (all : n + more = rangeCount total size) :
    Tiles (min (n * step total size) total) ((List.range' n more).map (range total size))
      total := by
  induction more generalizing n with
  | zero =>
    obtain rfl : n = rangeCount total size := all
    rw [Nat.min_eq_right (total_le_rangeCount_mul total size)]
    exact .done total
  | succ more ih =>
    have begins : n * step total size < total := mul_step_lt_of_lt_rangeCount (by omega)
    have step_pos := step_pos total size
    have some_byte : 0 < (range total size n).length := by
      show 0 < min (step total size) (total - n * step total size)
      omega
    have ends : (range total size n).start + (range total size n).length =
        min ((n + 1) * step total size) total := by
      rw [Nat.succ_mul]
      show n * step total size + min (step total size) (total - n * step total size) = _
      omega
    have rest := ih (n + 1) (by omega)
    rw [← ends] at rest
    rw [Nat.min_eq_left (Nat.le_of_lt begins), List.range'_succ, List.map_cons]
    exact .next some_byte rest

/-- The ranges are a tiling of the object. -/
theorem tiles_ranges (total size : Nat) : Tiles 0 (ranges total size) total := by
  have all := tiles_ranges_from (rangeCount total size) 0 (Nat.zero_add _)
  rwa [Nat.zero_mul, Nat.zero_min, ← List.range_eq_range'] at all

/-- Where no part size is asked for, one range covers everything. -/
theorem ranges_zero (some_byte : 0 < total) : ranges total 0 = [⟨0, total⟩] := by
  have step_eq : step total 0 = total := Nat.max_eq_left some_byte
  have one : rangeCount total 0 = 1 := by
    rw [rangeCount, step_eq, count]
    exact Nat.div_eq_of_lt_le (by omega) (by omega)
  rw [ranges, one]
  simp [range, step_eq]

/-- What a range cuts out of a content. -/
def Range.piece {α : Type} (r : Range) (content : List α) : List α :=
  (content.drop r.start).take r.length

/-- The first `n` ranges cut out the beginning of the content. -/
theorem flatten_first_pieces {α : Type} (content : List α) (size n : Nat) :
    ((List.range n).map fun i => (range content.length size i).piece content).flatten =
      content.take (n * step content.length size) := by
  induction n with
  | zero => rw [Nat.zero_mul, List.take_zero]; rfl
  | succ n ih =>
    -- the last range is cut short, but so is the content there
    have cut : (range content.length size n).piece content =
        (content.drop (n * step content.length size)).take (step content.length size) := by
      show (content.drop (n * step content.length size)).take (min (step content.length size)
        (content.length - n * step content.length size)) = _
      rw [← List.length_drop, ← List.take_take, List.take_length]
    rw [List.range_succ, List.map_append, List.flatten_append, ih, List.map_singleton,
      List.flatten_singleton, cut, ← List.take_add, Nat.succ_mul]

/-- The pieces are the content, nothing lost and nothing twice. -/
theorem flatten_pieces {α : Type} (content : List α) (size : Nat) :
    ((ranges content.length size).map fun r => r.piece content).flatten = content := by
  rw [ranges, List.map_map]
  exact (flatten_first_pieces content size _).trans
    (List.take_of_length_le (total_le_rangeCount_mul content.length size))

end Ferry.Part
