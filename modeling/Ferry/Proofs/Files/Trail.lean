import Ferry.Files.Parents

/-!
The directories above a path, as the path writes them. They are beginnings of the path, each of
them of every longer one (`trail_pairwise`), and the longest is its parent, unless the parent is
where the path starts (`directoriesAbove_of_parent?`).
-/
namespace Ferry.Files.Path

open Ferry.Text

/-- Whether a path goes on, after a slash, where another one ends. -/
def Above (p q : Path) : Prop := p.bytes ≠ [] ∧ ∃ rest, q.bytes = p.bytes ++ slash :: rest

variable {passed names b : List Name} {n : Name}

theorem ne_nil_of_isVoid_eq_false (goes : isVoid n = false) : n ≠ [] := by
  rintro rfl
  cases goes

/-- A beginning goes beyond what was passed, with the steps that follow, and ends in a name. -/
theorem mem_beginnings (mem : b ∈ beginnings passed names) :
    ∃ more n, b = passed ++ (more ++ [n]) ∧ n ≠ [] ∧ more ++ [n] <+: names := by
  induction names generalizing passed with
  | nil => cases mem
  | cons n names ih =>
    have later (mem : b ∈ beginnings (passed ++ [n]) names) :
        ∃ more m, b = passed ++ (more ++ [m]) ∧ m ≠ [] ∧ more ++ [m] <+: n :: names := by
      obtain ⟨more, m, rfl, named, front⟩ := ih mem
      exact ⟨n :: more, m, by simp, named, List.cons_prefix_cons.2 ⟨rfl, front⟩⟩
    rw [beginnings] at mem
    split at mem
    · exact later mem
    · rename_i goes
      obtain rfl | mem := List.mem_cons.1 mem
      · exact ⟨[], n, rfl, ne_nil_of_isVoid_eq_false (by simpa using goes),
          List.cons_prefix_cons.2 ⟨rfl, List.nil_prefix⟩⟩
      · exact later mem

theorem beginnings_pairwise :
    (beginnings passed names).Pairwise fun b c => ∃ more, more ≠ [] ∧ c = b ++ more := by
  induction names generalizing passed with
  | nil => exact .nil
  | cons n names ih =>
    rw [beginnings]
    split
    · exact ih
    · refine .cons (fun c mem => ?_) ih
      obtain ⟨more, m, rfl, -, -⟩ := mem_beginnings mem
      exact ⟨more ++ [m], by simp, rfl⟩

theorem bytes_ofSteps_ne_nil (absolute : Bool) (named : n ≠ []) :
    (ofSteps absolute (names ++ [n])).bytes ≠ [] := by
  have joined : join slash (names ++ [n]) ≠ [] := by
    cases names with
    | nil => exact named
    | cons m names =>
      rw [join_append slash (List.cons_ne_nil m names) (List.cons_ne_nil n [])]
      exact List.append_ne_nil_of_right_ne_nil _ (List.cons_ne_nil _ _)
  exact List.append_ne_nil_of_right_ne_nil _ joined

theorem bytes_ofSteps_append (absolute : Bool) {more : List Name} (some_name : names ≠ [])
    (goes : more ≠ []) : (ofSteps absolute (names ++ more)).bytes =
      (ofSteps absolute names).bytes ++ slash :: join slash more := by
  unfold ofSteps
  rw [join_append slash some_name goes, List.append_assoc]

theorem above_ofSteps (absolute : Bool) {more : List Name} (named : n ≠ []) (goes : more ≠ []) :
    Above (ofSteps absolute (names ++ [n])) (ofSteps absolute (names ++ [n] ++ more)) :=
  ⟨bytes_ofSteps_ne_nil absolute named, join slash more,
    bytes_ofSteps_append absolute (by simp) goes⟩

/-- The steps of the paths of a trail. -/
theorem trail_eq (p : Path) : ∃ named : List (List Name),
    p.trail = named.map (ofSteps p.isAbsolute) ∧
      (∀ b ∈ named, b <+: p.steps ∧ ∃ names n, b = names ++ [n] ∧ n ≠ []) ∧
      named.Pairwise fun b c => ∃ more, more ≠ [] ∧ c = b ++ more := by
  cases steps_eq : p.steps with
  | nil => exact ⟨[], by rw [trail, steps_eq], nofun, .nil⟩
  | cons n rest =>
    by_cases dotted : (!p.isAbsolute && n = here) = true
    · have trail_eq : p.trail = ([here] :: beginnings [here] rest).map (ofSteps p.isAbsolute) := by
        simp only [trail, steps_eq, if_pos dotted]
      obtain rfl : n = here := of_decide_eq_true (Bool.and_eq_true_iff.1 dotted).2
      refine ⟨_, trail_eq, fun b mem => ?_, .cons (fun c mem => ?_) beginnings_pairwise⟩
      · obtain rfl | mem := List.mem_cons.1 mem
        · exact ⟨List.cons_prefix_cons.2 ⟨rfl, List.nil_prefix⟩, [], here, rfl, by decide⟩
        · obtain ⟨more, n, rfl, named, front⟩ := mem_beginnings mem
          exact ⟨List.cons_prefix_cons.2 ⟨rfl, front⟩, here :: more, n, rfl, named⟩
      · obtain ⟨more, n, rfl, -, -⟩ := mem_beginnings mem
        exact ⟨more ++ [n], by simp, rfl⟩
    · refine ⟨beginnings [] (n :: rest), by simp only [trail, steps_eq, if_neg dotted],
        fun b mem => ?_, beginnings_pairwise⟩
      obtain ⟨more, n, rfl, named, front⟩ := mem_beginnings mem
      exact ⟨front, more, n, rfl, named⟩

/-- Every path of a trail is a beginning of those after it. -/
theorem trail_pairwise (p : Path) : p.trail.Pairwise Above := by
  obtain ⟨named, trail_eq, ends, longer⟩ := p.trail_eq
  rw [trail_eq, List.pairwise_map]
  refine longer.imp_of_mem fun {b c} mem _ more => ?_
  obtain ⟨-, names, n, rfl, named⟩ := ends b mem
  obtain ⟨more, goes, rfl⟩ := more
  exact above_ofSteps _ named goes

theorem ofSteps_steps (p : Path) : ofSteps p.isAbsolute p.steps = p := by
  obtain ⟨bytes⟩ := p
  rw [ofSteps, steps, join_pieces]
  cases bytes with
  | nil => rfl
  | cons b bytes =>
    by_cases rooted : b = slash
    · subst rooted
      rfl
    · simp [isAbsolute, rooted]

theorem no_slash_of_mem_steps {p : Path} {n : Name} (mem : n ∈ p.steps) : slash ∉ n :=
  not_mem_of_mem_pieces mem

theorem steps_append {p q : Path} {rest : List UInt8} (named : p.bytes ≠ [])
    (q_eq : q.bytes = p.bytes ++ slash :: rest) : q.steps = p.steps ++ pieces slash rest := by
  have absolute : q.isAbsolute = p.isAbsolute := by
    unfold isAbsolute
    rw [q_eq, List.head?_append, List.head?_eq_some_head named]
    rfl
  unfold steps
  rw [absolute, q_eq]
  split
  · rw [List.drop_append_of_le_length (List.length_pos_iff.2 named), pieces_append]
  · rw [pieces_append]

/-- A path of a trail is not empty, and its last step is a name. -/
theorem steps_of_mem_trail {p d : Path} (mem : d ∈ p.trail) :
    d.bytes ≠ [] ∧ ∃ names n, d.steps = names ++ [n] ∧ n ≠ [] := by
  obtain ⟨named, trail_eq, ends, -⟩ := p.trail_eq
  rw [trail_eq] at mem
  obtain ⟨b, begins, rfl⟩ := List.mem_map.1 mem
  obtain ⟨⟨more, steps_eq⟩, names, n, rfl, some_byte⟩ := ends b begins
  have some_bytes : (ofSteps p.isAbsolute (names ++ [n])).bytes ≠ [] :=
    bytes_ofSteps_ne_nil _ some_byte
  refine ⟨some_bytes, names, n, ?_, some_byte⟩
  have whole := p.ofSteps_steps
  rw [← steps_eq] at whole
  by_cases goes : more = []
  · rw [goes, List.append_nil] at whole steps_eq
    rw [whole, steps_eq]
  · -- the steps after it read back as they are, and so do those before them
    have cut := steps_append some_bytes
      ((congrArg bytes whole).symm.trans (bytes_ofSteps_append p.isAbsolute (by simp) goes))
    have later : ∀ m ∈ more, slash ∉ m := fun m mem =>
      no_slash_of_mem_steps (steps_eq ▸ List.mem_append_right _ mem)
    rw [pieces_join goes later, ← steps_eq] at cut
    exact (List.append_cancel_right cut).symm

end Ferry.Files.Path

namespace Ferry.Files.FileSystem

open Ferry.Files.Path

theorem directoriesAbove_eq (p : Path) : directoriesAbove p = p.trail.reverse.tail := by
  rw [directoriesAbove, List.tail_reverse]

theorem directoriesAbove_pairwise (p : Path) :
    (directoriesAbove p).Pairwise fun q d => Above d q := by
  rw [directoriesAbove_eq]
  exact (List.pairwise_reverse.2 p.trail_pairwise).tail

/-- The parent of a path is the longest of the directories above it, or where the path starts. -/
theorem directoriesAbove_of_parent? {p q : Path} (parent : p.parent? = some q) :
    (directoriesAbove p = [] ∧ q = ofSteps p.isAbsolute []) ∨
      ∃ shorter, directoriesAbove p = q :: shorter ∧ ∀ d ∈ shorter, Above d q := by
  have longer := directoriesAbove_pairwise p
  rw [directoriesAbove_eq] at longer ⊢
  unfold parent? at parent
  cases backwards : p.trail.reverse with
  | nil =>
    rw [backwards] at parent
    cases parent
  | cons last shorter =>
    rw [backwards] at parent longer
    cases shorter with
    | nil =>
      cases parent
      exact .inl ⟨rfl, rfl⟩
    | cons d shorter =>
      cases parent
      exact .inr ⟨shorter, rfl, (List.pairwise_cons.1 longer).1⟩

end Ferry.Files.FileSystem
