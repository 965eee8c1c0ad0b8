import Ferry.Proofs.Files.Trail
import Mathlib.Data.List.Induction

/-!
One path seen from another. Steps are followed one after another (`follow_append`): ordinary names
lead down (`follow_ordinary`), and as many steps up as there are names lead back over them
(`follow_replicate_above`). What two places have in common is the deepest place above both
(`exists_common`), so that up to it and down again is a way from one to the other, without detours.
That way, written as a path, reads back as the same steps (`steps_ofSteps`).
-/
namespace Ferry.Files.Path

open Ferry.Text

/-- A name that leads down to a place of its own. -/
structure Ordinary (n : Name) : Prop where
  goes : isVoid n = false
  ne_above : n ≠ above
  no_slash : slash ∉ n

/-- The deepest of the places that lie above two others, or are one of them. -/
structure DeepestCommon (common a b : List Name) : Prop where
  left : common <+: a
  right : common <+: b
  deepest : ∀ place, place <+: a → place <+: b → place <+: common

variable {place names : List Name}

theorem follow_append (place names more : List Name) :
    follow place (names ++ more) = follow (follow place names) more := by
  induction names generalizing place with
  | nil => rfl
  | cons n names ih =>
    simp only [List.cons_append, follow]
    split
    · exact ih place
    · split
      · exact ih place.dropLast
      · exact ih (place ++ [n])

theorem follow_ordinary (ordinary : ∀ n ∈ names, Ordinary n) (place : List Name) :
    follow place names = place ++ names := by
  induction names generalizing place with
  | nil => simp [follow]
  | cons n names ih =>
    have first := ordinary n List.mem_cons_self
    rw [follow, first.goes, if_neg Bool.false_ne_true, if_neg first.ne_above,
      ih fun m mem => ordinary m (List.mem_cons_of_mem n mem)]
    simp

/-- Places hold ordinary names only. -/
theorem ordinary_of_mem_follow (ordinary : ∀ n ∈ place, Ordinary n)
    (whole : ∀ n ∈ names, slash ∉ n) : ∀ n ∈ follow place names, Ordinary n := by
  induction names generalizing place with
  | nil => exact ordinary
  | cons n names ih =>
    have later : ∀ m ∈ names, slash ∉ m := fun m mem => whole m (List.mem_cons_of_mem n mem)
    rw [follow]
    split
    · exact ih ordinary later
    · rename_i goes
      split
      · exact ih (fun m mem => ordinary m (List.dropLast_subset place mem)) later
      · rename_i ne_above
        refine ih (fun m mem => ?_) later
        rcases List.mem_append.1 mem with old | new
        · exact ordinary m old
        · obtain rfl := List.mem_singleton.1 new
          exact ⟨by simpa using goes, ne_above, whole m List.mem_cons_self⟩

theorem follow_replicate_above (common up : List Name) :
    follow (common ++ up) (List.replicate up.length above) = common := by
  induction up using List.reverseRecOn with
  | nil => simp [follow]
  | append_singleton up n ih =>
    have step_up : follow (common ++ (up ++ [n])) [above] = common ++ up := by
      rw [← List.append_assoc]
      simp [follow, isVoid, above, here]
    calc follow (common ++ (up ++ [n])) (List.replicate (up ++ [n]).length above)
        = follow (common ++ (up ++ [n])) ([above] ++ List.replicate up.length above) := by
          simp [List.replicate_succ]
      _ = follow (common ++ up) (List.replicate up.length above) := by
          rw [follow_append, step_up]
      _ = common := ih

theorem DeepestCommon.nil_of_ne {n m : Name} {a b : List Name} (ne : n ≠ m) :
    DeepestCommon [] (n :: a) (m :: b) where
  left := List.nil_prefix
  right := List.nil_prefix
  deepest := by
    intro place left right
    cases place with
    | nil => exact List.nil_prefix
    | cons k place =>
      have first := (List.cons_prefix_cons.1 left).1
      have second := (List.cons_prefix_cons.1 right).1
      exact absurd (first.symm.trans second) ne

theorem DeepestCommon.cons {common a b : List Name} (n : Name) (deep : DeepestCommon common a b) :
    DeepestCommon (n :: common) (n :: a) (n :: b) where
  left := List.cons_prefix_cons.2 ⟨rfl, deep.left⟩
  right := List.cons_prefix_cons.2 ⟨rfl, deep.right⟩
  deepest := by
    intro place left right
    cases place with
    | nil => exact List.nil_prefix
    | cons k place =>
      obtain ⟨rfl, rest⟩ := List.cons_prefix_cons.1 left
      exact List.cons_prefix_cons.2 ⟨rfl, deep.deepest place rest (List.cons_prefix_cons.1 right).2⟩

theorem exists_common (a b : List Name) : ∃ common down up, a = common ++ down ∧
    b = common ++ up ∧ common.length = commonLength a b ∧ DeepestCommon common a b := by
  induction a generalizing b with
  | nil =>
    exact ⟨[], [], b, rfl, rfl, by simp [commonLength], List.nil_prefix, List.nil_prefix,
      fun place left _ => left⟩
  | cons n a ih =>
    cases b with
    | nil =>
      exact ⟨[], n :: a, [], rfl, rfl, by simp [commonLength], List.nil_prefix, List.nil_prefix,
        fun place _ right => right⟩
    | cons m b =>
      by_cases same : n = m
      · subst same
        obtain ⟨common, down, up, rfl, rfl, length, deep⟩ := ih b
        exact ⟨n :: common, down, up, rfl, rfl, by simp [commonLength, length], deep.cons n⟩
      · -- here the two part
        exact ⟨[], n :: a, m :: b, rfl, rfl, by simp [commonLength, same],
          DeepestCommon.nil_of_ne same⟩

/-- The way between two places: up to what is above both, then down. -/
theorem stepsBetween_eq {common down up : List Name}
    (deep : DeepestCommon common (common ++ down) (common ++ up))
    (length : common.length = commonLength (common ++ down) (common ++ up)) :
    stepsBetween (common ++ up) (common ++ down) =
      (if common ++ down = common ++ up then [here] else []) ++
        List.replicate up.length above ++ down := by
  have names : List.replicate ((common ++ up).length - commonLength (common ++ down) (common ++ up))
      above ++ (common ++ down).drop (commonLength (common ++ down) (common ++ up)) =
        List.replicate up.length above ++ down := by
    simp [← length]
  rw [stepsBetween, names]
  by_cases same : down = up
  · -- the two are one place, with no way to go
    subst same
    have whole : common ++ down <+: common :=
      deep.deepest _ (List.prefix_refl _) (List.prefix_refl _)
    obtain rfl : down = [] := by
      have := whole.length_le
      rw [List.length_append] at this
      exact List.eq_nil_of_length_eq_zero (by omega)
    simp
  · have some_step : List.replicate up.length above ++ down ≠ [] := by
      intro none
      obtain ⟨no_up, rfl⟩ := List.append_eq_nil_iff.1 none
      refine same (Eq.symm ?_)
      simpa using no_up
    simp [same, some_step]

/-- A relative path reads back as the steps that it was written from. -/
theorem steps_ofSteps (some_name : names ≠ []) (whole : ∀ n ∈ names, n ≠ [] ∧ slash ∉ n) :
    (ofSteps false names).isAbsolute = false ∧ (ofSteps false names).steps = names := by
  have relative : (ofSteps false names).isAbsolute = false := by
    obtain ⟨n, rest, rfl⟩ := List.exists_cons_of_ne_nil some_name
    obtain ⟨some_byte, no_slash⟩ := whole n List.mem_cons_self
    obtain ⟨b, bytes, rfl⟩ := List.exists_cons_of_ne_nil some_byte
    have ne : b ≠ slash := fun same => no_slash (same ▸ List.mem_cons_self)
    cases rest with
    | nil => simp [isAbsolute, ofSteps, join, ne]
    | cons m rest => simp [isAbsolute, ofSteps, join_cons_cons, ne]
  refine ⟨relative, ?_⟩
  rw [steps, relative]
  exact pieces_join some_name fun n mem => (whole n mem).2

theorem above_whole : above ≠ [] ∧ slash ∉ above := by decide

theorem here_whole : here ≠ [] ∧ slash ∉ here := by decide

theorem Ordinary.whole {n : Name} (ordinary : Ordinary n) : n ≠ [] ∧ slash ∉ n :=
  ⟨ne_nil_of_isVoid_eq_false ordinary.goes, ordinary.no_slash⟩

/-- A relative path without detours: a dot at its front or none, so many steps up, and down by
ordinary names. -/
structure Direct (q : Path) (dotted : Prop) [Decidable dotted] (up : Nat) (down : List Name) :
    Prop where
  relative : q.isAbsolute = false
  steps : q.steps = (if dotted then [here] else []) ++ List.replicate up above ++ down
  ordinary : ∀ n ∈ down, Ordinary n

theorem direct_ofSteps {dotted : Prop} [Decidable dotted] {up : Nat} {down : List Name}
    {base : Name} (ordinary : ∀ n ∈ down ++ [base], Ordinary n) :
    Direct (ofSteps false ((if dotted then [here] else []) ++ List.replicate up above ++ down ++
      [base])) dotted up (down ++ [base]) := by
  have whole : ∀ n ∈ (if dotted then [here] else []) ++ List.replicate up above ++ down ++ [base],
      n ≠ [] ∧ slash ∉ n := by
    intro n mem
    rw [List.append_assoc, List.mem_append, List.mem_append] at mem
    rcases mem with (dot | step_up) | rest
    · split at dot
      · obtain rfl := List.mem_singleton.1 dot
        exact here_whole
      · cases dot
    · rw [List.eq_of_mem_replicate step_up]
      exact above_whole
    · exact (ordinary n rest).whole
  obtain ⟨relative, steps⟩ := steps_ofSteps (by simp) whole
  exact ⟨relative, by rw [steps, List.append_assoc], ordinary⟩

/-- A path without detours leads up, and down from there. -/
theorem Direct.place?_eq {q : Path} {dotted : Prop} [Decidable dotted] {up down : List Name}
    (direct : Direct q dotted up.length down) (some_byte : q.bytes ≠ []) (common : List Name) :
    q.place? (common ++ up) = some (common ++ down) := by
  have stay : follow (common ++ up) (if dotted then [here] else []) = common ++ up := by
    split <;> rfl
  calc q.place? (common ++ up)
      = some (follow (common ++ up) q.steps) := by simp [place?, some_byte, direct.relative]
    _ = some (follow (follow (common ++ up) (List.replicate up.length above)) down) := by
        rw [direct.steps, follow_append, follow_append, stay]
    _ = some (common ++ down) := by
        rw [follow_replicate_above, follow_ordinary direct.ordinary]

/-- The place of a current directory. -/
def directory (current : Path) : List Name := follow [] current.steps

theorem ordinary_of_mem_directory (current : Path) : ∀ n ∈ directory current, Ordinary n :=
  ordinary_of_mem_follow nofun fun _ => no_slash_of_mem_steps

/-- A path that is not empty means a place, the names of which are ordinary. -/
theorem exists_place (current p : Path) (some_byte : p.bytes ≠ []) :
    ∃ place, p.place? (directory current) = some place ∧ ∀ n ∈ place, Ordinary n := by
  refine ⟨_, by rw [place?, if_neg (by simpa using some_byte)], ?_⟩
  refine ordinary_of_mem_follow ?_ fun _ => no_slash_of_mem_steps
  split
  · exact nofun
  · exact ordinary_of_mem_directory current

theorem relativeTo_root {cwd : List Name} {p start : Path} {origin : List Name}
    (root : p.place? cwd = some []) (begins : start.place? cwd = some origin) :
    p.relativeTo cwd start = ofSteps true [] := by
  simp [relativeTo, root, begins]

theorem relativeTo_below {cwd : List Name} {p start : Path} {origin dir : List Name} {base : Name}
    (place : p.place? cwd = some (dir ++ [base])) (begins : start.place? cwd = some origin) :
    p.relativeTo cwd start = ofSteps false (stepsBetween origin dir ++ [base]) := by
  simp [relativeTo, place, begins]

/-- A path seen from a directory leads from there to where the path leads. Unless that is the root,
it goes straight: up to the deepest directory above both, and down from there, with a dot at its
front exactly where there is no way to go but the name. -/
theorem relative_path_leads_to_place (current p start : Path) (some_path : p.bytes ≠ [])
    (some_start : start.bytes ≠ []) : ∃ place origin,
      p.place? (directory current) = some place ∧ start.place? (directory current) = some origin ∧
      (p.relativeTo (directory current) start).place? origin = some place ∧
      (place = [] → p.relativeTo (directory current) start = ofSteps true []) ∧
      ∀ dir base, place = dir ++ [base] → ∃ common up down, DeepestCommon common dir origin ∧
        origin = common ++ up ∧ dir = common ++ down ∧
        Direct (p.relativeTo (directory current) start) (dir = origin) up.length
          (down ++ [base]) := by
  obtain ⟨place, leads, ordinary⟩ := exists_place current p some_path
  obtain ⟨origin, begins, -⟩ := exists_place current start some_start
  refine ⟨place, origin, leads, begins, ?_⟩
  cases place using List.reverseRecOn with
  | nil =>
    rw [relativeTo_root leads begins]
    exact ⟨rfl, fun _ => rfl, fun dir base eq => absurd eq (by simp)⟩
  | append_singleton dir base =>
    obtain ⟨common, down, up, rfl, rfl, length, deep⟩ := exists_common dir origin
    have direct : Direct (p.relativeTo (directory current) start) (common ++ down = common ++ up)
        up.length (down ++ [base]) := by
      rw [relativeTo_below leads begins, stepsBetween_eq deep length]
      refine direct_ofSteps fun n mem => ordinary n ?_
      rw [List.append_assoc]
      exact List.mem_append_right common mem
    have some_byte : (p.relativeTo (directory current) start).bytes ≠ [] := by
      rw [relativeTo_below leads begins]
      exact bytes_ofSteps_ne_nil false (ordinary base (by simp)).whole.1
    refine ⟨?_, fun root => absurd root (by simp), fun dir base' eq => ?_⟩
    · rw [direct.place?_eq some_byte common, List.append_assoc]
    · obtain ⟨rfl, same⟩ := List.append_inj' eq rfl
      obtain rfl := List.singleton_inj.1 same
      exact ⟨common, up, down, deep, rfl, rfl, direct⟩

/-- From `/home/me` two paths with detours, the second one up beyond the root: the way between their
places is straight. -/
theorem relative_path_around_detours :
    (ofString "../a/./b//../x.txt/").bytes ≠ [] ∧ (ofString "../../../srv/.").bytes ≠ [] ∧
      (ofString "../a/./b//../x.txt/").relativeTo (directory (ofString "/home/me"))
        (ofString "../../../srv/.") = ofString "../home/a/x.txt" ∧
      (ofString "../home/a/x.txt").place? [Utf8.bytes "srv"] =
        some [Utf8.bytes "home", Utf8.bytes "a", Utf8.bytes "x.txt"] := by
  have some_path : (ofString "../a/./b//../x.txt/").bytes ≠ [] := by decide
  have some_start : (ofString "../../../srv/.").bytes ≠ [] := by decide
  have straight : (ofString "../a/./b//../x.txt/").relativeTo (directory (ofString "/home/me"))
      (ofString "../../../srv/.") = ofString "../home/a/x.txt" := by decide
  have leads : (ofString "../a/./b//../x.txt/").place? (directory (ofString "/home/me")) =
      some [Utf8.bytes "home", Utf8.bytes "a", Utf8.bytes "x.txt"] := by decide
  have begins : (ofString "../../../srv/.").place? (directory (ofString "/home/me")) =
      some [Utf8.bytes "srv"] := by decide
  obtain ⟨place, origin, place_eq, origin_eq, back, -⟩ :=
    relative_path_leads_to_place (ofString "/home/me") _ _ some_path some_start
  obtain rfl := Option.some.inj (leads.symm.trans place_eq)
  obtain rfl := Option.some.inj (begins.symm.trans origin_eq)
  exact ⟨some_path, some_start, straight, straight ▸ back⟩

end Ferry.Files.Path
