/-!
Values under names, each name once, in ascending order of names. Two maps that give the same answer
for every name are the same map.
-/
namespace Ferry

/-- Puts a value under a name into a list in ascending order of names, in place of one already
there. -/
def insertNamed {α : Type} (name : String) (a : α) : List (String × α) → List (String × α)
  | [] => [(name, a)]
  | (n, b) :: rest =>
    if name < n then (name, a) :: (n, b) :: rest
    else if name = n then (name, a) :: rest
    else (n, b) :: insertNamed name a rest

theorem name_lt_of_not {a b : String} (h : ¬ a < b) (ne : a ≠ b) : b < a :=
  Std.lt_of_le_of_ne (String.not_lt.1 h) ne.symm

theorem mem_insertNamed {α : Type} {name : String} {a : α} {x : String × α} :
    ∀ {l : List (String × α)}, x ∈ insertNamed name a l → x = (name, a) ∨ x ∈ l
  | [], h => by simpa [insertNamed] using h
  | (n, b) :: rest, h => by
    simp only [insertNamed] at h
    split at h
    · simpa using h
    · split at h
      · rcases List.mem_cons.1 h with h | h
        · exact .inl h
        · exact .inr (List.mem_cons_of_mem _ h)
      · rcases List.mem_cons.1 h with h | h
        · exact .inr (h ▸ List.mem_cons_self)
        · rcases mem_insertNamed h with h | h
          · exact .inl h
          · exact .inr (List.mem_cons_of_mem _ h)

theorem insertNamed_pairwise {α : Type} (name : String) (a : α) :
    ∀ {l : List (String × α)}, l.Pairwise (fun x y => x.1 < y.1) →
      (insertNamed name a l).Pairwise (fun x y => x.1 < y.1)
  | [], _ => by simp [insertNamed]
  | (n, b) :: rest, h => by
    obtain ⟨first, others⟩ := List.pairwise_cons.1 h
    simp only [insertNamed]
    split
    · rename_i less
      refine List.pairwise_cons.2 ⟨fun x hx => ?_, h⟩
      rcases List.mem_cons.1 hx with rfl | hx
      · exact less
      · exact String.lt_trans less (first x hx)
    · split
      · rename_i same
        subst same
        exact List.pairwise_cons.2 ⟨first, others⟩
      · rename_i notLess ne
        refine List.pairwise_cons.2 ⟨fun x hx => ?_, insertNamed_pairwise name a others⟩
        rcases mem_insertNamed hx with rfl | hx
        · exact name_lt_of_not notLess ne
        · exact first x hx

theorem lookup_insertNamed {α : Type} (name : String) (a : α) (other : String) :
    ∀ l : List (String × α),
      (insertNamed name a l).lookup other = if other = name then some a else l.lookup other
  | [] => by
    by_cases h : other = name <;> simp [insertNamed, List.lookup_cons, h]
    simp [beq_false_of_ne h]
  | (n, b) :: rest => by
    have ih := lookup_insertNamed name a other rest
    simp only [insertNamed]
    split
    · by_cases h : other = name
      · simp [h]
      · simp [List.lookup_cons, beq_false_of_ne h, h]
    · split
      · rename_i same
        subst same
        by_cases h : other = name
        · simp [h]
        · simp [List.lookup_cons, beq_false_of_ne h, h]
      · rename_i ne
        by_cases h : other = n
        · subst h
          simp [Ne.symm ne]
        · simp only [List.lookup_cons, beq_false_of_ne h]
          exact ih

/-- Values under names. -/
structure NameMap (α : Type) where
  entries : List (String × α)
  ascending : entries.Pairwise (fun x y => x.1 < y.1)

namespace NameMap

variable {α : Type}

/-- No values. -/
def empty : NameMap α := ⟨[], .nil⟩

/-- Sets the value under a name. -/
def insert (m : NameMap α) (name : String) (a : α) : NameMap α :=
  ⟨insertNamed name a m.entries, insertNamed_pairwise name a m.ascending⟩

/-- The map of a list; of several values with one name the last stays. -/
def ofList (l : List (String × α)) : NameMap α :=
  l.foldl (fun m (name, a) => m.insert name a) empty

/-- The value under a name. -/
def get? (m : NameMap α) (name : String) : Option α := m.entries.lookup name

theorem get?_insert (m : NameMap α) (name : String) (a : α) (other : String) :
    (m.insert name a).get? other = if other = name then some a else m.get? other :=
  lookup_insertNamed name a other m.entries

theorem lookup_eq_none_of_lt {name : String} :
    ∀ {l : List (String × α)}, (∀ x ∈ l, name < x.1) → l.lookup name = none
  | [], _ => rfl
  | (n, b) :: rest, h => by
    have less : name < n := h (n, b) List.mem_cons_self
    have ne : name ≠ n := fun e => String.lt_irrefl n (e ▸ less)
    simp only [List.lookup_cons, beq_false_of_ne ne]
    exact lookup_eq_none_of_lt fun x hx => h x (List.mem_cons_of_mem _ hx)

theorem eq_of_lookup_eq : ∀ {l k : List (String × α)},
    l.Pairwise (fun x y => x.1 < y.1) → k.Pairwise (fun x y => x.1 < y.1) →
      (∀ name, l.lookup name = k.lookup name) → l = k
  | [], [], _, _, _ => rfl
  | [], (n, b) :: k, _, _, h => by simpa using h n
  | (n, a) :: l, [], _, _, h => by simpa using h n
  | (n, a) :: l, (m, b) :: k, hl, hk, h => by
    obtain ⟨firstL, restL⟩ := List.pairwise_cons.1 hl
    obtain ⟨firstK, restK⟩ := List.pairwise_cons.1 hk
    have same : n = m := by
      apply Classical.byContradiction
      intro ne
      rcases (Classical.em (n < m)).imp_right (name_lt_of_not · ne) with less | less
      · have none : ((m, b) :: k).lookup n = none := lookup_eq_none_of_lt fun x hx => by
          rcases List.mem_cons.1 hx with rfl | hx
          · exact less
          · exact String.lt_trans less (firstK x hx)
        rw [← h n] at none
        simp at none
      · have none : ((n, a) :: l).lookup m = none := lookup_eq_none_of_lt fun x hx => by
          rcases List.mem_cons.1 hx with rfl | hx
          · exact less
          · exact String.lt_trans less (firstL x hx)
        rw [h m] at none
        simp at none
    subst same
    have values : a = b := by simpa using h n
    have rests : l = k := eq_of_lookup_eq restL restK fun name => by
      by_cases e : name = n
      · rw [e, lookup_eq_none_of_lt firstL, lookup_eq_none_of_lt firstK]
      · simpa [List.lookup_cons, beq_false_of_ne e] using h name
    rw [values, rests]

/-- Two maps with the same answers are the same. -/
theorem ext_get? {m k : NameMap α} (h : ∀ name, m.get? name = k.get? name) : m = k := by
  obtain ⟨l, ascL⟩ := m
  obtain ⟨r, ascR⟩ := k
  obtain rfl := eq_of_lookup_eq ascL ascR h
  rfl

end NameMap
end Ferry
