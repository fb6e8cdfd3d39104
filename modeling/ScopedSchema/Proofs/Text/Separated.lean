import ScopedSchema.Text.Separated

/-!
# Parts of separated text

No part of a text has the separator in it, and cutting is the inverse of joining such parts.
-/

namespace ScopedSchema

namespace Separated

variable {separator : Char}

theorem not_mem_of_mem_split {part text : List Char}
    (member : part ∈ split separator text) : separator ∉ part := by
  fun_induction split separator text generalizing part with
  | case1 =>
      rw [List.mem_singleton.mp member]
      exact List.not_mem_nil
  | case2 rest induction =>
      rcases List.mem_cons.mp member with empty | later
      · rw [empty]
        exact List.not_mem_nil
      · exact induction later
  | case3 character rest _ empty => exact absurd empty (split_ne_nil separator rest)
  | case4 character rest different first others cut induction =>
      rw [cut] at induction
      rcases List.mem_cons.mp member with same | later
      · rw [same]
        have free := induction List.mem_cons_self
        simp only [List.mem_cons, not_or]
        exact ⟨fun equal => different equal.symm, free⟩
      · exact induction (List.mem_cons_of_mem _ later)

theorem split_of_not_mem {text : List Char} (free : separator ∉ text) :
    split separator text = [text] := by
  induction text with
  | nil => rfl
  | cons character rest induction =>
      simp only [List.mem_cons, not_or] at free
      have different : character ≠ separator := fun same => free.1 same.symm
      rw [split, if_neg different, induction free.2]

theorem join_cons (part : List Char) {others : List (List Char)} (more : others ≠ []) :
    join separator (part :: others) = part ++ separator :: join separator others := by
  cases others with
  | nil => exact absurd rfl more
  | cons first rest => rfl

theorem join_append {parts others : List (List Char)} (some : parts ≠ []) (more : others ≠ []) :
    join separator (parts ++ others) =
      join separator parts ++ separator :: join separator others := by
  induction parts with
  | nil => exact absurd rfl some
  | cons part rest induction =>
      rw [List.cons_append]
      cases rest with
      | nil => exact join_cons part more
      | cons next later =>
          rw [join_cons part (by simp), induction (by simp), join_cons part (by simp),
            List.append_assoc, List.cons_append]

/-- Joining is the inverse of cutting, too. -/
theorem split_join {parts : List (List Char)} (some : parts ≠ [])
    (free : ∀ part ∈ parts, separator ∉ part) : split separator (join separator parts) = parts := by
  induction parts with
  | nil => exact absurd rfl some
  | cons part rest induction =>
      rw [List.forall_mem_cons] at free
      cases rest with
      | nil => exact split_of_not_mem free.1
      | cons next later =>
          rw [join_cons part (by simp), split_append_separator, split_of_not_mem free.1,
            induction (by simp) free.2]
          rfl

theorem head?_split_cons {character : Char} (rest : List Char) (other : character ≠ separator) :
    (split separator (character :: rest)).head? =
      (split separator rest).head?.map (List.cons character) := by
  rw [split, if_neg other]
  cases cut : split separator rest with
  | nil => exact absurd cut (split_ne_nil separator rest)
  | cons first others => rfl

theorem head?_split_eq_nil {text : List Char} (first : (split separator text).head? = some []) :
    text = [] ∨ ∃ rest, text = separator :: rest := by
  cases text with
  | nil => exact Or.inl rfl
  | cons character rest =>
      by_cases same : character = separator
      · exact Or.inr ⟨rest, by rw [same]⟩
      · rw [head?_split_cons rest same, Option.map_eq_some_iff] at first
        obtain ⟨_, _, filled⟩ := first
        cases filled

theorem head?_split_eq_singleton {character : Char} {text : List Char}
    (first : (split separator text).head? = some [character]) :
    text = [character] ∨ ∃ rest, text = character :: separator :: rest := by
  cases text with
  | nil => cases first
  | cons head rest =>
      have further : head ≠ separator := by
        intro same
        rw [same, split, if_pos rfl] at first
        cases first
      rw [head?_split_cons rest further, Option.map_eq_some_iff] at first
      obtain ⟨part, found, same⟩ := first
      obtain ⟨head, empty⟩ := List.cons.inj same
      rw [empty] at found
      rcases head?_split_eq_nil found with none | ⟨later, cut⟩
      · exact Or.inl (by rw [head, none])
      · exact Or.inr ⟨later, by rw [head, cut]⟩

end Separated

end ScopedSchema
