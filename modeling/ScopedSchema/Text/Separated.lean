/-!
Text cut at a separator. Cutting is the inverse of joining, and every text has at least one part.
-/

namespace ScopedSchema

namespace Separated

/-- Cuts at every separator; the result is never empty. -/
def split (separator : Char) : List Char → List (List Char)
  | [] => [[]]
  | character :: rest =>
    if character = separator then [] :: split separator rest
    else
      match split separator rest with
      | [] => [[character]]
      | first :: others => (character :: first) :: others

def join (separator : Char) : List (List Char) → List Char
  | [] => []
  | [part] => part
  | part :: others => part ++ separator :: join separator others

theorem split_ne_nil (separator : Char) (text : List Char) : split separator text ≠ [] := by
  fun_induction split separator text <;> simp_all

theorem join_split (separator : Char) (text : List Char) :
    join separator (split separator text) = text := by
  fun_induction split separator text with
  | case1 => rfl
  | case2 rest induction =>
    cases cut : split separator rest with
    | nil => exact absurd cut (split_ne_nil separator rest)
    | cons first others =>
      rw [cut] at induction
      simp only [join, List.nil_append, induction]
  | case3 character rest _ empty => exact absurd empty (split_ne_nil separator rest)
  | case4 character rest _ first others cut induction =>
    rw [← induction, cut]
    cases others <;> simp [join]

theorem split_append_separator (separator : Char) (left right : List Char) :
    split separator (left ++ separator :: right) =
      split separator left ++ split separator right := by
  induction left with
  | nil => simp [split]
  | cons character rest induction =>
    by_cases same : character = separator
    · simp [split, same, induction]
    · simp only [List.cons_append, split, same, if_false, induction]
      cases cut : split separator rest with
      | nil => exact absurd cut (split_ne_nil separator rest)
      | cons first others => simp

end Separated

end ScopedSchema
