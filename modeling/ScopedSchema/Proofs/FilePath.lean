import Mathlib.Data.List.TakeWhile
import ScopedSchema.FilePath
import ScopedSchema.Proofs.Text.Separated

/-!
# The directories around a path

The text of a path is its start and its parts, and the directories around the path are the paths of
the same start and of fewer parts. So the directories around the innermost one are the others, and
each of them leads to the next by one more name, with single dots before it at most.
-/

namespace ScopedSchema

namespace FilePath

theorem ext_toList {path other : FilePath} (same : path.text.toList = other.text.toList) :
    path = other := by
  cases path
  cases other
  exact congrArg FilePath.mk (String.toList_inj.mp same)

/-! ## Parts -/

/-- The path that begins with `start` and goes on with the parts, the last of them first. -/
def ofParts (start : List Char) (parts : List (List Char)) : FilePath :=
  ⟨String.ofList (start ++ Separated.join '/' parts.reverse)⟩

theorem toList_ofParts (start : List Char) (parts : List (List Char)) :
    (ofParts start parts).text.toList = start ++ Separated.join '/' parts.reverse :=
  String.toList_ofList

/-- What may follow a start: behind a dot stands a slash, and what follows nothing must not be taken
for a start. -/
inductive Follows : List Char → List (List Char) → Prop
  | absolute {parts : List (List Char)} (free : ∀ part ∈ parts, '/' ∉ part) : Follows ['/'] parts
  | dotted {parts : List (List Char)} (free : ∀ part ∈ parts, '/' ∉ part)
      (first : ∀ part ∈ parts.getLast?, part = []) : Follows ['.'] parts
  | plain {parts : List (List Char)} (free : ∀ part ∈ parts, '/' ∉ part)
      (first : ∀ part ∈ parts.getLast?, part ≠ [] ∧ part ≠ ['.']) : Follows [] parts

theorem Follows.free {start : List Char} {parts : List (List Char)}
    (follows : Follows start parts) : ∀ part ∈ parts, '/' ∉ part := by
  cases follows <;> assumption

/-- Parts may be taken away at the end of the path. -/
theorem Follows.of_suffix {start : List Char} {parts others : List (List Char)}
    (follows : Follows start parts) (suffix : others <:+ parts) : Follows start others := by
  have free : ∀ part ∈ others, '/' ∉ part := fun part member =>
    follows.free part (suffix.subset member)
  have first : ∀ part ∈ others.getLast?, part ∈ parts.getLast? := by
    intro part member
    obtain ⟨before, same⟩ := suffix
    rw [← same, List.getLast?_append, member]
    rfl
  cases follows with
  | absolute _ => exact .absolute free
  | dotted _ empty => exact .dotted free fun part member => empty part (first part member)
  | plain _ named => exact .plain free fun part member => named part (first part member)

theorem splitStart_append (text : List Char) :
    (splitStart text).1 ++ (splitStart text).2 = text := by
  fun_cases splitStart text <;> rfl

theorem ofParts_reversedParts (path : FilePath) :
    ofParts (splitStart path.text.toList).1 path.reversedParts = path := by
  apply ext_toList
  rw [toList_ofParts, reversedParts, List.reverse_reverse, Separated.join_split,
    splitStart_append]

theorem splitStart_of_plain {text : List Char}
    (first : ∀ part ∈ (Separated.split '/' text).head?, part ≠ [] ∧ part ≠ ['.']) :
    splitStart text = ([], text) := by
  fun_cases splitStart text with
  | case1 rest => exact absurd rfl (first [] (by simp [Separated.split])).1
  | case2 => exact absurd rfl (first ['.'] (by simp [Separated.split])).2
  | case3 rest => exact absurd rfl (first ['.'] (by simp [Separated.split])).2
  | case4 => rfl

theorem follows_reversedParts {path : FilePath} (filled : path.text ≠ "") :
    Follows (splitStart path.text.toList).1 path.reversedParts := by
  have free : ∀ text : List Char, ∀ part ∈ (Separated.split '/' text).reverse, '/' ∉ part := by
    intro text part member
    exact Separated.not_mem_of_mem_split (List.mem_reverse.mp member)
  have more : path.text.toList ≠ [] := by
    intro empty
    exact filled (String.toList_inj.mp empty)
  unfold reversedParts
  generalize path.text.toList = text at more
  fun_cases splitStart text with
  | case1 rest => exact .absolute (free rest)
  | case2 => exact .dotted (free []) (by simp [Separated.split])
  | case3 rest => exact .dotted (free ('/' :: rest)) (by simp [Separated.split])
  | case4 text absolute dot dotted =>
      refine .plain (free text) fun part member => ?_
      rw [List.getLast?_reverse] at member
      constructor
      · intro empty
        rw [empty] at member
        rcases Separated.head?_split_eq_nil member with none | ⟨rest, cut⟩
        · exact more none
        · exact absolute rest cut
      · intro single
        rw [single] at member
        rcases Separated.head?_split_eq_singleton member with same | ⟨rest, cut⟩
        · exact dot same
        · exact dotted rest cut

/-- Every path but the empty one has a start and parts. -/
theorem exists_ofParts {path : FilePath} (filled : path.text ≠ "") :
    ∃ start parts, Follows start parts ∧ ofParts start parts = path :=
  ⟨_, _, follows_reversedParts filled, ofParts_reversedParts path⟩

theorem splitStart_ofParts {start : List Char} {parts : List (List Char)}
    (follows : Follows start parts) (some : parts ≠ []) :
    splitStart (ofParts start parts).text.toList =
      (start, Separated.join '/' parts.reverse) := by
  have more : parts.reverse ≠ [] := by simpa using some
  rw [toList_ofParts]
  cases follows with
  | absolute free => rfl
  | dotted free first =>
      obtain ⟨part, others, split⟩ := List.exists_cons_of_ne_nil more
      have empty : part = [] := by
        apply first
        rw [← List.head?_reverse, split]
        rfl
      rw [split, empty]
      cases others <;> rfl
  | plain free first =>
      apply splitStart_of_plain
      have cut := Separated.split_join more fun part member =>
        free part (List.mem_reverse.mp member)
      rw [List.nil_append, cut, List.head?_reverse]
      exact first

/-- The parts are found again. -/
theorem reversedParts_ofParts {start : List Char} {parts : List (List Char)}
    (follows : Follows start parts) (some : parts ≠ []) :
    (ofParts start parts).reversedParts = parts := by
  rw [reversedParts, splitStart_ofParts follows some, Separated.split_join (by simpa using some)
    fun part member => follows.free part (List.mem_reverse.mp member), List.reverse_reverse]

theorem counts_of_head?_dropWhile {parts : List (List Char)} :
    ∀ part ∈ (parts.dropWhile fun part => !counts part).head?, counts part = true := by
  intro part member
  have stopped := List.head?_dropWhile_not (fun part => !counts part) parts
  rw [Option.mem_def.mp member] at stopped
  simpa using stopped

theorem outerParts_dropWhile (parts : List (List Char)) :
    outerParts (parts.dropWhile fun part => !counts part) = outerParts parts := by
  induction parts with
  | nil => rfl
  | cons part outer induction =>
      by_cases named : counts part = true
      · rw [List.dropWhile_cons_of_neg (by simp [named])]
      · rw [List.dropWhile_cons_of_pos (by simpa using named), induction, outerParts, if_neg named]

/-- The empty path is around a path that begins with a dot. -/
def outermost (start : List Char) : List FilePath := if start = ['.'] then [⟨""⟩] else []

theorem parents_ofParts {start : List Char} {parts : List (List Char)}
    (follows : Follows start parts) :
    (ofParts start parts).parents = (outerParts parts).map (ofParts start) ++ outermost start := by
  cases parts with
  | nil => cases follows <;> rfl
  | cons part outer =>
      have parsed := splitStart_ofParts follows (List.cons_ne_nil part outer)
      have parts := reversedParts_ofParts follows (List.cons_ne_nil part outer)
      rw [parents, parsed, parts, outermost]
      by_cases dotted : start = ['.']
      · simp only [if_pos dotted]
        rfl
      · simp only [if_neg dotted, List.append_nil]
        rfl

/-- Single dots and empty parts at the end do not count. -/
theorem parents_ofParts_dropWhile {start : List Char} {parts : List (List Char)}
    (follows : Follows start parts) :
    (ofParts start (parts.dropWhile fun part => !counts part)).parents =
      (ofParts start parts).parents := by
  rw [parents_ofParts (follows.of_suffix (List.dropWhile_suffix _)), parents_ofParts follows,
    outerParts_dropWhile]

/-! ## Names -/

theorem isAbsolute_iff {path : FilePath} :
    path.isAbsolute = true ↔ (splitStart path.text.toList).1 = ['/'] := by
  unfold isAbsolute
  generalize path.text.toList = text
  fun_cases splitStart text with
  | case1 rest => simp
  | case2 => simp
  | case3 rest => simp
  | case4 text absolute _ _ =>
      cases text with
      | nil => simp
      | cons character rest =>
          have other : character ≠ '/' := fun same => absolute rest (by rw [same])
          simp [other]

theorem isAbsolute_ofParts {start : List Char} {parts : List (List Char)}
    (follows : Follows start parts) : (ofParts start parts).isAbsolute = (start == ['/']) := by
  cases parts with
  | nil => cases follows <;> rfl
  | cons part outer =>
      rw [Bool.eq_iff_iff, isAbsolute_iff, splitStart_ofParts follows (List.cons_ne_nil part outer),
        beq_iff_eq]

theorem filter_split_join {parts : List (List Char)} (free : ∀ part ∈ parts, '/' ∉ part) :
    (Separated.split '/' (Separated.join '/' parts)).filter (fun part => !part.isEmpty) =
      parts.filter fun part => !part.isEmpty := by
  cases parts with
  | nil => rfl
  | cons part outer => rw [Separated.split_join (List.cons_ne_nil part outer) free]

theorem names_ofParts {start : List Char} {parts : List (List Char)}
    (follows : Follows start parts) :
    (ofParts start parts).names = (if start = ['.'] then ["."] else []) ++
      (parts.reverse.filter fun part => !part.isEmpty).map String.ofList := by
  have free : ∀ part ∈ parts.reverse, '/' ∉ part := fun part member =>
    follows.free part (List.mem_reverse.mp member)
  rw [names, toList_ofParts]
  cases follows with
  | absolute _ =>
      have cut : Separated.split '/' (['/'] ++ Separated.join '/' parts.reverse) =
          [] :: Separated.split '/' (Separated.join '/' parts.reverse) :=
        Separated.split_append_separator '/' [] _
      rw [cut, List.filter_cons_of_neg (by simp), filter_split_join free]
      rfl
  | dotted _ first =>
      rw [← List.head?_reverse] at first
      cases split : parts.reverse with
      | nil => rfl
      | cons part others =>
          have empty : part = [] := first part (by rw [split]; rfl)
          rw [split] at free
          rw [empty]
          cases others with
          | nil => rfl
          | cons next later =>
              have cut : Separated.split '/' (['.'] ++ Separated.join '/' ([] :: next :: later)) =
                  ['.'] :: Separated.split '/' (Separated.join '/' (next :: later)) :=
                Separated.split_append_separator '/' ['.'] _
              rw [cut, List.filter_cons_of_pos (by simp), List.filter_cons_of_neg (by simp),
                filter_split_join (List.forall_mem_cons.mp free).2]
              rfl
  | plain _ _ =>
      rw [List.nil_append, filter_split_join free]
      rfl

/-- The way through a path is the way through the directory right around it, single dots, and one
more name. -/
structure Inside (outer path : FilePath) : Prop where
  isAbsolute : path.isAbsolute = outer.isAbsolute
  text : ∃ rest, path.text = outer.text ++ rest
  names : ∃ dots name, (∀ dot ∈ dots, dot = ".") ∧ path.names = outer.names ++ dots ++ [name]

/-- The directories around one another, up to the empty path or to one that always exists. -/
inductive Nest : List FilePath → Prop
  | empty (around : List FilePath) : Nest (⟨""⟩ :: around)
  | ground {path : FilePath} (around : List FilePath) :
      path.text ≠ "" → (∀ name ∈ path.names, name = ".") → Nest (path :: around)
  | inside {path outer : FilePath} {around : List FilePath} :
      Inside outer path → Nest (outer :: around) → Nest (path :: outer :: around)

theorem text_ofParts_of_suffix (start : List Char) {parts others : List (List Char)}
    (suffix : others <:+ parts) :
    ∃ rest, (ofParts start parts).text = (ofParts start others).text ++ rest := by
  obtain ⟨before, same⟩ := suffix
  have begins : ∃ rest, Separated.join '/' parts.reverse =
      Separated.join '/' others.reverse ++ rest := by
    rw [← same, List.reverse_append]
    by_cases none : others.reverse = []
    · exact ⟨Separated.join '/' before.reverse, by rw [none]; rfl⟩
    · by_cases more : before.reverse = []
      · exact ⟨[], by rw [more, List.append_nil, List.append_nil]⟩
      · exact ⟨_, Separated.join_append none more⟩
  obtain ⟨rest, joined⟩ := begins
  refine ⟨String.ofList rest, ?_⟩
  rw [ofParts, ofParts, joined, ← List.append_assoc, String.ofList_append]

section

variable {start : List Char}

theorem names_ofParts_nil (follows : Follows start []) :
    ∀ name ∈ (ofParts start []).names, name = "." := by
  cases follows <;> decide

theorem names_ofParts_cons {part : List Char} {outer : List (List Char)}
    (follows : Follows start (part :: outer)) (named : counts part = true) :
    (ofParts start (part :: outer)).names =
      (ofParts start outer).names ++ [String.ofList part] := by
  have single : [part].filter (fun part => !part.isEmpty) = [part] := by
    unfold counts at named
    exact List.filter_cons_of_pos (Bool.and_eq_true_iff.mp named).1
  rw [names_ofParts follows, names_ofParts (follows.of_suffix (List.suffix_cons part outer)),
    List.reverse_cons, List.filter_append, single, List.map_append, List.append_assoc]
  rfl

/-- What does not count among the parts is empty or a single dot. -/
theorem exists_dots_dropWhile {parts : List (List Char)} (follows : Follows start parts) :
    ∃ dots, (∀ dot ∈ dots, dot = ".") ∧
      (ofParts start parts).names =
        (ofParts start (parts.dropWhile fun part => !counts part)).names ++ dots := by
  have cut : parts.reverse = (parts.dropWhile fun part => !counts part).reverse ++
      (parts.takeWhile fun part => !counts part).reverse := by
    rw [← List.reverse_append, List.takeWhile_append_dropWhile]
  refine ⟨((parts.takeWhile fun part => !counts part).reverse.filter fun part =>
    !part.isEmpty).map String.ofList, ?_, ?_⟩
  · intro dot member
    obtain ⟨part, inside, same⟩ := List.mem_map.mp member
    obtain ⟨listed, filled⟩ := List.mem_filter.mp inside
    have uncounted : counts part = false := by
      simpa using List.mem_takeWhile_imp (List.mem_reverse.mp listed)
    have single : part = ['.'] := by simpa [counts, filled] using uncounted
    rw [← same, single]
  · rw [names_ofParts follows, names_ofParts (follows.of_suffix (List.dropWhile_suffix _)), cut,
      List.filter_append, List.map_append, List.append_assoc]

theorem inside_ofParts {part : List Char} {outer : List (List Char)}
    (follows : Follows start (part :: outer)) (named : counts part = true) :
    Inside (ofParts start (outer.dropWhile fun part => !counts part))
      (ofParts start (part :: outer)) := by
  have around := follows.of_suffix (List.suffix_cons part outer)
  have suffix := List.dropWhile_suffix (fun part => !counts part) (l := outer)
  obtain ⟨dots, idle, names⟩ := exists_dots_dropWhile around
  refine ⟨?_, text_ofParts_of_suffix start (suffix.trans (List.suffix_cons part outer)), dots,
    String.ofList part, idle, ?_⟩
  · rw [isAbsolute_ofParts follows, isAbsolute_ofParts (around.of_suffix suffix)]
  · rw [names_ofParts_cons follows named, names]

theorem parents_ofParts_cons {part : List Char} {outer : List (List Char)}
    (follows : Follows start (part :: outer)) (named : counts part = true) :
    (ofParts start (part :: outer)).parents =
      ofParts start (outer.dropWhile fun part => !counts part) ::
        (ofParts start (outer.dropWhile fun part => !counts part)).parents := by
  have suffix : (outer.dropWhile fun part => !counts part) <:+ part :: outer :=
    (List.dropWhile_suffix _).trans (List.suffix_cons part outer)
  rw [parents_ofParts follows, parents_ofParts (follows.of_suffix suffix), outerParts,
    if_pos named, outerParts_dropWhile]
  rfl

/-- The directories around a path are the innermost one and those around it. -/
theorem parents_eq_cons {path outer : FilePath} {around : List FilePath}
    (parents : path.parents = outer :: around) : outer.parents = around := by
  have filled : path.text ≠ "" := by
    intro empty
    have none : path.parents = [] := by
      rw [FilePath.parents, FilePath.reversedParts, empty]
      rfl
    rw [none] at parents
    cases parents
  obtain ⟨start, parts, follows, rfl⟩ := exists_ofParts filled
  have follows' := follows.of_suffix (List.dropWhile_suffix fun part => !counts part)
  have named : ∀ part ∈ (parts.dropWhile fun part => !counts part).head?, counts part = true :=
    counts_of_head?_dropWhile
  rw [← parents_ofParts_dropWhile follows] at parents
  generalize (parts.dropWhile fun part => !counts part) = kept at parents follows' named
  cases kept with
  | nil =>
      rw [parents_ofParts follows', outermost] at parents
      by_cases dotted : start = ['.']
      · rw [if_pos dotted] at parents
        obtain ⟨same, none⟩ := List.cons.inj parents
        rw [← same, ← none]
        rfl
      · rw [if_neg dotted] at parents
        cases parents
  | cons part rest =>
      rw [parents_ofParts_cons follows' (named part rfl)] at parents
      obtain ⟨same, others⟩ := List.cons.inj parents
      rw [← same, others]

theorem nest_ofParts {parts : List (List Char)} (follows : Follows start parts)
    (named : ∀ part ∈ parts.head?, counts part = true) :
    Nest (ofParts start parts :: (ofParts start parts).parents) := by
  generalize size : parts.length = length
  induction length using Nat.strongRecOn generalizing parts with
  | _ length induction =>
      cases parts with
      | nil =>
          cases follows with
          | absolute _ => exact .ground _ (by decide) (by decide)
          | dotted _ _ => exact .ground _ (by decide) (by decide)
          | plain _ _ => exact .empty _
      | cons part outer =>
          have counted := named part rfl
          have suffix := List.dropWhile_suffix (fun part => !counts part) (l := outer)
          have shorter : (outer.dropWhile fun part => !counts part).length < length := by
            have bound := suffix.length_le
            rw [List.length_cons] at size
            omega
          rw [parents_ofParts_cons follows counted]
          exact .inside (inside_ofParts follows counted) (induction _ shorter
            (follows.of_suffix (suffix.trans (List.suffix_cons part outer)))
            counts_of_head?_dropWhile rfl)

end

/-- The directories around a path that does not end in a single dot lie around one another, and the
innermost lies right around the path. -/
theorem nest_parents {path : FilePath} (filled : path.text ≠ "")
    (last : path.names.getLast? ≠ some ".") : Nest (path :: path.parents) := by
  obtain ⟨start, parts, follows, rfl⟩ := exists_ofParts filled
  have suffix := List.dropWhile_suffix (fun part => !counts part) (l := parts)
  have follows' := follows.of_suffix suffix
  have first : ∀ part ∈ (parts.dropWhile fun part => !counts part).head?, counts part = true :=
    counts_of_head?_dropWhile
  obtain ⟨dots, idle, names⟩ := exists_dots_dropWhile follows
  rw [← parents_ofParts_dropWhile follows]
  generalize (parts.dropWhile fun part => !counts part) = kept at suffix follows' first names ⊢
  cases kept with
  | nil =>
      refine .ground _ filled fun name member => ?_
      rw [names] at member
      rcases List.mem_append.mp member with begins | later
      · exact names_ofParts_nil follows' name begins
      · exact idle name later
  | cons part outer =>
      have named := first part rfl
      have none : dots = [] := by
        rcases List.eq_nil_or_concat dots with none | ⟨front, dot, some⟩
        · exact none
        · rw [some, idle dot (by simp [some])] at names
          exact absurd (by simp [names]) last
      have inside := inside_ofParts follows' named
      rw [none, List.append_nil] at names
      rw [parents_ofParts_cons follows' named]
      refine .inside ⟨?_, ?_, ?_⟩ (nest_ofParts ?_ ?_)
      · rw [← inside.isAbsolute, isAbsolute_ofParts follows', isAbsolute_ofParts follows]
      · obtain ⟨rest, same⟩ := inside.text
        obtain ⟨later, more⟩ := text_ofParts_of_suffix start suffix
        exact ⟨rest ++ later, by rw [more, same, String.append_assoc]⟩
      · rw [names]
        exact inside.names
      · exact follows'.of_suffix ((List.dropWhile_suffix _).trans (List.suffix_cons part outer))
      · exact counts_of_head?_dropWhile

/-! ## Outer directories -/

theorem exists_suffix_of_mem_outerParts {parts others : List (List Char)}
    (member : others ∈ outerParts parts) :
    ∃ part rest, counts part = true ∧ others <:+ rest ∧ part :: rest <:+ parts := by
  induction parts with
  | nil => cases member
  | cons part outer induction =>
      have deeper : others ∈ outerParts outer → ∃ inner rest, counts inner = true ∧
          others <:+ rest ∧ inner :: rest <:+ part :: outer := by
        intro further
        obtain ⟨inner, rest, counted, shorter, suffix⟩ := induction further
        exact ⟨inner, rest, counted, shorter, suffix.trans (List.suffix_cons part outer)⟩
      rw [outerParts] at member
      by_cases counted : counts part = true
      · rw [if_pos counted] at member
        rcases List.mem_cons.mp member with same | further
        · exact ⟨part, outer, counted, same ▸ List.dropWhile_suffix _, List.suffix_rfl⟩
        · exact deeper further
      · rw [if_neg counted] at member
        exact deeper member

/-- The names of a directory around a path begin those of the path, and the path goes on. -/
theorem names_of_mem_parents {path outer : FilePath} (member : outer ∈ path.parents) :
    path.isAbsolute = outer.isAbsolute ∧
      ∃ name rest, path.names = outer.names ++ name :: rest := by
  have filled : path.text ≠ "" := by
    intro empty
    have none : path.parents = [] := by
      rw [FilePath.parents, FilePath.reversedParts, empty]
      rfl
    rw [none] at member
    cases member
  obtain ⟨start, parts, follows, rfl⟩ := exists_ofParts filled
  rw [parents_ofParts follows] at member
  rcases List.mem_append.mp member with around | last
  · obtain ⟨others, inside, rfl⟩ := List.mem_map.mp around
    obtain ⟨part, rest, counted, ⟨between, joined⟩, ⟨before, split⟩⟩ :=
      exists_suffix_of_mem_outerParts inside
    have suffix : others <:+ parts :=
      ⟨before ++ part :: between, by rw [← split, ← joined]; simp⟩
    have kept : part ∈ (between.reverse ++ part :: before.reverse).filter
        fun part => !part.isEmpty := by
      unfold counts at counted
      exact List.mem_filter.mpr ⟨by simp, (Bool.and_eq_true_iff.mp counted).1⟩
    obtain ⟨first, further, more⟩ := List.exists_cons_of_ne_nil (List.ne_nil_of_mem kept)
    refine ⟨?_, String.ofList first, further.map String.ofList, ?_⟩
    · rw [isAbsolute_ofParts follows, isAbsolute_ofParts (follows.of_suffix suffix)]
    · have reversed : parts.reverse =
          others.reverse ++ (between.reverse ++ part :: before.reverse) := by
        rw [← split, ← joined]
        simp
      rw [names_ofParts follows, names_ofParts (follows.of_suffix suffix), reversed,
        List.filter_append, more, List.map_append, List.map_cons, List.append_assoc]
  · unfold outermost at last
    by_cases dotted : start = ['.']
    · rw [if_pos dotted] at last
      rw [List.mem_singleton.mp last, isAbsolute_ofParts follows, names_ofParts follows, dotted]
      exact ⟨rfl, ".", _, rfl⟩
    · rw [if_neg dotted] at last
      cases last

/-! ## Files in a directory -/

theorem filter_split_append_slash (text rest : List Char) :
    (Separated.split '/' (text ++ '/' :: rest)).filter (fun part => !part.isEmpty) =
      (Separated.split '/' text).filter (fun part => !part.isEmpty) ++
        (Separated.split '/' rest).filter fun part => !part.isEmpty := by
  rw [Separated.split_append_separator, List.filter_append]

/-- A name may be joined to any directory. -/
structure IsFileName (name : String) : Prop where
  filled : name ≠ ""
  free : '/' ∉ name.toList

theorem IsFileName.not_isAbsolute {name : String} (named : IsFileName name) :
    (FilePath.mk name).isAbsolute = false := by
  cases absolute : (FilePath.mk name).isAbsolute with
  | false => rfl
  | true =>
      rw [isAbsolute, beq_iff_eq] at absolute
      exact absurd (List.mem_of_head? absolute) named.free

theorem names_join {name : String} (named : IsFileName name) (base : FilePath) :
    (base.join ⟨name⟩).names = base.names ++ [name] := by
  have single : (Separated.split '/' name.toList).filter (fun part => !part.isEmpty) =
      [name.toList] := by
    have more : name.toList ≠ [] := fun empty => named.filled (String.toList_inj.mp empty)
    rw [Separated.split_of_not_mem named.free]
    exact List.filter_cons_of_pos (by simpa using more)
  have alone : (Separated.split '/' ([] : List Char)).filter (fun part => !part.isEmpty) = [] :=
    rfl
  have restored : [name.toList].map String.ofList = [name] := by simp
  unfold join
  rw [if_neg (by simp [named.not_isAbsolute])]
  split
  · rename_i bare
    rw [names, names, String.toList_append]
    by_cases empty : base.text = ""
    · have none : base.text.toList = [] := by rw [empty]; rfl
      rw [none, List.nil_append, single, restored, alone]
      rfl
    · have slash : base.text.toList.getLast? = some '/' := by
        simpa [empty] using bare
      obtain ⟨front, ends⟩ := List.getLast?_eq_some_iff.mp slash
      rw [ends, List.append_assoc, List.singleton_append, filter_split_append_slash,
        filter_split_append_slash, alone, List.append_nil, single, List.map_append, restored]
  · have cut : (base.text ++ "/" ++ name).toList = base.text.toList ++ '/' :: name.toList := by
      rw [String.toList_append, String.toList_append, List.append_assoc]
      rfl
    rw [names, names, cut, filter_split_append_slash, single, List.map_append, restored]

theorem isAbsolute_join {name : String} (named : IsFileName name) (base : FilePath) :
    (base.join ⟨name⟩).isAbsolute = base.isAbsolute := by
  have relative := named.not_isAbsolute
  unfold join
  rw [if_neg (by simp [relative])]
  unfold isAbsolute at relative ⊢
  cases text : base.text.toList with
  | nil =>
      have empty : base.text.isEmpty = true := by simpa using text
      rw [if_pos (by rw [empty]; rfl), String.toList_append, text]
      exact relative
  | cons first rest =>
      split
      · rw [String.toList_append, text]
        rfl
      · rw [String.toList_append, String.toList_append, text]
        rfl

end FilePath

end ScopedSchema
