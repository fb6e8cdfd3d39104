import ScopedSchema.Proofs.Zod.Grammar
import ScopedSchema.Zod.CustomType

/-!
# What custom types are printed as

A name is read as a word or as a call with parameters, and what is not read stands for any value.
Parameters are judged by their outer form only: numbers by their digits, and patterns by the slashes
at their ends. So a custom type is printed as an expression of the grammar, and as the one that is
documented for it, exactly as long as what passes for a number or a pattern is a literal.
-/

namespace ScopedSchema

namespace CustomType

/-! ## Calls -/

theorem callArguments?_eq_some_iff {name text arguments : List Char} :
    callArguments? name text = some arguments ↔ text = name ++ '(' :: (arguments ++ [')']) := by
  unfold callArguments?
  constructor
  · intro found
    simp only [List.isPrefixOf_iff_prefix] at found
    split at found
    · rename_i opened
      obtain ⟨rest, rfl⟩ := opened
      rw [List.drop_left] at found
      split at found
      · rename_i reversed closed
        rw [← Option.some.inj found, ← List.reverse_reverse rest, closed]
        simp
      · cases found
    · cases found
  · rintro rfl
    have opened : (name ++ ['(']).isPrefixOf (name ++ '(' :: (arguments ++ [')'])) = true := by
      rw [List.isPrefixOf_iff_prefix]
      exact ⟨arguments ++ [')'], by simp⟩
    have left : (name ++ '(' :: (arguments ++ [')'])).drop (name ++ ['(']).length =
        arguments ++ [')'] := by
      simp
    simp only [opened, if_true, left]
    simp

theorem callArguments?_toList_iff {method name : String} {arguments : List Char} :
    callArguments? method.toList name.toList = some arguments ↔
      name = method ++ "(" ++ String.ofList arguments ++ ")" := by
  rw [callArguments?_eq_some_iff, ← String.toList_inj]
  simp

theorem callArguments?_call (method arguments : String) :
    callArguments? method.toList (method ++ "(" ++ arguments ++ ")").toList =
      some arguments.toList := by
  rw [callArguments?_toList_iff, String.ofList_toList]

theorem splitComma?_append {low : List Char} (free : ',' ∉ low) (high : List Char) :
    splitComma? (low ++ ',' :: high) = some (low, high) := by
  induction low with
  | nil => rfl
  | cons character rest induction =>
      simp only [List.mem_cons, not_or] at free
      rw [List.cons_append, splitComma?, induction free.2, Option.map_some]
      exact fun same => free.1 same.symm

theorem eq_append_of_splitComma? {text low high : List Char}
    (found : splitComma? text = some (low, high)) : text = low ++ ',' :: high := by
  fun_induction splitComma? text generalizing low with
  | case1 => cases found
  | case2 rest =>
      cases found
      rfl
  | case3 character rest _ induction =>
      obtain ⟨halves, inside, same⟩ := Option.map_eq_some_iff.mp found
      cases same
      rw [induction inside, List.cons_append]

theorem isDigits_iff {text : List Char} :
    isDigits text = true ↔ IsDigits (String.ofList text) := by
  simp [isDigits, IsDigits, ← String.toList_inj]

theorem isDigits_toList_iff {text : String} : isDigits text.toList = true ↔ IsDigits text := by
  rw [isDigits_iff, String.ofList_toList]

theorem isPattern_iff {text : List Char} :
    isPattern text = true ↔ IsSlashed (String.ofList text) := by
  unfold isPattern IsSlashed
  rw [String.toList_ofList]
  simp only [Bool.and_eq_true, decide_eq_true_eq, beq_iff_eq]
  constructor
  · rintro ⟨⟨long, first⟩, last⟩
    obtain ⟨rest, rfl⟩ := List.head?_eq_some_iff.mp first
    have filled : rest ≠ [] := by
      rintro rfl
      simp at long
    rw [List.getLast?_cons_of_ne_nil filled] at last
    obtain ⟨body, same⟩ := List.getLast?_eq_some_iff.mp last
    exact ⟨body, by rw [same]⟩
  · rintro ⟨body, rfl⟩
    simp [List.getLast?_cons]

/-! ## Readings -/

/-- The table of named types without a question mark: how a name is read and printed, given what
counts as a number and as a pattern. -/
inductive Reads (IsNumber IsPattern : String → Prop) : String → String → Prop
  | email : Reads IsNumber IsPattern "email" "z.string().email()"
  | uuid : Reads IsNumber IsPattern "uuid" "z.string().uuid()"
  | url : Reads IsNumber IsPattern "url" "z.string().url()"
  | currency : Reads IsNumber IsPattern "currency" "z.string().regex(/^[A-Z]\x7b3\x7d$/)"
  | nonempty : Reads IsNumber IsPattern "nonempty" "z.string().min(1)"
  | string : Reads IsNumber IsPattern "string" "z.string()"
  | number : Reads IsNumber IsPattern "number" "z.number()"
  | boolean : Reads IsNumber IsPattern "boolean" "z.boolean()"
  | length {low high : String} : IsNumber low → IsNumber high →
      Reads IsNumber IsPattern ("length(" ++ low ++ "," ++ high ++ ")")
        ("z.string().min(" ++ low ++ ").max(" ++ high ++ ")")
  | regex {pattern : String} : IsPattern pattern →
      Reads IsNumber IsPattern ("regex(" ++ pattern ++ ")")
        ("z.string().regex(" ++ pattern ++ ")")
  | bound {method limit : String} : method = "min" ∨ method = "max" → IsNumber limit →
      Reads IsNumber IsPattern (method ++ "(" ++ limit ++ ")")
        ("z.number()." ++ method ++ "(" ++ limit ++ ")")

theorem Reads.mono {IsNumber IsPattern IsNumber' IsPattern' : String → Prop} {name text : String}
    (reads : Reads IsNumber IsPattern name text)
    (numbers : ∀ number, IsNumber number → IsNumber' number)
    (patterns : ∀ pattern, IsPattern pattern → IsPattern' pattern) :
    Reads IsNumber' IsPattern' name text := by
  cases reads with
  | email => exact Reads.email
  | uuid => exact Reads.uuid
  | url => exact Reads.url
  | currency => exact Reads.currency
  | nonempty => exact Reads.nonempty
  | string => exact Reads.string
  | number => exact Reads.number
  | boolean => exact Reads.boolean
  | length low high => exact Reads.length (numbers _ low) (numbers _ high)
  | regex pattern => exact Reads.regex (patterns _ pattern)
  | bound name limit => exact Reads.bound name (numbers _ limit)

theorem Reads.ne_any {IsNumber IsPattern : String → Prop} {name text : String}
    (reads : Reads IsNumber IsPattern name text) : text ≠ "z.any()" := by
  intro same
  have begun := congrArg (fun text : String => text.toList.take 3) same
  cases reads <;> simp at begun

/-- A word is compared as a whole. -/
theorem word_eq_any_or_reads {IsNumber IsPattern : String → Prop} (name : String) :
    word name.toList = .any ∨ Reads IsNumber IsPattern name (word name.toList).text := by
  unfold word
  simp only [String.toList_inj]
  split
  · rename_i same
    exact Or.inr (same ▸ Reads.email)
  split
  · rename_i same
    exact Or.inr (same ▸ Reads.uuid)
  split
  · rename_i same
    exact Or.inr (same ▸ Reads.url)
  split
  · rename_i same
    exact Or.inr (same ▸ Reads.currency)
  split
  · rename_i same
    exact Or.inr (same ▸ Reads.nonempty)
  split
  · rename_i same
    exact Or.inr (same ▸ Reads.string)
  split
  · rename_i same
    exact Or.inr (same ▸ Reads.number)
  split
  · rename_i same
    exact Or.inr (same ▸ Reads.boolean)
  · exact Or.inl rfl

theorem length_eq_any_or_reads (name : String) :
    length name.toList = .any ∨ Reads IsDigits IsSlashed name (length name.toList).text := by
  unfold length
  cases called : callArguments? "length".toList name.toList with
  | none => exact Or.inl rfl
  | some arguments =>
      rw [Option.bind_some]
      cases cut : splitComma? arguments with
      | none => exact Or.inl rfl
      | some halves =>
          obtain ⟨low, high⟩ := halves
          by_cases digits : (isDigits low && isDigits high) = true
          · simp only [digits, if_true]
            rw [Bool.and_eq_true] at digits
            have written : name =
                "length(" ++ String.ofList low ++ "," ++ String.ofList high ++ ")" := by
              rw [callArguments?_toList_iff.mp called, eq_append_of_splitComma? cut,
                ← String.toList_inj]
              simp
            rw [written]
            exact Or.inr (Reads.length (isDigits_iff.mp digits.1) (isDigits_iff.mp digits.2))
          · simp only [digits]
            exact Or.inl rfl

theorem regex_eq_any_or_reads (name : String) :
    regex name.toList = .any ∨ Reads IsDigits IsSlashed name (regex name.toList).text := by
  unfold regex
  cases called : callArguments? "regex".toList name.toList with
  | none => exact Or.inl rfl
  | some pattern =>
      by_cases slashed : isPattern pattern = true
      · simp only [slashed, if_true]
        rw [callArguments?_toList_iff.mp called]
        exact Or.inr (Reads.regex (isPattern_iff.mp slashed))
      · simp only [slashed]
        exact Or.inl rfl

theorem reads_of_bound? {method name : String} {expr : Expr}
    (known : method = "min" ∨ method = "max") (found : bound? method name.toList = some expr) :
    Reads IsDigits IsSlashed name expr.text := by
  unfold bound? at found
  cases called : callArguments? method.toList name.toList with
  | none =>
      rw [called] at found
      cases found
  | some digits =>
      rw [called] at found
      by_cases number : isDigits digits = true
      · simp only [number, if_true] at found
        rw [callArguments?_toList_iff.mp called, ← Option.some.inj found]
        exact Reads.bound known (isDigits_iff.mp number)
      · simp only [number] at found
        cases found

theorem bound_eq_any_or_reads (name : String) :
    bound name.toList = .any ∨ Reads IsDigits IsSlashed name (bound name.toList).text := by
  unfold bound
  cases least : bound? "min" name.toList with
  | some expr => exact Or.inr (reads_of_bound? (Or.inl rfl) least)
  | none =>
      cases most : bound? "max" name.toList with
      | some expr => exact Or.inr (reads_of_bound? (Or.inr rfl) most)
      | none => exact Or.inl rfl

/-- What is not read stands for any value. -/
theorem base_eq_any_or_reads (name : String) :
    base name.toList = .any ∨ Reads IsDigits IsSlashed name (base name.toList).text := by
  unfold base
  split
  · exact length_eq_any_or_reads name
  split
  · exact regex_eq_any_or_reads name
  split
  · exact bound_eq_any_or_reads name
  · exact word_eq_any_or_reads name

theorem base_length {low high : String} (lowDigits : IsDigits low) (highDigits : IsDigits high) :
    base ("length(" ++ low ++ "," ++ high ++ ")").toList =
      ⟨"z.string().min(" ++ low ++ ").max(" ++ high ++ ")"⟩ := by
  have called : callArguments? "length".toList ("length(" ++ low ++ "," ++ high ++ ")").toList =
      some (low.toList ++ ',' :: high.toList) :=
    callArguments?_eq_some_iff.mpr (by simp)
  have whole : ',' ∉ low.toList := lowDigits.not_mem rfl
  have digits : (isDigits low.toList && isDigits high.toList) = true := by
    rw [Bool.and_eq_true, isDigits_toList_iff, isDigits_toList_iff]
    exact ⟨lowDigits, highDigits⟩
  have chosen : "length".toList.isPrefixOf ("length(" ++ low ++ "," ++ high ++ ")").toList =
      true := by
    simp
  rw [base, if_pos chosen, length, called, Option.bind_some, splitComma?_append whole]
  simp only [digits, if_true, String.ofList_toList]

theorem base_regex {pattern : String} (slashed : IsSlashed pattern) :
    base ("regex(" ++ pattern ++ ")").toList = ⟨"z.string().regex(" ++ pattern ++ ")"⟩ := by
  have called : callArguments? "regex".toList ("regex(" ++ pattern ++ ")").toList =
      some pattern.toList := callArguments?_call "regex" pattern
  have form : isPattern pattern.toList = true := by
    rw [isPattern_iff, String.ofList_toList]
    exact slashed
  have other : ¬ "length".toList.isPrefixOf ("regex(" ++ pattern ++ ")").toList = true := by
    simp
  have chosen : "regex".toList.isPrefixOf ("regex(" ++ pattern ++ ")").toList = true := by
    simp
  rw [base, if_neg other, if_pos chosen, regex, called]
  simp only [form, if_true, String.ofList_toList]

theorem bound?_call (method : String) {limit : String} (digits : IsDigits limit) :
    bound? method (method ++ "(" ++ limit ++ ")").toList =
      some ⟨"z.number()." ++ method ++ "(" ++ limit ++ ")"⟩ := by
  rw [bound?, callArguments?_call]
  simp only [isDigits_toList_iff.mpr digits, if_true, String.ofList_toList]

theorem bound?_min_max (limit : String) :
    bound? "min" ("max" ++ "(" ++ limit ++ ")").toList = none := by
  have never : callArguments? "min".toList ("max" ++ "(" ++ limit ++ ")").toList = none := by
    apply Option.eq_none_iff_forall_ne_some.mpr
    intro arguments called
    simpa using callArguments?_eq_some_iff.mp called
  rw [bound?, never]

theorem base_bound {method limit : String} (known : method = "min" ∨ method = "max")
    (digits : IsDigits limit) :
    base (method ++ "(" ++ limit ++ ")").toList =
      ⟨"z.number()." ++ method ++ "(" ++ limit ++ ")"⟩ := by
  have chosen : base (method ++ "(" ++ limit ++ ")").toList =
      bound (method ++ "(" ++ limit ++ ")").toList := by
    unfold base
    rcases known with rfl | rfl <;> simp
  rw [chosen, bound]
  rcases known with rfl | rfl
  · rw [bound?_call "min" digits, Option.some_or, Option.getD_some]
  · rw [bound?_min_max, bound?_call "max" digits, Option.none_or, Option.getD_some]

/-- What is read is printed as the table says. -/
theorem base_of_reads {name text : String} (reads : Reads IsDigits IsSlashed name text) :
    base name.toList = ⟨text⟩ := by
  cases reads with
  | email => decide
  | uuid => decide
  | url => decide
  | currency => decide
  | nonempty => decide
  | string => decide
  | number => decide
  | boolean => decide
  | length low high => exact base_length low high
  | regex slashed => exact base_regex slashed
  | bound known digits => exact base_bound known digits

/-! ## Proper parameters -/

/-- What passes for a number or for a pattern among the parameters of a name is a literal. -/
structure ProperParameters (name : String) : Prop where
  length : ∀ low high, name = "length(" ++ low ++ "," ++ high ++ ")" →
    IsDigits low → IsDigits high → IsNumeral low ∧ IsNumeral high
  bound : ∀ method limit, method = "min" ∨ method = "max" →
    name = method ++ "(" ++ limit ++ ")" → IsDigits limit → IsNumeral limit
  regex : ∀ pattern, name = "regex(" ++ pattern ++ ")" →
    IsSlashed pattern → IsRegexLiteral pattern

/-- What is documented for a name without a question mark: names that the table does not have, also
for their parameters, stand for any value. -/
def Documented (name text : String) : Prop :=
  Reads IsNumeral IsRegexLiteral name text ∨
    text = "z.any()" ∧ ∀ other, ¬ Reads IsNumeral IsRegexLiteral name other

theorem ProperParameters.reads {name text : String} (proper : ProperParameters name)
    (reads : Reads IsDigits IsSlashed name text) : Reads IsNumeral IsRegexLiteral name text := by
  cases reads with
  | email => exact Reads.email
  | uuid => exact Reads.uuid
  | url => exact Reads.url
  | currency => exact Reads.currency
  | nonempty => exact Reads.nonempty
  | string => exact Reads.string
  | number => exact Reads.number
  | boolean => exact Reads.boolean
  | length low high =>
      obtain ⟨lowNumeral, highNumeral⟩ := proper.length _ _ rfl low high
      exact Reads.length lowNumeral highNumeral
  | regex pattern => exact Reads.regex (proper.regex _ rfl pattern)
  | bound method limit => exact Reads.bound method (proper.bound _ _ method rfl limit)

theorem grammatical_of_reads {name text : String}
    (reads : Reads IsNumeral IsRegexLiteral name text) : Grammatical text := by
  cases reads with
  | email => exact Grammatical.email
  | uuid => exact Grammatical.uuid
  | url => exact Grammatical.url
  | currency =>
      have literal : IsRegexLiteral "/^[A-Z]\x7b3\x7d$/" :=
        ⟨"^[A-Z]\x7b3\x7d$".toList, by decide, by decide, by decide, by decide⟩
      exact Grammatical.regex literal
  | nonempty =>
      have numeral : IsNumeral "1" := ⟨isDigits_iff.mp (by decide), by decide⟩
      exact Grammatical.shortest numeral
  | string => exact Grammatical.string
  | number => exact Grammatical.number
  | boolean => exact Grammatical.boolean
  | length low high => exact Grammatical.length low high
  | regex pattern => exact Grammatical.regex pattern
  | bound method limit => exact Grammatical.bound method limit

theorem grammatical_of_documented {name text : String} (documented : Documented name text) :
    Grammatical text := by
  rcases documented with reads | ⟨rfl, _⟩
  · exact grammatical_of_reads reads
  · exact Grammatical.any

theorem properParameters_of_grammatical {name : String}
    (grammatical : Grammatical (base name.toList).text) : ProperParameters name where
  length := by
    rintro low high rfl lowDigits highDigits
    rw [base_of_reads (Reads.length lowDigits highDigits)] at grammatical
    exact grammatical.isNumeral_of_length lowDigits highDigits
  bound := by
    rintro method limit known rfl digits
    rw [base_of_reads (Reads.bound known digits)] at grammatical
    exact grammatical.isNumeral_of_bound known digits
  regex := by
    rintro pattern rfl slashed
    rw [base_of_reads (Reads.regex slashed)] at grammatical
    exact grammatical.isRegexLiteral_of_regex slashed

theorem properParameters_of_reads {name text : String}
    (reads : Reads IsNumeral IsRegexLiteral name text) : ProperParameters name := by
  have wider : Reads IsDigits IsSlashed name text :=
    reads.mono (fun _ => IsNumeral.digits) fun _ => IsRegexLiteral.isSlashed
  apply properParameters_of_grammatical
  rw [base_of_reads wider]
  exact grammatical_of_reads reads

theorem ProperParameters.documented {name : String} (proper : ProperParameters name) :
    Documented name (base name.toList).text := by
  rcases base_eq_any_or_reads name with any | reads
  · refine Or.inr ⟨by rw [any]; rfl, ?_⟩
    intro other reads
    have wider : Reads IsDigits IsSlashed name other :=
      reads.mono (fun _ => IsNumeral.digits) fun _ => IsRegexLiteral.isSlashed
    have read := base_of_reads wider
    rw [any] at read
    exact wider.ne_any (congrArg Expr.text read).symm
  · exact Or.inl (proper.reads reads)

theorem documented_base_iff {name : String} :
    Documented name (base name.toList).text ↔ ProperParameters name := by
  constructor
  · intro documented
    exact properParameters_of_grammatical (grammatical_of_documented documented)
  · exact ProperParameters.documented

theorem grammatical_base_iff {name : String} :
    Grammatical (base name.toList).text ↔ ProperParameters name := by
  constructor
  · exact properParameters_of_grammatical
  · intro proper
    exact grammatical_of_documented proper.documented

/-! ## Nullable names -/

def isNullableName (name : String) : Bool := name.toList.getLast? == some '?'

/-- The name without the question mark at its end. -/
def stem (name : String) : String :=
  if isNullableName name then String.ofList name.toList.dropLast else name

/-- The text that is documented for a name. -/
def Answers (name text : String) : Prop :=
  ∃ answer, Documented (stem name) answer ∧
    text = if isNullableName name then answer ++ ".nullish()" else answer

theorem isNullish_of_reads {name text : String} (reads : Reads IsDigits IsSlashed name text) :
    (⟨text⟩ : Expr).isNullish = false := by
  cases reads with
  | email => decide
  | uuid => decide
  | url => decide
  | currency => decide
  | nonempty => decide
  | string => decide
  | number => decide
  | boolean => decide
  | @length low _ _ high =>
      exact isNullish_call_of_isDigits ("z.string().min(" ++ low ++ ").max(") high
  | regex slashed => exact isNullish_call_of_isSlashed "z.string().regex(" slashed
  | @bound method _ _ digits =>
      exact isNullish_call_of_isDigits ("z.number()." ++ method ++ "(") digits

theorem closed_of_reads {IsNumber IsPattern : String → Prop} {name text : String}
    (reads : Reads IsNumber IsPattern name text) : (⟨text⟩ : Expr).Closed := by
  cases reads with
  | email => exact Expr.closed_append "z.string().email("
  | uuid => exact Expr.closed_append "z.string().uuid("
  | url => exact Expr.closed_append "z.string().url("
  | currency => exact Expr.closed_append "z.string().regex(/^[A-Z]\x7b3\x7d$/"
  | nonempty => exact Expr.closed_append "z.string().min(1"
  | string => exact Expr.closed_append "z.string("
  | number => exact Expr.closed_append "z.number("
  | boolean => exact Expr.closed_append "z.boolean("
  | length _ _ => exact Expr.closed_append _
  | regex _ => exact Expr.closed_append _
  | bound _ _ => exact Expr.closed_append _

theorem closed_base (name : String) : (base name.toList).Closed := by
  rcases base_eq_any_or_reads name with any | reads
  · rw [any]
    exact Expr.closed_append "z.any("
  · exact closed_of_reads reads

theorem isNullish_base (name : String) : (base name.toList).isNullish = false := by
  rcases base_eq_any_or_reads name with any | reads
  · rw [any, Expr.isNullish_any]
  · exact isNullish_of_reads reads

theorem named_eq (name : String) :
    named name =
      if isNullableName name then ⟨(base (stem name).toList).text ++ ".nullish()"⟩
      else base (stem name).toList := by
  unfold named splitNullable stem isNullableName
  by_cases marked : name.toList.getLast? = some '?'
  · have plain := isNullish_base (String.ofList name.toList.dropLast)
    rw [String.toList_ofList] at plain
    simp only [marked, if_true, beq_self_eq_true, String.toList_ofList, Expr.nullish, plain,
      Bool.false_eq_true, if_false]
    rfl
  · simp [marked]

theorem isNullish_named (name : String) : (named name).isNullish = isNullableName name := by
  rw [named_eq]
  cases isNullableName name with
  | false => exact isNullish_base (stem name)
  | true =>
      rw [if_pos rfl, Expr.isNullish_iff, String.toList_append]
      exact List.suffix_append _ _

theorem closed_named (name : String) : (named name).Closed := by
  cases nullable : isNullableName name with
  | true => exact Expr.closed_of_isNullish ((isNullish_named name).trans nullable)
  | false =>
      rw [named_eq, nullable]
      exact closed_base (stem name)

theorem grammatical_named_iff (name : String) :
    Grammatical (named name).text ↔ ProperParameters (stem name) := by
  rw [named_eq, ← grammatical_base_iff]
  cases isNullableName name with
  | false => exact Iff.rfl
  | true => exact ⟨Grammatical.of_nullish, Grammatical.nullish⟩

theorem answers_named_iff (name : String) :
    Answers name (named name).text ↔ ProperParameters (stem name) := by
  unfold Answers
  rw [named_eq, ← documented_base_iff]
  cases isNullableName name with
  | false => simp
  | true => simp

end CustomType

/-! ## Lists and objects -/

open CustomType

theorem TypeOverride.closed_expr (type : TypeOverride) : type.expr.Closed := by
  cases type with
  | named name => exact closed_named name
  | list items =>
      cases items with
      | nil => exact Expr.closed_array _
      | cons item others => exact Expr.closed_array _
  | object members => exact Expr.closed_object _
  | other value => exact Expr.closed_append "z.any("

/-- The parameters of every name that is printed are proper, and no key that is printed has a line
break. -/
inductive TypeOverride.Proper : TypeOverride → Prop
  | named {name : String} : ProperParameters (stem name) → Proper (.named name)
  | emptyList : Proper (.list [])
  | list {item : TypeOverride} {others : List TypeOverride} : Proper item →
      Proper (.list (item :: others))
  | object {members : List (String × TypeOverride)} :
      (∀ member ∈ members, ObjectKey.OneLine member.1) →
      (∀ member ∈ members, Proper member.2) → Proper (.object members)
  | other {value : PlainValue} : Proper (.other value)

theorem TypeOverride.memberExprs_eq_map (members : List (String × TypeOverride)) :
    TypeOverride.expr.memberExprs members =
      members.map fun member => (member.1, member.2.expr) := by
  induction members with
  | nil => rfl
  | cons member rest induction =>
      rw [TypeOverride.expr.memberExprs, induction]
      rfl

theorem CustomType.grammatical_object {members : List (String × Expr)}
    (keys : ∀ member ∈ members, ObjectKey.OneLine member.1)
    (values : ∀ member ∈ members, Grammatical member.2.text) :
    Grammatical (Expr.object members).text := by
  unfold Expr.object
  split
  · exact Grammatical.emptyObject
  · rename_i filled
    let written := members.map fun member => (ObjectKey.encode member.1, member.2.text)
    have texts : members.map Expr.member =
        written.map fun member => member.1 ++ ": " ++ member.2 := by
      rw [List.map_map]
      rfl
    rw [texts]
    apply Grammatical.object
    · simpa [written] using filled
    · intro member inside
      obtain ⟨original, listed, rfl⟩ := List.mem_map.mp inside
      exact ⟨original.1, ObjectKey.denotes_encode_iff.mpr ⟨rfl, keys original listed⟩⟩
    · intro member inside
      obtain ⟨original, listed, rfl⟩ := List.mem_map.mp inside
      exact values original listed

theorem TypeOverride.Proper.grammatical {type : TypeOverride} (proper : type.Proper) :
    Grammatical type.expr.text := by
  induction proper with
  | named parameters => exact (grammatical_named_iff _).mpr parameters
  | emptyList => exact Grammatical.array Grammatical.any
  | list _ element => exact Grammatical.array element
  | object keys _ values =>
      rw [TypeOverride.expr, memberExprs_eq_map]
      exact grammatical_object (List.forall_mem_map.mpr keys) (List.forall_mem_map.mpr values)
  | other => exact Grammatical.any

/-- Custom types are printed as expressions of the grammar if the parameters of their names are
proper. Of a single name this is so exactly if its parameters are proper, and exactly then the text
is the one documented for the name, which for malformed parameters is the text of any value. A list
is as good as its first item. -/
theorem TypeOverride.grammatical_expr (type : TypeOverride) :
    (type.Proper → Grammatical type.expr.text) ∧
    (∀ name, type = .named name →
      (Grammatical type.expr.text ↔ ProperParameters (stem name)) ∧
      (Answers name type.expr.text ↔ ProperParameters (stem name))) ∧
    ∀ item others, type = .list (item :: others) →
      (Grammatical type.expr.text ↔ Grammatical item.expr.text) := by
  refine ⟨Proper.grammatical, ?_, ?_⟩
  · rintro name rfl
    exact ⟨grammatical_named_iff name, answers_named_iff name⟩
  · rintro item others rfl
    exact ⟨fun whole => whole.of_array item.closed_expr, Grammatical.array⟩

/-- A nullable pattern with slashes in a class and behind a backslash, and a list of texts. -/
def parcel : TypeOverride :=
  .object [("code", .named "regex(/^[A-Z/]+\\/$/)?"), ("sent-by", .list [.named "length(2,40)"])]

theorem proper_parcel : parcel.Proper := by
  have pattern : ProperParameters (stem "regex(/^[A-Z/]+\\/$/)?") := by
    have literal : IsRegexLiteral "/^[A-Z/]+\\/$/" :=
      ⟨"^[A-Z/]+\\/$".toList, by decide, by decide, by decide, by decide⟩
    exact properParameters_of_reads (Reads.regex literal)
  have length : ProperParameters (stem "length(2,40)") := by
    have low : IsNumeral "2" := ⟨isDigits_iff.mp (by decide), by decide⟩
    have high : IsNumeral "40" := ⟨isDigits_iff.mp (by decide), by decide⟩
    exact properParameters_of_reads (Reads.length low high)
  apply TypeOverride.Proper.object
  · simp [ObjectKey.OneLine]
  · rintro member inside
    rcases List.mem_cons.mp inside with rfl | inside
    · exact TypeOverride.Proper.named pattern
    · rw [List.mem_singleton.mp inside]
      exact TypeOverride.Proper.list (TypeOverride.Proper.named length)

theorem grammatical_expr_parcel : parcel.Proper ∧ Grammatical parcel.expr.text :=
  ⟨proper_parcel, parcel.grammatical_expr.1 proper_parcel⟩

/-- Two slashes begin a comment, and a number of several digits does not begin with a zero. -/
theorem not_grammatical_expr_malformed :
    ¬ Grammatical (TypeOverride.named "regex(//)").expr.text ∧
      ¬ Grammatical (TypeOverride.named "min(007)").expr.text := by
  constructor
  · intro grammatical
    have proper := (grammatical_named_iff "regex(//)").mp grammatical
    obtain ⟨body, split, filled, _⟩ := proper.regex "//" (by decide) ⟨[], by decide⟩
    exact filled (by simpa [List.append_eq_cons_iff] using split.symm)
  · intro grammatical
    have proper := (grammatical_named_iff "min(007)").mp grammatical
    have numeral := proper.bound "min" "007" (Or.inl rfl) (by decide) (isDigits_iff.mp (by decide))
    exact absurd (numeral.leading (by decide)) (by decide)

end ScopedSchema
