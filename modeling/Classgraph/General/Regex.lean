import Mathlib.Data.List.Infix

/-- Regular expressions with anchors, and with groups that capture the text they match. -/
inductive Regex (α : Type)
  | empty
  | start
  | stop
  | symbol (accepts : α → Bool)
  | seq (first second : Regex α)
  | alt (first second : Regex α)
  | star (body : Regex α)
  | group (body : Regex α)

namespace Regex

variable {α : Type}

/-- The ways in which a pattern can match a text that stands between two others, each with what
its groups capture, in the order in which they open. -/
inductive Matches : Regex α → List α → List α → List α → List (List α) → Prop
  | empty {before after} : Matches .empty before [] after []
  | start {after} : Matches .start [] [] after []
  | stop {before} : Matches .stop before [] [] []
  | symbol {accepts c before after} : accepts c → Matches (.symbol accepts) before [c] after []
  | seq {first second before left right after captured captured'} :
      Matches first before left (right ++ after) captured → Matches second (before ++ left) right after captured' →
      Matches (.seq first second) before (left ++ right) after (captured ++ captured')
  | altLeft {first second before text after captured} : Matches first before text after captured →
      Matches (.alt first second) before text after captured
  | altRight {first second before text after captured} : Matches second before text after captured →
      Matches (.alt first second) before text after captured
  | starNil {body before after} : Matches (.star body) before [] after []
  | starCons {body before left right after captured captured'} :
      Matches body before left (right ++ after) captured →
      Matches (.star body) (before ++ left) right after captured' →
      Matches (.star body) before (left ++ right) after (captured ++ captured')
  | group {body before text after captured} : Matches body before text after captured →
      Matches (.group body) before text after (text :: captured)

/-- A match of a whole string. -/
abbrev FullMatch (pattern : Regex α) (text : List α) (captured : List (List α)) : Prop :=
  Matches pattern [] text [] captured

/-- What an engine may answer for a string: some match, whichever it finds, and nothing only if there is none. -/
def Answers (pattern : Regex α) (text : List α) : Option (List (List α)) → Prop
  | some captured => FullMatch pattern text captured
  | none => ∀ captured, ¬FullMatch pattern text captured

/-- All matches of a string capture the same. -/
def Unambiguous (pattern : Regex α) : Prop :=
  ∀ text captured captured', FullMatch pattern text captured → FullMatch pattern text captured' → captured = captured'

/-- The answer for an unambiguous pattern does not depend on the engine. -/
theorem Unambiguous.answers {pattern : Regex α} (unambiguous : Unambiguous pattern) {text : List α}
    {answer answer' : Option (List (List α))} (isAnswer : Answers pattern text answer)
    (isAnswer' : Answers pattern text answer') : answer = answer' := by
  cases answer with
  | none =>
    cases answer' with
    | none => rfl
    | some captured => exact absurd isAnswer' (isAnswer captured)
  | some captured =>
    cases answer' with
    | none => exact absurd isAnswer (isAnswer' captured)
    | some captured' => rw [unambiguous text captured captured' isAnswer isAnswer']

def sequence : List (Regex α) → Regex α
  | [] => .empty
  | pattern :: patterns => .seq pattern (sequence patterns)

def choice : List (Regex α) → Regex α
  | [] => .symbol fun _ => false
  | pattern :: patterns => .alt pattern (choice patterns)

def times (count : Nat) (pattern : Regex α) : Regex α := sequence (List.replicate count pattern)

def literal [DecidableEq α] (word : List α) : Regex α := sequence (word.map fun c => .symbol (· = c))

variable {before text after : List α} {captured : List (List α)}

theorem matches_empty : Matches .empty before text after captured ↔ text = [] ∧ captured = [] := by
  constructor
  · intro found
    cases found
    exact ⟨rfl, rfl⟩
  · rintro ⟨rfl, rfl⟩
    exact .empty

theorem matches_start : Matches .start before text after captured ↔ before = [] ∧ text = [] ∧ captured = [] := by
  constructor
  · intro found
    cases found
    exact ⟨rfl, rfl, rfl⟩
  · rintro ⟨rfl, rfl, rfl⟩
    exact .start

theorem matches_stop : Matches .stop before text after captured ↔ after = [] ∧ text = [] ∧ captured = [] := by
  constructor
  · intro found
    cases found
    exact ⟨rfl, rfl, rfl⟩
  · rintro ⟨rfl, rfl, rfl⟩
    exact .stop

theorem matches_symbol {accepts : α → Bool} :
    Matches (.symbol accepts) before text after captured ↔ ∃ c, accepts c ∧ text = [c] ∧ captured = [] := by
  constructor
  · intro found
    cases found with
    | symbol accepted => exact ⟨_, accepted, rfl, rfl⟩
  · rintro ⟨c, accepted, rfl, rfl⟩
    exact .symbol accepted

theorem matches_seq {first second : Regex α} : Matches (.seq first second) before text after captured ↔
    ∃ left right capturedLeft capturedRight, text = left ++ right ∧ captured = capturedLeft ++ capturedRight ∧
      Matches first before left (right ++ after) capturedLeft ∧
      Matches second (before ++ left) right after capturedRight := by
  constructor
  · intro found
    cases found with
    | seq head tail => exact ⟨_, _, _, _, rfl, rfl, head, tail⟩
  · rintro ⟨left, right, capturedLeft, capturedRight, rfl, rfl, head, tail⟩
    exact .seq head tail

theorem matches_alt {first second : Regex α} : Matches (.alt first second) before text after captured ↔
    Matches first before text after captured ∨ Matches second before text after captured := by
  constructor
  · intro found
    cases found with
    | altLeft left => exact Or.inl left
    | altRight right => exact Or.inr right
  · rintro (left | right)
    · exact .altLeft left
    · exact .altRight right

theorem matches_group {body : Regex α} : Matches (.group body) before text after captured ↔
    ∃ inner, Matches body before text after inner ∧ captured = text :: inner := by
  constructor
  · intro found
    cases found with
    | group inside => exact ⟨_, inside, rfl⟩
  · rintro ⟨inner, inside, rfl⟩
    exact .group inside

/-- A pattern that captures nothing in front of another one. -/
theorem matches_seq_word {first second : Regex α} (words : List α → Prop)
    (silent : ∀ {before text after captured}, Matches first before text after captured ↔ words text ∧ captured = []) :
    Matches (.seq first second) before text after captured ↔
      ∃ left right, words left ∧ text = left ++ right ∧ Matches second (before ++ left) right after captured := by
  rw [matches_seq]
  constructor
  · rintro ⟨left, right, capturedLeft, capturedRight, split, rfl, head, tail⟩
    obtain ⟨word, rfl⟩ := silent.mp head
    exact ⟨left, right, word, split, tail⟩
  · rintro ⟨left, right, word, split, tail⟩
    exact ⟨left, right, [], captured, split, rfl, silent.mpr ⟨word, rfl⟩, tail⟩

theorem matches_literal [DecidableEq α] {word : List α} :
    Matches (literal word) before text after captured ↔ text = word ∧ captured = [] := by
  induction word generalizing before text with
  | nil => exact matches_empty
  | cons c word ih =>
    rw [literal, List.map_cons, sequence, matches_seq_word (· = [c])]
    · constructor
      · rintro ⟨left, right, rfl, rfl, tail⟩
        obtain ⟨rfl, rfl⟩ := ih.mp tail
        exact ⟨rfl, rfl⟩
      · rintro ⟨rfl, rfl⟩
        exact ⟨[c], word, rfl, rfl, ih.mpr ⟨rfl, rfl⟩⟩
    · intro before text after captured
      rw [matches_symbol]
      simp

theorem matches_times_symbol {count : Nat} {accepts : α → Bool} :
    Matches (times count (.symbol accepts)) before text after captured ↔
      (text.length = count ∧ text.all accepts) ∧ captured = [] := by
  induction count generalizing before text with
  | zero =>
    rw [times, List.replicate_zero, sequence, matches_empty]
    refine and_congr_left fun _ => ?_
    constructor
    · rintro rfl
      exact ⟨rfl, rfl⟩
    · rintro ⟨short, _⟩
      exact List.eq_nil_of_length_eq_zero short
  | succ count ih =>
    rw [times, List.replicate_succ, sequence, ← times]
    rw [matches_seq_word fun word => ∃ c, accepts c ∧ word = [c]]
    · constructor
      · rintro ⟨left, right, ⟨c, accepted, rfl⟩, rfl, tail⟩
        obtain ⟨⟨length, all⟩, rfl⟩ := ih.mp tail
        exact ⟨⟨by simp [length], by simp [accepted, all]⟩, rfl⟩
      · rintro ⟨⟨length, all⟩, rfl⟩
        cases text with
        | nil => cases length
        | cons c rest =>
          rw [List.all_cons, Bool.and_eq_true] at all
          exact ⟨[c], rest, ⟨c, all.1, rfl⟩, rfl, ih.mpr ⟨⟨Nat.succ.inj length, all.2⟩, rfl⟩⟩
    · intro before text after captured
      rw [matches_symbol]
      simp only [exists_and_right, ← and_assoc]

theorem matches_choice {patterns : List (Regex α)} : Matches (choice patterns) before text after captured ↔
    ∃ pattern ∈ patterns, Matches pattern before text after captured := by
  induction patterns with
  | nil => simp [choice, matches_symbol]
  | cons pattern patterns ih => simp [choice, matches_alt, ih]

theorem matches_choice_literal [DecidableEq α] {words : List (List α)} :
    Matches (choice (words.map literal)) before text after captured ↔ text ∈ words ∧ captured = [] := by
  simp [matches_choice, matches_literal]

theorem matches_star_symbol {accepts : α → Bool} :
    Matches (.star (.symbol accepts)) before text after captured ↔ (∀ c ∈ text, accepts c) ∧ captured = [] := by
  constructor
  · intro found
    generalize isStar : Regex.star (.symbol accepts) = pattern at found
    induction found with
    | starNil => exact ⟨fun c member => absurd member List.not_mem_nil, rfl⟩
    | starCons head _ _ ih =>
      cases isStar
      obtain ⟨c, accepted, rfl, rfl⟩ := matches_symbol.mp head
      obtain ⟨all, rfl⟩ := ih rfl
      exact ⟨List.forall_mem_cons.mpr ⟨accepted, all⟩, rfl⟩
    | _ => cases isStar
  · rintro ⟨all, rfl⟩
    induction text generalizing before with
    | nil => exact .starNil
    | cons c text ih =>
      obtain ⟨accepted, others⟩ := List.forall_mem_cons.mp all
      exact .starCons (.symbol accepted) (ih others)

theorem matches_start_seq {second : Regex α} :
    Matches (.seq .start second) [] text after captured ↔ Matches second [] text after captured := by
  rw [matches_seq]
  constructor
  · rintro ⟨left, right, capturedLeft, capturedRight, rfl, rfl, head, tail⟩
    obtain ⟨_, rfl, rfl⟩ := matches_start.mp head
    exact tail
  · intro tail
    exact ⟨[], text, [], captured, rfl, rfl, .start, tail⟩

theorem matches_literal_seq [DecidableEq α] {word : List α} {second : Regex α} :
    Matches (.seq (literal word) second) before text after captured ↔
      ∃ right, text = word ++ right ∧ Matches second (before ++ word) right after captured := by
  rw [matches_seq_word (· = word) matches_literal]
  simp only [exists_and_left, exists_eq_left]

/-- A group that captures one of several words. -/
theorem matches_group_seq [DecidableEq α] {words : List (List α)} {second : Regex α} :
    Matches (.seq (.group (choice (words.map literal))) second) before text after captured ↔
      ∃ word ∈ words, ∃ right inner, text = word ++ right ∧ captured = word :: inner ∧
        Matches second (before ++ word) right after inner := by
  rw [matches_seq]
  constructor
  · rintro ⟨word, right, _, inner, split, rfl, head, tail⟩
    obtain ⟨_, inside, rfl⟩ := matches_group.mp head
    obtain ⟨member, rfl⟩ := matches_choice_literal.mp inside
    exact ⟨word, member, right, inner, split, rfl, tail⟩
  · rintro ⟨word, member, right, inner, split, rfl, tail⟩
    exact ⟨word, right, [word], inner, split, rfl, .group (matches_choice_literal.mpr ⟨member, rfl⟩), tail⟩

/-- Words none of which begins another one. -/
def PrefixFree (words : List (List α)) : Prop := ∀ word ∈ words, ∀ other ∈ words, word <+: other → word = other

instance [DecidableEq α] (words : List (List α)) : Decidable (PrefixFree words) :=
  inferInstanceAs (Decidable (∀ word ∈ words, ∀ other ∈ words, word <+: other → word = other))

/-- Whatever follows, a string begins with one of these words at most. -/
theorem PrefixFree.unique {words : List (List α)} (free : PrefixFree words) {word other tail tail' : List α}
    (member : word ∈ words) (member' : other ∈ words) (same : word ++ tail = other ++ tail') : word = other := by
  have begins : word <+: other ++ tail' := same ▸ List.prefix_append word tail
  rcases List.prefix_or_prefix_of_prefix begins (List.prefix_append other tail') with shorter | longer
  · exact free word member other member' shorter
  · exact (free other member' word member longer).symm

end Regex
