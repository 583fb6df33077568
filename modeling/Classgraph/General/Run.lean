namespace Run

variable {ε α β : Type}

/-- A sequence returns exactly when both of its parts do. -/
theorem bind_ok {first : Except ε α} {second : α → Except ε β} {result : β} :
    (first >>= second) = .ok result ↔ ∃ value, first = .ok value ∧ second value = .ok result := by
  constructor
  · intro run
    cases first with
    | error fault => cases run
    | ok value => exact ⟨value, rfl, run⟩
  · rintro ⟨value, rfl, rest⟩
    exact rest

/-- A sequence stops where one of its parts stops. -/
theorem bind_error {first : Except ε α} {second : α → Except ε β} {fault : ε} :
    (first >>= second) = .error fault ↔
      first = .error fault ∨ ∃ value, first = .ok value ∧ second value = .error fault := by
  constructor
  · intro run
    cases first with
    | error other => cases run; exact Or.inl rfl
    | ok value => exact Or.inr ⟨value, rfl, run⟩
  · rintro (rfl | ⟨value, rfl, rest⟩)
    · rfl
    · exact rest

theorem pure_ok {value result : α} : (pure value : Except ε α) = .ok result ↔ value = result := by
  constructor
  · intro run
    cases run
    rfl
  · rintro rfl
    rfl

theorem error_bind (fault : ε) (second : α → Except ε β) : (Except.error fault >>= second) = .error fault := rfl

theorem ok_bind (value : α) (second : α → Except ε β) : (Except.ok value >>= second) = second value := rfl

/-- Sequences agree if their second parts do on what the first part returns. -/
theorem bind_congr_ok {first : Except ε α} {second other : α → Except ε β}
    (same : ∀ value, first = .ok value → second value = other value) : (first >>= second) = (first >>= other) := by
  cases first with
  | error fault => rfl
  | ok value => exact same value rfl

/-- A run that returns does so with a result that satisfies `post`, and one that stops does
so with an error that satisfies `fail`. -/
def Holds (fail : ε → Prop) (run : Except ε α) (post : α → Prop) : Prop :=
  match run with
  | .ok value => post value
  | .error error => fail error

section

variable {fail : ε → Prop}

theorem Holds.trivial (run : Except ε α) : Holds (fun _ => True) run fun _ => True := by
  cases run with
  | error error => exact True.intro
  | ok value => exact True.intro

theorem Holds.result {run : Except ε α} (stops : ∀ error, run = .error error → fail error) :
    Holds fail run fun value => run = .ok value := by
  cases run with
  | error error => exact stops error rfl
  | ok value => exact rfl

/-- The rule for a sequence: the second part starts from what the first part guarantees. -/
theorem Holds.bind {first : Except ε α} {second : α → Except ε β} {mid : α → Prop} {post : β → Prop}
    (head : Holds fail first mid) (tail : ∀ value, mid value → Holds fail (second value) post) :
    Holds fail (first >>= second) post := by
  cases first with
  | error error => exact head
  | ok value => exact tail value head

theorem Holds.imp {run : Except ε α} {mid post : α → Prop} (holds : Holds fail run mid)
    (weaken : ∀ value, mid value → post value) : Holds fail run post := by
  cases run with
  | error error => exact holds
  | ok value => exact weaken value holds

theorem Holds.imp_error {fail' : ε → Prop} {run : Except ε α} {post : α → Prop} (holds : Holds fail run post)
    (weaken : ∀ error, fail error → fail' error) : Holds fail' run post := by
  cases run with
  | error error => exact weaken error holds
  | ok value => exact holds

/-- What a run guarantees may be used together with its result. -/
theorem Holds.and_ok {run : Except ε α} {post : α → Prop} (holds : Holds fail run post) :
    Holds fail run fun value => run = .ok value ∧ post value := by
  cases run with
  | error error => exact holds
  | ok value => exact ⟨rfl, holds⟩

theorem Holds.of_ok {run : Except ε α} {post : α → Prop} {value : α} (holds : Holds fail run post)
    (returned : run = .ok value) : post value := by
  rwa [returned] at holds

theorem Holds.of_error {run : Except ε α} {post : α → Prop} {error : ε} (holds : Holds fail run post)
    (stopped : run = .error error) : fail error := by
  rwa [stopped] at holds

/-- The rule for a loop over a list: what every round keeps holds at the end. -/
theorem Holds.foldlM {σ : Type} {round : σ → α → Except ε σ} {invariant : σ → Prop} {entries : List α}
    (keeps : ∀ state, invariant state → ∀ entry ∈ entries, Holds fail (round state entry) invariant) {state : σ}
    (start : invariant state) : Holds fail (entries.foldlM round state) invariant := by
  induction entries generalizing state with
  | nil => exact start
  | cons entry entries ih =>
    rw [List.foldlM_cons]
    refine (keeps state start entry (List.mem_cons_self ..)).bind fun next kept => ih ?_ kept
    exact fun state kept other member => keeps state kept other (List.mem_cons_of_mem _ member)

end

/-- A run that never stops with an error. -/
abbrev Returns (run : Except ε α) (post : α → Prop) : Prop := Holds (fun _ => False) run post

theorem Returns.exists {run : Except ε α} {post : α → Prop} (returns : Returns run post) :
    ∃ value, run = .ok value ∧ post value := by
  cases run with
  | error error => exact False.elim returns
  | ok value => exact ⟨value, rfl, returns⟩

/-- A run that returns the result if the condition holds, and otherwise stops with an error that satisfies `fail`. -/
structure Decides (fail : ε → Prop) (accept : Prop) (run : Except ε α) (result : α) : Prop where
  returns : accept → run = .ok result
  stops : ¬accept → ∃ error, run = .error error ∧ fail error

section

variable {fail : ε → Prop} {accept accept' : Prop} {run : Except ε α} {result : α}

theorem Decides.of_ok (returned : run = .ok result) : Decides fail True run result :=
  ⟨fun _ => returned, fun never => absurd trivial never⟩

theorem Decides.congr (decides : Decides fail accept run result) (same : accept ↔ accept') :
    Decides fail accept' run result :=
  ⟨fun holds => decides.returns (same.mpr holds), fun refused => decides.stops fun holds => refused (same.mp holds)⟩

/-- The rule for a sequence: the second part is reached only where the first one accepts. -/
theorem Decides.bind {first : Except ε α} {second : α → Except ε β} {middle : α} {result : β}
    (head : Decides fail accept first middle) (tail : accept → Decides fail accept' (second middle) result) :
    Decides fail (accept ∧ accept') (first >>= second) result := by
  refine ⟨?_, ?_⟩
  · intro both
    rw [head.returns both.1]
    exact (tail both.1).returns both.2
  · intro refused
    by_cases accepted : accept
    · rw [head.returns accepted]
      exact (tail accepted).stops fun second => refused ⟨accepted, second⟩
    · obtain ⟨error, stopped, failed⟩ := head.stops accepted
      rw [stopped]
      exact ⟨error, rfl, failed⟩

/-- The rule for a second part that always returns. -/
theorem Decides.andThen {first : Except ε α} {second : α → Except ε β} {middle : α} {result : β}
    (head : Decides fail accept first middle) (returned : second middle = .ok result) :
    Decides fail accept (first >>= second) result :=
  (head.bind fun _ => .of_ok returned).congr (and_iff_left trivial)

/-- The rule for a first part that is known to return. -/
theorem Decides.after {first : Except ε α} {second : α → Except ε β} {middle : α} {result : β}
    (returned : first = .ok middle) (tail : Decides fail accept (second middle) result) :
    Decides fail accept (first >>= second) result := by
  rw [returned]
  exact tail

theorem Decides.holds (decides : Decides fail accept run result) :
    Holds fail run fun value => accept ∧ value = result := by
  by_cases accepted : accept
  · rw [decides.returns accepted]
    exact ⟨accepted, rfl⟩
  · obtain ⟨error, stopped, failed⟩ := decides.stops accepted
    rw [stopped]
    exact failed

end

/-- Two runs that both return related results, or stop with one and the same error. -/
def Related (rel : α → β → Prop) : Except ε α → Except ε β → Prop
  | .ok left, .ok right => rel left right
  | .error left, .error right => left = right
  | _, _ => False

section

variable {α' β' : Type} {rel : α → β → Prop} {rel' : α' → β' → Prop}

/-- The rule for sequences: the second parts start from related values. -/
theorem Related.bind {left : Except ε α} {right : Except ε β} {leftNext : α → Except ε α'} {rightNext : β → Except ε β'}
    (head : Related rel left right) (tail : ∀ a b, rel a b → Related rel' (leftNext a) (rightNext b)) :
    Related rel' (left >>= leftNext) (right >>= rightNext) := by
  cases left with
  | error error =>
    cases right with
    | error other => exact head
    | ok value => exact False.elim head
  | ok value =>
    cases right with
    | error other => exact False.elim head
    | ok other => exact tail value other head

/-- A common first part. -/
theorem Related.same_bind {first : Except ε β} {leftNext : β → Except ε α} {rightNext : β → Except ε α'}
    {rel : α → α' → Prop} (tail : ∀ value, first = .ok value → Related rel (leftNext value) (rightNext value)) :
    Related rel (first >>= leftNext) (first >>= rightNext) := by
  cases first with
  | error error => exact rfl
  | ok value => exact tail value rfl

/-- The left run is known to what follows. -/
theorem Related.left_ok {left : Except ε α} {right : Except ε β} (related : Related rel left right) :
    Related (fun a b => left = .ok a ∧ rel a b) left right := by
  cases left with
  | error error =>
    cases right with
    | error other => exact related
    | ok value => exact False.elim related
  | ok value =>
    cases right with
    | error other => exact False.elim related
    | ok other => exact ⟨rfl, related⟩

end

/-- Whatever the left run returns, the right run is as `rel` says of that value. -/
def Guides (rel : α → Except ε β → Prop) (left : Except ε α) (right : Except ε β) : Prop :=
  ∀ value, left = .ok value → rel value right

section

variable {γ : Type} {rel : α → Except ε β → Prop}

theorem Guides.pure {value : α} {right : Except ε β} (related : rel value right) :
    Guides rel (pure value) right := by
  intro other returned
  cases returned
  exact related

/-- A common first part. -/
theorem Guides.same_bind {first : Except ε γ} {leftNext : γ → Except ε α} {rightNext : γ → Except ε β}
    (tail : ∀ value, first = .ok value → Guides rel (leftNext value) (rightNext value)) :
    Guides rel (first >>= leftNext) (first >>= rightNext) := by
  intro result returned
  obtain ⟨value, read, returned⟩ := bind_ok.mp returned
  rw [read]
  exact tail value read result returned

end

/-- Where the left run returns, the right one returns a related value. -/
def Refines (rel : α → β → Prop) (left : Except ε α) (right : Except ε β) : Prop :=
  Guides (fun value right => ∃ value', right = .ok value' ∧ rel value value') left right

section

variable {γ : Type} {rel : α → β → Prop}

theorem Refines.pure {value : α} {value' : β} (related : rel value value') :
    Refines rel (pure value : Except ε α) (pure value') := Guides.pure ⟨value', rfl, related⟩

theorem Refines.same_bind {first : Except ε γ} {leftNext : γ → Except ε α} {rightNext : γ → Except ε β}
    (tail : ∀ value, first = .ok value → Refines rel (leftNext value) (rightNext value)) :
    Refines rel (first >>= leftNext) (first >>= rightNext) := Guides.same_bind tail

/-- A first part of the left run alone. -/
theorem Refines.left_bind {first : Except ε γ} {leftNext : γ → Except ε α} {right : Except ε β}
    (tail : ∀ value, first = .ok value → Refines rel (leftNext value) right) :
    Refines rel (first >>= leftNext) right := by
  intro result returned
  obtain ⟨value, read, returned⟩ := bind_ok.mp returned
  exact tail value read result returned

end

/-- A run that does what another run does, unless it stops with an error that satisfies `fail`. -/
def Follows (fail : ε → Prop) (left right : Except ε α) : Prop :=
  left = right ∨ ∃ error, left = .error error ∧ fail error

section

variable {fail : ε → Prop}

theorem Follows.refl (run : Except ε α) : Follows fail run run := Or.inl rfl

theorem Follows.stops {error : ε} (failed : fail error) (right : Except ε α) : Follows fail (.error error) right :=
  Or.inr ⟨error, rfl, failed⟩

/-- The rule for sequences: the second parts start from one and the same value. -/
theorem Follows.bind {left right : Except ε α} {leftNext rightNext : α → Except ε β} (head : Follows fail left right)
    (tail : ∀ value, Follows fail (leftNext value) (rightNext value)) :
    Follows fail (left >>= leftNext) (right >>= rightNext) := by
  rcases head with rfl | ⟨error, rfl, failed⟩
  · cases left with
    | error error => exact .refl _
    | ok value => exact tail value
  · exact .stops failed _

theorem Follows.ite {condition : Prop} [Decidable condition] {left right left' right' : Except ε α}
    (yes : Follows fail left right) (no : Follows fail left' right') :
    Follows fail (if condition then left else left') (if condition then right else right') := by
  split
  · exact yes
  · exact no

/-- The rule for loops over a list. -/
theorem Follows.foldlM {σ : Type} {left right : σ → α → Except ε σ}
    (rounds : ∀ state entry, Follows fail (left state entry) (right state entry)) (entries : List α) (state : σ) :
    Follows fail (entries.foldlM left state) (entries.foldlM right state) := by
  induction entries generalizing state with
  | nil => exact .refl _
  | cons entry entries ih =>
    rw [List.foldlM_cons, List.foldlM_cons]
    exact (rounds state entry).bind ih

end

end Run
