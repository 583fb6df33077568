/-- A run that emits events one by one and either ends normally or stops
with an error, keeping what it emitted before. -/
@[ext] structure Emits (ε τ : Type) where
  events : List τ
  stop : Option ε
  deriving DecidableEq

namespace Emits

variable {ε τ : Type}

def nil : Emits ε τ := ⟨[], none⟩

def halt (error : ε) : Emits ε τ := ⟨[], some error⟩

def emit (event : τ) : Emits ε τ := ⟨[event], none⟩

/-- The second run starts only where the first one ended normally. -/
def andThen (first second : Emits ε τ) : Emits ε τ :=
  match first.stop with
  | none => ⟨first.events ++ second.events, second.stop⟩
  | some _ => first

instance : Append (Emits ε τ) := ⟨andThen⟩

/-- A run as seen by someone who sees the events that `view` shows. -/
def filterMap {σ : Type} (view : τ → Option σ) (run : Emits ε τ) : Emits ε σ := ⟨run.events.filterMap view, run.stop⟩

/-- Runs one after the other. -/
def flow (runs : List (Emits ε τ)) : Emits ε τ := runs.foldr (· ++ ·) nil

/-- The runs of `step i`, `step (i + 1)`, …, `count` of them, each of which emits
at most one event or stops everything. -/
def each (step : Nat → Except ε (Option τ)) : Nat → Nat → Emits ε τ
  | 0, _ => nil
  | count + 1, i =>
    match step i with
    | .error error => halt error
    | .ok none => each step count (i + 1)
    | .ok (some event) => emit event ++ each step count (i + 1)

@[simp] theorem events_nil : (nil : Emits ε τ).events = [] := rfl
@[simp] theorem stop_nil : (nil : Emits ε τ).stop = none := rfl
@[simp] theorem events_halt (error : ε) : (halt error : Emits ε τ).events = [] := rfl
@[simp] theorem stop_halt (error : ε) : (halt error : Emits ε τ).stop = some error := rfl
@[simp] theorem events_emit (event : τ) : (emit event : Emits ε τ).events = [event] := rfl
@[simp] theorem stop_emit (event : τ) : (emit event : Emits ε τ).stop = none := rfl
@[simp] theorem flow_nil : flow ([] : List (Emits ε τ)) = nil := rfl
@[simp] theorem flow_cons (run : Emits ε τ) (runs : List (Emits ε τ)) : flow (run :: runs) = run ++ flow runs := rfl

theorem append_of_ended {first : Emits ε τ} (ended : first.stop = none) (second : Emits ε τ) :
    first ++ second = ⟨first.events ++ second.events, second.stop⟩ := by
  change andThen first second = _
  simp only [andThen, ended]

theorem append_of_stopped {first : Emits ε τ} {error : ε} (stopped : first.stop = some error) (second : Emits ε τ) :
    first ++ second = first := by
  change andThen first second = _
  simp only [andThen, stopped]

@[simp] theorem emit_append (event : τ) (second : Emits ε τ) :
    emit event ++ second = ⟨event :: second.events, second.stop⟩ := append_of_ended rfl second

/-- A sequence ends normally exactly when both of its parts do. -/
theorem append_ended {first second : Emits ε τ} :
    (first ++ second).stop = none ↔ first.stop = none ∧ second.stop = none := by
  cases stopped : first.stop with
  | none => simp [append_of_ended stopped]
  | some error => simp [append_of_stopped stopped, stopped]

theorem append_events {first second : Emits ε τ} (ended : (first ++ second).stop = none) :
    (first ++ second).events = first.events ++ second.events := by
  rw [append_of_ended (append_ended.mp ended).1]

theorem flow_ended {runs : List (Emits ε τ)} : (flow runs).stop = none ↔ ∀ run ∈ runs, run.stop = none := by
  induction runs with
  | nil => simp
  | cons run runs ih => simp [append_ended, ih]

theorem flow_events {runs : List (Emits ε τ)} (ended : (flow runs).stop = none) :
    (flow runs).events = runs.flatMap events := by
  induction runs with
  | nil => rfl
  | cons run runs ih =>
    rw [flow_cons] at ended
    rw [flow_cons, append_events ended, ih (append_ended.mp ended).2, List.flatMap_cons]

/-- Of a sequence of runs, the events are emitted in order, up to where one of them stops. -/
theorem flow_prefix (runs : List (Emits ε τ)) : (flow runs).events <+: runs.flatMap events := by
  induction runs with
  | nil => exact List.prefix_rfl
  | cons run runs ih =>
    rw [flow_cons, List.flatMap_cons]
    cases stopped : run.stop with
    | none =>
      rw [append_of_ended stopped]
      exact (List.prefix_append_right_inj _).mpr ih
    | some error =>
      rw [append_of_stopped stopped]
      exact List.prefix_append ..

theorem mem_append {first second : Emits ε τ} {event : τ} (member : event ∈ (first ++ second).events) :
    event ∈ first.events ∨ event ∈ second.events := by
  cases stopped : first.stop with
  | none =>
    rw [append_of_ended stopped] at member
    exact List.mem_append.mp member
  | some error =>
    rw [append_of_stopped stopped] at member
    exact Or.inl member

/-- Every event of a sequence of runs comes from one of them. -/
theorem mem_flow {runs : List (Emits ε τ)} {event : τ} (member : event ∈ (flow runs).events) :
    ∃ run ∈ runs, event ∈ run.events := by
  induction runs with
  | nil => cases member
  | cons run runs ih =>
    rcases mem_append member with here | later
    · exact ⟨run, List.mem_cons_self .., here⟩
    · obtain ⟨other, inRuns, inOther⟩ := ih later
      exact ⟨other, List.mem_cons_of_mem _ inRuns, inOther⟩

/-- The events of a sequence of runs are those of a run that nothing before it stops. -/
theorem mem_flow_iff {runs : List (Emits ε τ)} {event : τ} :
    event ∈ (flow runs).events ↔
      ∃ before run after, runs = before ++ run :: after ∧ (∀ earlier ∈ before, earlier.stop = none) ∧
        event ∈ run.events := by
  induction runs with
  | nil => simp
  | cons first runs ih =>
    rw [flow_cons]
    constructor
    · intro member
      cases stopped : first.stop with
      | some error =>
        rw [append_of_stopped stopped] at member
        exact ⟨[], first, runs, rfl, fun _ earlier => absurd earlier List.not_mem_nil, member⟩
      | none =>
        rw [append_of_ended stopped] at member
        rcases List.mem_append.mp member with here | later
        · exact ⟨[], first, runs, rfl, fun _ earlier => absurd earlier List.not_mem_nil, here⟩
        · obtain ⟨before, run, after, rfl, ended, inRun⟩ := ih.mp later
          exact ⟨first :: before, run, after, rfl, List.forall_mem_cons.mpr ⟨stopped, ended⟩, inRun⟩
    · rintro ⟨before, run, after, split, ended, inRun⟩
      rcases List.cons_eq_append_iff.mp split with ⟨rfl, same⟩ | ⟨before, rfl, rest⟩
      · cases same
        cases stopped : first.stop with
        | some error =>
          rw [append_of_stopped stopped]
          exact inRun
        | none =>
          rw [append_of_ended stopped]
          exact List.mem_append_left _ inRun
      · obtain ⟨here, ended⟩ := List.forall_mem_cons.mp ended
        rw [append_of_ended here]
        exact List.mem_append_right _ (ih.mpr ⟨before, run, after, rest, ended, inRun⟩)

theorem flow_emit {α : Type} (event : α → τ) (entries : List α) :
    (flow (entries.map fun entry => emit (event entry)) : Emits ε τ) = ⟨entries.map event, none⟩ := by
  induction entries with
  | nil => rfl
  | cons entry entries ih => rw [List.map_cons, flow_cons, ih, emit_append, List.map_cons]

theorem flow_ends {α : Type} (events : α → List τ) (entries : List α) :
    (flow (entries.map fun entry => ⟨events entry, none⟩) : Emits ε τ) = ⟨entries.flatMap events, none⟩ := by
  induction entries with
  | nil => rfl
  | cons entry entries ih => rw [List.map_cons, flow_cons, ih, append_of_ended rfl, List.flatMap_cons]

/-- Runs that do nothing can be left out. -/
theorem flow_filter {α : Type} {run : α → Emits ε τ} {keep : α → Bool} {entries : List α}
    (quiet : ∀ entry ∈ entries, ¬keep entry → run entry = nil) :
    flow ((entries.filter keep).map run) = flow (entries.map run) := by
  induction entries with
  | nil => rfl
  | cons entry entries ih =>
    obtain ⟨here, rest⟩ := List.forall_mem_cons.mp quiet
    by_cases keeps : keep entry
    · rw [List.filter_cons_of_pos keeps, List.map_cons, List.map_cons, flow_cons, flow_cons, ih rest]
    · rw [List.filter_cons_of_neg keeps, List.map_cons, flow_cons, ih rest, here keeps, append_of_ended rfl]
      exact Emits.ext (List.nil_append _).symm rfl

theorem filterMap_append {σ : Type} (view : τ → Option σ) (first second : Emits ε τ) :
    (first ++ second).filterMap view = first.filterMap view ++ second.filterMap view := by
  cases stopped : first.stop with
  | none =>
    have ended : (first.filterMap view).stop = none := stopped
    rw [append_of_ended stopped, append_of_ended ended]
    exact Emits.ext List.filterMap_append rfl
  | some error =>
    have ended : (first.filterMap view).stop = some error := stopped
    rw [append_of_stopped stopped, append_of_stopped ended]

theorem filterMap_flow {σ : Type} (view : τ → Option σ) (runs : List (Emits ε τ)) :
    (flow runs).filterMap view = flow (runs.map (filterMap view)) := by
  induction runs with
  | nil => rfl
  | cons run runs ih => rw [flow_cons, filterMap_append, ih, List.map_cons, flow_cons]

/-- Every event of a sequence of steps comes from one of them. -/
theorem mem_each {step : Nat → Except ε (Option τ)} {count i : Nat} {event : τ}
    (member : event ∈ (each step count i).events) : ∃ j, step j = .ok (some event) := by
  induction count generalizing i with
  | zero => simp [each] at member
  | succ count ih =>
    rw [each] at member
    split at member
    · simp at member
    · exact ih member
    · rename_i first run
      simp only [emit_append, List.mem_cons] at member
      rcases member with rfl | later
      · exact ⟨i, run⟩
      · exact ih later

/-- A sequence stops where one of its parts stops. -/
theorem append_stopped {first second : Emits ε τ} {error : ε} (stopped : (first ++ second).stop = some error) :
    first.stop = some error ∨ second.stop = some error := by
  cases ended : first.stop with
  | none =>
    rw [append_of_ended ended] at stopped
    exact Or.inr stopped
  | some other =>
    rw [append_of_stopped ended, ended] at stopped
    exact Or.inl stopped

theorem flow_stopped {runs : List (Emits ε τ)} {error : ε} (stopped : (flow runs).stop = some error) :
    ∃ run ∈ runs, run.stop = some error := by
  induction runs with
  | nil => cases stopped
  | cons run runs ih =>
    rcases append_stopped stopped with here | later
    · exact ⟨run, List.mem_cons_self .., here⟩
    · obtain ⟨other, member, stopped⟩ := ih later
      exact ⟨other, List.mem_cons_of_mem _ member, stopped⟩

theorem each_stopped {step : Nat → Except ε (Option τ)} {count i : Nat} {error : ε}
    (stopped : (each step count i).stop = some error) : ∃ j, step j = .error error := by
  induction count generalizing i with
  | zero => cases stopped
  | succ count ih =>
    rw [each] at stopped
    split at stopped
    · rename_i other run
      cases stopped
      exact ⟨i, run⟩
    · exact ih stopped
    · rcases append_stopped stopped with here | later
      · cases here
      · exact ih later

theorem each_stop {step : Nat → Except ε (Option τ)} {i : Nat} {error : ε} (failed : step i = .error error)
    (count : Nat) : each step (count + 1) i = halt error := by
  rw [each, failed]

theorem each_skip {step : Nat → Except ε (Option τ)} {i : Nat} (skipped : step i = .ok none) (count : Nat) :
    each step (count + 1) i = each step count (i + 1) := by
  rw [each, skipped]

theorem each_emit {step : Nat → Except ε (Option τ)} {i : Nat} {event : τ} (emitted : step i = .ok (some event))
    (count : Nat) : each step (count + 1) i = emit event ++ each step count (i + 1) := by
  rw [each, emitted]

theorem append_assoc (first second third : Emits ε τ) : first ++ second ++ third = first ++ (second ++ third) := by
  cases stopped : first.stop with
  | some error =>
    rw [append_of_stopped stopped, append_of_stopped stopped, append_of_stopped stopped]
  | none =>
    cases stopped' : second.stop with
    | some error =>
      have both : (first ++ second).stop = some error := by
        rw [append_of_ended stopped]
        exact stopped'
      rw [append_of_stopped stopped', append_of_stopped both]
    | none =>
      have both : (first ++ second).stop = none := append_ended.mpr ⟨stopped, stopped'⟩
      rw [append_of_ended both, append_of_ended stopped', append_of_ended stopped, append_of_ended stopped]
      simp only [List.append_assoc]

/-- The steps after the first `count` ones run only where these end normally. -/
theorem each_add (step : Nat → Except ε (Option τ)) (count rest i : Nat) :
    each step (count + rest) i = each step count i ++ each step rest (i + count) := by
  induction count generalizing i with
  | zero =>
    have ended : (each step 0 i).stop = none := rfl
    rw [Nat.zero_add, append_of_ended ended]
    rfl
  | succ count ih =>
    have shift : i + (count + 1) = i + 1 + count := by omega
    rw [Nat.succ_add, shift]
    cases run : step i with
    | error error =>
      rw [each_stop run, each_stop run]
      exact (append_of_stopped rfl _).symm
    | ok event =>
      cases event with
      | none => rw [each_skip run, each_skip run, ih]
      | some event => rw [each_emit run, each_emit run, ih, append_assoc]

/-- Steps through a table whose entries each emit at most one event. -/
theorem each_table {α : Type} {step : Nat → Except ε (Option τ)} {emitted : α → Option τ} {table : List α} {i : Nat}
    (steps : ∀ k entry, table[k]? = some entry → step (i + k) = .ok (emitted entry)) :
    each step table.length i = ⟨table.filterMap emitted, none⟩ := by
  induction table generalizing i with
  | nil => rfl
  | cons entry table ih =>
    have later : ∀ k entry, table[k]? = some entry → step (i + 1 + k) = .ok (emitted entry) := by
      intro k other atOther
      rw [Nat.add_right_comm]
      exact steps (k + 1) other atOther
    have first := steps 0 entry rfl
    rw [Nat.add_zero] at first
    cases shown : emitted entry with
    | none =>
      rw [shown] at first
      rw [List.length_cons, each_skip first, ih later, List.filterMap_cons_none shown]
    | some event =>
      rw [shown] at first
      rw [List.length_cons, each_emit first, ih later, emit_append, List.filterMap_cons_some shown]

/-- An acceptor gets through the events of a run. What it keeps holds wherever the run stops, and what it reaches only
where the run ends normally. -/
def Accepted {σ : Type} (step : σ → τ → Option σ) (keep : σ → Prop) (state : σ) (run : Emits ε τ) (reached : σ → Prop) :
    Prop :=
  ∃ last, run.events.foldlM step state = some last ∧ keep last ∧ (run.stop = none → reached last)

section

variable {σ : Type} {step : σ → τ → Option σ} {keep reached : σ → Prop} {state : σ} {run : Emits ε τ}

theorem Accepted.nil (kept : keep state) (holds : reached state) : Accepted step keep state (nil : Emits ε τ) reached :=
  ⟨state, rfl, kept, fun _ => holds⟩

theorem Accepted.halt (kept : keep state) (error : ε) :
    Accepted step keep state (halt error : Emits ε τ) reached := ⟨state, rfl, kept, nofun⟩

theorem Accepted.emit {event : τ} {next : σ} (stepped : step state event = some next) (kept : keep next)
    (holds : reached next) : Accepted step keep state (emit event : Emits ε τ) reached := by
  refine ⟨next, ?_, kept, fun _ => holds⟩
  rw [events_emit, List.foldlM_cons, stepped]
  rfl

theorem Accepted.imp {keep' reached' : σ → Prop} (accepted : Accepted step keep state run reached)
    (weaken : ∀ last, keep last → keep' last) (weaken' : ∀ last, keep last → reached last → reached' last) :
    Accepted step keep' state run reached' := by
  obtain ⟨last, steps, kept, holds⟩ := accepted
  exact ⟨last, steps, weaken last kept, fun ended => weaken' last kept (holds ended)⟩

/-- The rule for a sequence: the second run starts from what the first one reaches. -/
theorem Accepted.append {second : Emits ε τ} {mid : σ → Prop} (head : Accepted step keep state run mid)
    (tail : ∀ state, keep state → mid state → Accepted step keep state second reached) :
    Accepted step keep state (run ++ second) reached := by
  obtain ⟨middle, steps, kept, holds⟩ := head
  cases stopped : run.stop with
  | some error =>
    rw [append_of_stopped stopped]
    refine ⟨middle, steps, kept, fun ended => ?_⟩
    rw [stopped] at ended
    cases ended
  | none =>
    obtain ⟨last, rest, kept', holds'⟩ := tail middle kept (holds stopped)
    rw [append_of_ended stopped]
    refine ⟨last, ?_, kept', holds'⟩
    rw [List.foldlM_append, steps]
    exact rest

/-- The rule for rounds that are counted. -/
theorem Accepted.rounds {round : Nat → Emits ε τ} {invariant : Nat → σ → Prop}
    (each : ∀ i state, keep state → invariant i state → Accepted step keep state (round i) (invariant (i + 1)))
    (n i : Nat) (kept : keep state) (holds : invariant i state) :
    Accepted step keep state (flow ((List.range' i n).map round)) (invariant (i + n)) := by
  induction n generalizing i state with
  | zero => exact .nil kept holds
  | succ n ih =>
    have next : i + (n + 1) = i + 1 + n := by omega
    rw [List.range'_succ, List.map_cons, flow_cons, next]
    exact (each i state kept holds).append fun state kept holds => ih (i + 1) kept holds

end

/-- A run that does what another run does, unless it stops with an error that satisfies `fail`: then it has emitted
the first events of the other run. -/
def Follows (fail : ε → Prop) (left right : Emits ε τ) : Prop :=
  left = right ∨ (∃ error, left.stop = some error ∧ fail error) ∧ left.events <+: right.events

section

variable {fail : ε → Prop}

theorem Follows.refl (run : Emits ε τ) : Follows fail run run := Or.inl rfl

theorem Follows.halt {error : ε} (failed : fail error) (right : Emits ε τ) : Follows fail (halt error) right :=
  Or.inr ⟨⟨error, rfl, failed⟩, List.nil_prefix⟩

theorem Follows.events {left right : Emits ε τ} (follows : Follows fail left right) : left.events <+: right.events := by
  rcases follows with rfl | ⟨_, early⟩
  · exact List.prefix_rfl
  · exact early

/-- The rule for sequences. -/
theorem Follows.append {left right left' right' : Emits ε τ} (head : Follows fail left right)
    (tail : Follows fail left' right') : Follows fail (left ++ left') (right ++ right') := by
  rcases head with rfl | ⟨⟨error, stopped, failed⟩, early⟩
  · cases stopped : left.stop with
    | some error =>
      rw [append_of_stopped stopped, append_of_stopped stopped]
      exact .refl _
    | none =>
      rw [append_of_ended stopped, append_of_ended stopped]
      rcases tail with rfl | ⟨stops, early⟩
      · exact .refl _
      · exact Or.inr ⟨stops, (List.prefix_append_right_inj _).mpr early⟩
  · rw [append_of_stopped stopped]
    refine Or.inr ⟨⟨error, stopped, failed⟩, early.trans ?_⟩
    cases stopped' : right.stop with
    | some error =>
      have same := append_of_stopped stopped' right'
      exact same.symm ▸ List.prefix_rfl
    | none =>
      rw [append_of_ended stopped']
      exact List.prefix_append ..

theorem Follows.flow {α : Type} {left right : α → Emits ε τ} (entries : List α)
    (runs : ∀ entry, Follows fail (left entry) (right entry)) :
    Follows fail (flow (entries.map left)) (flow (entries.map right)) := by
  induction entries with
  | nil => exact .refl _
  | cons entry entries ih => exact (runs entry).append ih

theorem Follows.each {left right : Nat → Except ε (Option τ)}
    (steps : ∀ i, left i = right i ∨ ∃ error, left i = .error error ∧ fail error) (count i : Nat) :
    Follows fail (each left count i) (each right count i) := by
  induction count generalizing i with
  | zero => exact .refl _
  | succ count ih =>
    rcases steps i with same | ⟨error, stopped, failed⟩
    · rw [Emits.each, Emits.each, same]
      split
      · exact .refl _
      · exact ih (i + 1)
      · exact (Follows.refl _).append (ih (i + 1))
    · rw [each_stop stopped]
      exact .halt failed _

end

end Emits
