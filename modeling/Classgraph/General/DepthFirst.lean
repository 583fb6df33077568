import Mathlib.Data.List.Nodup
import Mathlib.Logic.Relation

namespace DepthFirst

section

variable {α κ : Type} (next : α → List α) (key : α → κ)

/-- A node with the same key has been opened. -/
def Known (opened : List α) (x : α) : Prop := key x ∈ opened.map key

instance [DecidableEq κ] (opened : List α) (x : α) : Decidable (Known key opened x) :=
  inferInstanceAs (Decidable (_ ∈ _))

variable {key}

theorem Known.of_mem {opened : List α} {x : α} (member : x ∈ opened) : Known key opened x :=
  List.mem_map_of_mem member

theorem Known.grow {opened : List α} {x : α} (known : Known key opened x) (y : α) : Known key (opened ++ [y]) x := by
  rw [Known, List.map_append]
  exact List.mem_append_left _ known

variable (key)

/-- The state of a search by recursive calls, one for each node that is opened: every active call, innermost first,
has gone through its successors up to some point, and every call that has returned through all of them. -/
structure Exploring (opened : List α) (active : List (Nat × List α)) : Prop where
  frames : ∀ frame ∈ active, ∃ x done, opened[frame.1]? = some x ∧ next x = done ++ frame.2 ∧
    ∀ y ∈ done, Known key opened y
  nested : active.Pairwise fun inner outer => outer.1 < inner.1
  finished : ∀ (i : Nat) (x : α), opened[i]? = some x → (∀ frame ∈ active, frame.1 ≠ i) → ∀ y ∈ next x,
    Known key opened y

variable {next key} {opened : List α} {active : List (Nat × List α)} {i : Nat} {y : α} {rest : List α}

theorem Exploring.start (root : α) : Exploring next key [root] [(0, next root)] := by
  refine ⟨?_, List.pairwise_singleton _ _, ?_⟩
  · intro frame member
    rw [List.mem_singleton.mp member]
    exact ⟨root, [], rfl, rfl, fun y inDone => absurd inDone List.not_mem_nil⟩
  · intro i x atIndex returned
    rw [List.getElem?_singleton] at atIndex
    split at atIndex
    · rename_i first
      exact absurd first.symm (returned _ (List.mem_singleton_self _))
    · cases atIndex

/-- The innermost call goes on behind a successor that is known. -/
theorem Exploring.skip (exploring : Exploring next key opened ((i, y :: rest) :: active))
    (known : Known key opened y) : Exploring next key opened ((i, rest) :: active) := by
  refine ⟨?_, ?_, ?_⟩
  · obtain ⟨⟨x, done, atIndex, successors, looked⟩, outer⟩ := List.forall_mem_cons.mp exploring.frames
    refine List.forall_mem_cons.mpr ⟨⟨x, done ++ [y], atIndex, by simpa using successors, ?_⟩, outer⟩
    intro z inDone
    rcases List.mem_append.mp inDone with before | last
    · exact looked z before
    · rw [List.mem_singleton.mp last]
      exact known
  · exact List.pairwise_cons.mpr (List.pairwise_cons.mp exploring.nested)
  · intro j x atIndex returned
    exact exploring.finished j x atIndex (List.forall_mem_cons.mpr (List.forall_mem_cons.mp returned))

theorem Exploring.leave (exploring : Exploring next key opened ((i, []) :: active)) :
    Exploring next key opened active := by
  obtain ⟨⟨x, done, atIndex, successors, looked⟩, outer⟩ := List.forall_mem_cons.mp exploring.frames
  refine ⟨outer, (List.pairwise_cons.mp exploring.nested).2, ?_⟩
  intro j z atJ returned
  by_cases same : i = j
  · rw [← same, atIndex] at atJ
    cases atJ
    rw [successors, List.append_nil]
    exact looked
  · exact exploring.finished j z atJ (List.forall_mem_cons.mpr ⟨same, returned⟩)

/-- A successor is opened, and the call for it starts. -/
theorem Exploring.take (exploring : Exploring next key opened ((i, y :: rest) :: active)) :
    Exploring next key (opened ++ [y]) ((opened.length, next y) :: (i, rest) :: active) := by
  have below : ∀ frame ∈ (i, y :: rest) :: active, frame.1 < opened.length := by
    intro frame member
    obtain ⟨x, _, atIndex, _⟩ := exploring.frames frame member
    exact (List.getElem?_eq_some_iff.mp atIndex).1
  obtain ⟨belowHere, belowOuter⟩ := List.forall_mem_cons.mp below
  obtain ⟨⟨x, done, atIndex, successors, looked⟩, outer⟩ := List.forall_mem_cons.mp exploring.frames
  have kept {j : Nat} {z : α} (atJ : opened[j]? = some z) : (opened ++ [y])[j]? = some z := by
    rw [List.getElem?_append_left (List.getElem?_eq_some_iff.mp atJ).1]
    exact atJ
  refine ⟨List.forall_mem_cons.mpr ⟨?_, List.forall_mem_cons.mpr ⟨?_, ?_⟩⟩, ?_, ?_⟩
  · exact ⟨y, [], List.getElem?_concat_length, rfl, fun z inDone => absurd inDone List.not_mem_nil⟩
  · refine ⟨x, done ++ [y], kept atIndex, by simpa using successors, ?_⟩
    intro z inDone
    rcases List.mem_append.mp inDone with before | last
    · exact (looked z before).grow y
    · rw [List.mem_singleton.mp last]
      exact .of_mem (List.mem_append_right _ (List.mem_singleton_self _))
  · intro frame member
    obtain ⟨z, done, atFrame, successors, looked⟩ := outer frame member
    exact ⟨z, done, kept atFrame, successors, fun z inDone => (looked z inDone).grow y⟩
  · refine List.pairwise_cons.mpr ⟨List.forall_mem_cons.mpr ⟨belowHere, belowOuter⟩, ?_⟩
    exact List.pairwise_cons.mpr (List.pairwise_cons.mp exploring.nested)
  · intro j x atJ returned z member
    obtain ⟨notLast, others⟩ := List.forall_mem_cons.mp returned
    have bound := (List.getElem?_eq_some_iff.mp atJ).1
    rw [List.length_append, List.length_singleton] at bound
    rw [List.getElem?_append_left (by omega)] at atJ
    exact (exploring.finished j x atJ (List.forall_mem_cons.mpr (List.forall_mem_cons.mp others)) z member).grow y

end

section

variable {α κ : Type} [DecidableEq κ] (next : α → List α) (key : α → κ)

/-- What a depth-first search opens next: the first new successor of the latest node that has one. -/
def choice (opened : List α) : Option α := opened.reverse.findSome? fun x => (next x).find? fun y => ¬Known key opened y

/-- The nodes in the order in which a depth-first search opens them, up to `n` of them behind the given ones. -/
def search : Nat → List α → List α
  | 0, opened => opened
  | n + 1, opened =>
    match choice next key opened with
    | none => opened
    | some y => search n (opened ++ [y])

variable {next key} {opened : List α} {active : List (Nat × List α)} {i n : Nat} {y : α} {rest : List α}

theorem choice_eq_some (chosen : choice next key opened = some y) :
    ¬Known key opened y ∧ ∃ x ∈ opened, y ∈ next x := by
  obtain ⟨x, member, found⟩ := List.exists_of_findSome?_eq_some chosen
  have new := List.find?_some found
  exact ⟨of_decide_eq_true new, x, List.mem_reverse.mp member, List.mem_of_find?_eq_some found⟩

/-- The search is over when all successors of opened nodes are known. -/
theorem choice_eq_none : choice next key opened = none ↔ ∀ x ∈ opened, ∀ y ∈ next x, Known key opened y := by
  simp only [choice, List.findSome?_eq_none_iff, List.mem_reverse, List.find?_eq_none, decide_eq_true_eq, not_not]

/-- A new successor that the innermost call comes to is the one that is chosen. -/
theorem Exploring.choice_eq (exploring : Exploring next key opened ((i, y :: rest) :: active))
    (new : ¬Known key opened y) : choice next key opened = some y := by
  obtain ⟨⟨x, done, atIndex, successors, looked⟩, _⟩ := List.forall_mem_cons.mp exploring.frames
  obtain ⟨bound, atX⟩ := List.getElem?_eq_some_iff.mp atIndex
  have split : opened = opened.take i ++ x :: opened.drop (i + 1) := by
    rw [← atX, ← List.drop_eq_getElem_cons bound, List.take_append_drop]
  have found : (next x).find? (fun z => ¬Known key opened z) = some y := by
    rw [successors, List.find?_append]
    have none : done.find? (fun z => ¬Known key opened z) = none := by
      simpa only [List.find?_eq_none, decide_eq_true_eq, not_not] using looked
    rw [none, Option.none_or]
    exact List.find?_cons_of_pos (decide_eq_true new)
  -- all calls for later nodes have returned
  have later : (opened.drop (i + 1)).reverse.findSome? (fun z => (next z).find? fun z => ¬Known key opened z) =
      none := by
    simp only [List.findSome?_eq_none_iff, List.mem_reverse, List.find?_eq_none, decide_eq_true_eq, not_not]
    intro z member
    obtain ⟨k, atK⟩ := List.mem_iff_getElem?.mp member
    rw [List.getElem?_drop] at atK
    refine exploring.finished (i + 1 + k) z atK ?_
    have outside := (List.pairwise_cons.mp exploring.nested).1
    refine List.forall_mem_cons.mpr ⟨by omega, ?_⟩
    intro frame inActive
    have before := outside frame inActive
    simp only at before
    omega
  have whole : opened.reverse = (opened.drop (i + 1)).reverse ++ x :: (opened.take i).reverse := by
    refine (congrArg List.reverse split).trans ?_
    rw [List.reverse_append, List.reverse_cons, List.append_assoc]
    rfl
  rw [choice, whole, List.findSome?_append, later, Option.none_or, List.findSome?_cons, found]

theorem Exploring.ended (exploring : Exploring next key opened []) : choice next key opened = none := by
  refine choice_eq_none.mpr ?_
  intro x member
  obtain ⟨i, atIndex⟩ := List.mem_iff_getElem?.mp member
  exact exploring.finished i x atIndex fun frame inActive => absurd inActive List.not_mem_nil

/-- A search that is over stays as it is. -/
theorem search_ended (ended : choice next key opened = none) (n : Nat) : search next key n opened = opened := by
  cases n with
  | zero => rfl
  | succ n => rw [search, ended]

theorem search_add (m n : Nat) (opened : List α) :
    search next key (m + n) opened = search next key n (search next key m opened) := by
  induction m generalizing opened with
  | zero => rw [Nat.zero_add, search]
  | succ m ih =>
    rw [Nat.succ_add, search, search]
    cases chosen : choice next key opened with
    | none => exact (search_ended chosen n).symm
    | some y => exact ih _

/-- One more node. -/
theorem search_snoc (chosen : choice next key (search next key n opened) = some y) :
    search next key (n + 1) opened = search next key n opened ++ [y] := by
  rw [search_add, search, chosen]
  rfl

/-- Successors that agree on the nodes that can be reached are searched alike, and nothing else is opened. -/
theorem search_congr {next' : α → List α} {P : α → Prop} (agree : ∀ x, P x → next x = next' x ∧ ∀ y ∈ next' x, P y)
    (n : Nat) {opened : List α} (kept : ∀ x ∈ opened, P x) :
    search next key n opened = search next' key n opened ∧ ∀ x ∈ search next' key n opened, P x := by
  have same {opened : List α} (kept : ∀ x ∈ opened, P x) : choice next key opened = choice next' key opened := by
    have asMap (next : α → List α) : choice next key opened =
        (opened.reverse.map fun x => (next x).find? fun y => ¬Known key opened y).findSome? id := by
      rw [List.findSome?_map]
      rfl
    rw [asMap, asMap]
    refine congrArg (List.findSome? id) (List.map_congr_left ?_)
    intro x member
    rw [(agree x (kept x (List.mem_reverse.mp member))).1]
  induction n generalizing opened with
  | zero => exact ⟨rfl, kept⟩
  | succ n ih =>
    rw [search, search, same kept]
    cases chosen : choice next' key opened with
    | none => exact ⟨rfl, kept⟩
    | some y =>
      obtain ⟨_, x, member, isNext⟩ := choice_eq_some chosen
      refine ih ?_
      intro z inOpened
      rcases List.mem_append.mp inOpened with before | last
      · exact kept z before
      · rw [List.mem_singleton.mp last]
        exact (agree x (kept x member)).2 y isNext

end

end DepthFirst
