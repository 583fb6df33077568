import Mathlib.Data.List.ReduceOption
import Classgraph.General.PathTree

/-- Ordered trees: the first tree's root with what is below it, and the trees beside it. -/
inductive Forest (α : Type)
  | nil
  | node (label : α) (below beside : Forest α)
  deriving DecidableEq, Repr

namespace Forest

variable {α β : Type}

/-- The labels in depth-first order, each with its depth. -/
def outline : Nat → Forest α → List (Nat × α)
  | _, nil => []
  | depth, node label below beside => (depth, label) :: (outline (depth + 1) below ++ outline depth beside)

def map (f : α → β) : Forest α → Forest β
  | nil => nil
  | node label below beside => node (f label) (below.map f) (beside.map f)

/-- The forest of an outline. `fuel` bounds the number of its entries. -/
def ofOutline : Nat → Nat → List (Nat × α) → Forest α
  | 0, _, _ => nil
  | _, _, [] => nil
  | fuel + 1, depth, (_, label) :: rest =>
    node label (ofOutline fuel (depth + 1) (rest.takeWhile fun entry => depth < entry.1))
      (ofOutline fuel depth (rest.dropWhile fun entry => depth < entry.1))

/-- The trees that grow from a list of roots, `fuel` levels of them. -/
def grow (next : α → List α) : Nat → List α → Forest α
  | 0, _ => nil
  | fuel + 1, roots => roots.foldr (fun root => node root (grow next fuel (next root))) nil

theorem outline_depth (forest : Forest α) (depth : Nat) : ∀ entry ∈ forest.outline depth, depth ≤ entry.1 := by
  induction forest generalizing depth with
  | nil => exact nofun
  | node label below beside belowIh besideIh =>
    rw [outline, List.forall_mem_cons, List.forall_mem_append]
    refine ⟨Nat.le_refl depth, ?_, besideIh depth⟩
    intro entry member
    exact Nat.le_of_succ_le (belowIh (depth + 1) entry member)

/-- The entries beside a tree begin on its own depth. -/
theorem outline_head (forest : Forest α) (depth : Nat) :
    (forest.outline depth).takeWhile (fun entry => depth < entry.1) = [] := by
  cases forest with
  | nil => rfl
  | node label below beside => exact List.takeWhile_cons_of_neg (by simp)

theorem outline_split (below beside : Forest α) (depth : Nat) :
    (below.outline (depth + 1) ++ beside.outline depth).takeWhile (fun entry => depth < entry.1) =
        below.outline (depth + 1) ∧
      (below.outline (depth + 1) ++ beside.outline depth).dropWhile (fun entry => depth < entry.1) =
        beside.outline depth := by
  have deeper : ∀ entry ∈ below.outline (depth + 1), decide (depth < entry.1) = true := by
    intro entry member
    exact decide_eq_true (below.outline_depth (depth + 1) entry member)
  have ends := beside.outline_head depth
  have whole := List.takeWhile_append_dropWhile (p := fun entry => decide (depth < entry.1)) (l := beside.outline depth)
  rw [ends, List.nil_append] at whole
  rw [List.takeWhile_append_of_pos deeper, List.dropWhile_append_of_pos deeper, ends, List.append_nil]
  exact ⟨rfl, whole⟩

/-- A forest is determined by its outline. -/
theorem ofOutline_outline (forest : Forest α) (depth : Nat) {fuel : Nat}
    (enough : (forest.outline depth).length ≤ fuel) : ofOutline fuel depth (forest.outline depth) = forest := by
  induction forest generalizing depth fuel with
  | nil => cases fuel <;> rfl
  | node label below beside belowIh besideIh =>
    rw [outline, List.length_cons, List.length_append] at enough
    obtain ⟨fuel, rfl⟩ : ∃ k, fuel = k + 1 := ⟨fuel - 1, by omega⟩
    obtain ⟨belowSame, besideSame⟩ := outline_split below beside depth
    rw [outline, ofOutline, belowSame, besideSame, belowIh (depth + 1) (by omega), besideIh depth (by omega)]

theorem outline_map (f : α → β) (forest : Forest α) (depth : Nat) :
    (forest.map f).outline depth = (forest.outline depth).map fun entry => (entry.1, f entry.2) := by
  induction forest generalizing depth with
  | nil => rfl
  | node label below beside belowIh besideIh =>
    rw [map, outline, outline, List.map_cons, List.map_append, belowIh, besideIh]

/-- Successors that agree on a closed set of nodes grow the same trees from it. -/
theorem grow_congr {next next' : α → List α} {P : α → Prop}
    (agree : ∀ a, P a → next a = next' a ∧ ∀ b ∈ next' a, P b) (fuel : Nat) {roots : List α} (kept : ∀ a ∈ roots, P a) :
    grow next fuel roots = grow next' fuel roots := by
  induction fuel generalizing roots with
  | zero => rfl
  | succ fuel ih =>
    rw [grow, grow]
    refine List.foldr_ext _ _ _ ?_
    intro root member rest
    obtain ⟨same, closed⟩ := agree root (kept root member)
    rw [same, ih closed]

/-- The outlines of the trees, one after the other. -/
theorem outline_grow (next : α → List α) (fuel depth : Nat) (roots : List α) :
    (grow next (fuel + 1) roots).outline depth =
      roots.flatMap fun root => (depth, root) :: (grow next fuel (next root)).outline (depth + 1) := by
  induction roots with
  | nil => rfl
  | cons root roots ih =>
    rw [List.flatMap_cons, ← ih]
    rfl

/-- Trees side by side are grown one by one. -/
theorem outline_grow_roots (next : α → List α) (fuel depth : Nat) (roots : List α) :
    (grow next fuel roots).outline depth = roots.flatMap fun root => (grow next fuel [root]).outline depth := by
  cases fuel with
  | zero => simp [grow, outline]
  | succ fuel =>
    rw [outline_grow]
    refine List.flatMap_congr ?_
    intro root _
    rw [outline_grow, List.flatMap_singleton]

theorem flatMap_range_getElem? (f : Option α → List β) (entries : List α) :
    ((List.range entries.length).flatMap fun i => f entries[i]?) = entries.flatMap fun entry => f (some entry) := by
  induction entries with
  | nil => rfl
  | cons entry entries ih =>
    rw [List.length_cons, List.range_succ_eq_map, List.flatMap_cons, List.flatMap_map, List.flatMap_cons, ← ih]
    rfl

theorem flatMap_reduceOption (f : α → List β) (entries : List (Option α)) :
    entries.reduceOption.flatMap f = entries.flatMap fun entry => entry.elim [] f := by
  induction entries with
  | nil => rfl
  | cons entry entries ih =>
    cases entry with
    | none => rw [List.reduceOption_cons_of_none, ih, List.flatMap_cons]; rfl
    | some value => rw [List.reduceOption_cons_of_some, List.flatMap_cons, List.flatMap_cons, ih]; rfl

open PathTree in
/-- The paths of an unfolding outline the tree that grows along the successors. -/
theorem unfold_outline (next : α → List (Option α)) (fuel depth : Nat) (root : α) :
    ((unfold next fuel root).map fun node => (depth + node.1.length, node.2)) =
      (grow (fun node => (next node).reduceOption) fuel [root]).outline depth := by
  induction fuel generalizing depth root with
  | zero => rfl
  | succ fuel ih =>
    let subtree (base : α) := (grow (fun node => (next node).reduceOption) fuel [base]).outline (depth + 1)
    have below := flatMap_range_getElem? (fun entry => (entry.getD none).elim [] subtree) (next root)
    rw [outline_grow, List.flatMap_singleton, outline_grow_roots, flatMap_reduceOption, unfold, List.map_cons,
      List.map_flatMap]
    refine congrArg₂ List.cons rfl (Eq.trans (List.flatMap_congr ?_) below)
    intro i _
    rcases (next root)[i]? with _ | _ | base
    · rfl
    · rfl
    · have deeper (node : List Nat × α) :
          (depth + (i :: node.1).length, node.2) = (depth + 1 + node.1.length, node.2) := by
        rw [List.length_cons, Nat.add_right_comm, Nat.add_assoc]
      simp only [List.map_map, Function.comp_def, deeper, ih]
      rfl

end Forest
