namespace PathTree

variable {α : Type} {next : α → List (Option α)}

/-- A path from a node along its successors, given by the index taken in each list of
successors. An absent successor keeps its index but cannot be taken. -/
inductive Path (next : α → List (Option α)) : α → List Nat → α → Prop
  | nil {a} : Path next a [] a
  | cons {a b c i path} : (next a)[i]? = some (some b) → Path next b path c → Path next a (i :: path) c

/-- A rank that every step lowers bounds the paths from the nodes it is defined on. -/
theorem Path.ranked {P : α → Prop} (rank : α → Nat)
    (step : ∀ a, P a → ∀ b, some b ∈ next a → P b ∧ rank b < rank a) {a c : α} {path : List Nat}
    (path' : Path next a path c) (start : P a) : P c ∧ path.length + rank c ≤ rank a := by
  induction path' with
  | nil => exact ⟨start, by simp⟩
  | cons edge _ ih =>
    obtain ⟨kept, lower⟩ := step _ start _ (List.mem_of_getElem? edge)
    obtain ⟨ended, bound⟩ := ih kept
    refine ⟨ended, ?_⟩
    rw [List.length_cons]
    omega

/-- The paths of length less than `depth` from a node, with their ends: a node first, then
what its successors unfold to, in order. -/
def unfold (next : α → List (Option α)) : Nat → α → List (List Nat × α)
  | 0, _ => []
  | depth + 1, a =>
    ([], a) :: (List.range (next a).length).flatMap fun i =>
      match (next a)[i]? with
      | some (some b) => (unfold next depth b).map fun node => (i :: node.1, node.2)
      | _ => []

theorem mem_unfold {depth : Nat} {a c : α} {path : List Nat} :
    (path, c) ∈ unfold next depth a ↔ Path next a path c ∧ path.length < depth := by
  induction depth generalizing a path with
  | zero => simp [unfold]
  | succ depth ih =>
    simp only [unfold, List.mem_cons, List.mem_flatMap, List.mem_range]
    constructor
    · rintro (here | ⟨i, _, below⟩)
      · cases here
        exact ⟨.nil, Nat.succ_pos _⟩
      · split at below
        · rename_i b edge
          obtain ⟨⟨tail, end'⟩, member, same⟩ := List.mem_map.mp below
          cases same
          obtain ⟨rest, bound⟩ := ih.mp member
          exact ⟨.cons edge rest, Nat.succ_lt_succ bound⟩
        · cases below
    · rintro ⟨path', bound⟩
      cases path' with
      | nil => exact Or.inl rfl
      | @cons _ b _ i tail edge rest =>
        refine Or.inr ⟨i, (List.getElem?_eq_some_iff.mp edge).1, ?_⟩
        rw [edge]
        exact List.mem_map.mpr ⟨(tail, c), ih.mpr ⟨rest, Nat.lt_of_succ_lt_succ bound⟩, rfl⟩

/-- The unfolding is in depth-first order: the index sequences increase strictly in the
lexicographic order, in which a sequence comes before its extensions. -/
theorem unfold_sorted (next : α → List (Option α)) (depth : Nat) (a : α) :
    (unfold next depth a).Pairwise fun left right => left.1 < right.1 := by
  induction depth generalizing a with
  | zero => exact .nil
  | succ depth ih =>
    rw [unfold, List.pairwise_cons]
    refine ⟨?_, ?_⟩
    · intro node member
      obtain ⟨i, _, below⟩ := List.mem_flatMap.mp member
      split at below
      · obtain ⟨old, _, rfl⟩ := List.mem_map.mp below
        exact List.Lex.nil
      · cases below
    · rw [List.pairwise_flatMap]
      refine ⟨?_, List.pairwise_lt_range.imp ?_⟩
      · intro i _
        split
        · rw [List.pairwise_map]
          exact (ih _).imp fun before => List.Lex.cons before
        · exact .nil
      · intro i j before left leftMember right rightMember
        split at leftMember
        · split at rightMember
          · obtain ⟨_, _, rfl⟩ := List.mem_map.mp leftMember
            obtain ⟨_, _, rfl⟩ := List.mem_map.mp rightMember
            exact List.Lex.rel before
          · cases rightMember
        · cases leftMember

end PathTree
