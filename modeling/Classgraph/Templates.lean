import Classgraph.General.Rewrite
import Classgraph.Fixup

namespace Classgraph
open Run Relation Rewrite

/-- One occurrence of `> >` replaced by `>>`. -/
def Closes (str str' : CStr) : Prop :=
  ∃ before after, str = before ++ "> >".toList ++ after ∧ str' = before ++ ">>".toList ++ after

theorem strstr_iff_closes {str : CStr} : strstr str "> >".toList ↔ ∃ str', Closes str str' := by
  rw [strstr, decide_eq_true_iff]
  constructor
  · intro occurs
    obtain ⟨before, after, rfl⟩ := occurs
    exact ⟨_, before, after, rfl, rfl⟩
  · intro closes
    obtain ⟨_, before, after, rfl, _⟩ := closes
    exact ⟨before, after, rfl⟩

/-- A string without the spaces that stand between two `>`, where `left` stands before it. -/
def closeTemplates (left : Char) : CStr → CStr
  | [] => []
  | c :: rest =>
    if left = '>' ∧ c = ' ' ∧ charAt rest 0 = '>' then closeTemplates c rest else c :: closeTemplates c rest

theorem closeTemplates_keep {left c : Char} {rest : CStr} (keeps : ¬(left = '>' ∧ c = ' ' ∧ charAt rest 0 = '>')) :
    closeTemplates left (c :: rest) = c :: closeTemplates c rest := if_neg keeps

theorem closeTemplates_other {left c : Char} {rest : CStr} (other : c ≠ ' ') :
    closeTemplates left (c :: rest) = c :: closeTemplates c rest :=
  closeTemplates_keep fun drops => other drops.2.1

theorem closeTemplates_drop (rest : CStr) :
    closeTemplates '>' (' ' :: '>' :: rest) = '>' :: closeTemplates '>' rest := by
  rw [closeTemplates, if_pos ⟨rfl, rfl, rfl⟩, closeTemplates_other (by decide)]

/-- A space can only be dropped if its left neighbour is a `>` that the output ends with. -/
theorem closeTemplates_reaches (before : CStr) (left : Char) (str : CStr)
    (ends : left = '>' → ∃ rest, before = rest ++ ['>']) :
    ReflTransGen Closes (before ++ str) (before ++ closeTemplates left str) := by
  induction str generalizing before left with
  | nil => exact .refl
  | cons c rest ih =>
    by_cases drops : left = '>' ∧ c = ' ' ∧ charAt rest 0 = '>'
    · rw [closeTemplates, if_pos drops]
      obtain ⟨isGt, rfl, next⟩ := drops
      obtain ⟨front, rfl⟩ := ends isGt
      obtain ⟨tail, rfl⟩ : ∃ tail, rest = '>' :: tail := by
        cases rest with
        | nil => exact absurd next (by decide)
        | cons c tail => exact ⟨tail, by rw [show c = '>' from next]⟩
      have first : Closes (front ++ ['>'] ++ ' ' :: '>' :: tail) (front ++ ['>'] ++ '>' :: tail) :=
        ⟨front, tail, by simp, by simp⟩
      exact .head first (ih _ ' ' fun isGt => absurd isGt (by decide))
    · rw [closeTemplates_keep drops]
      have rest := ih (before ++ [c]) c fun isGt => ⟨before, by rw [isGt]⟩
      simpa using rest

theorem closeTemplates_unchanged (left : Char) (before after : CStr) :
    closeTemplates left (before ++ '>' :: ' ' :: '>' :: after) =
      closeTemplates left (before ++ '>' :: '>' :: after) := by
  induction before generalizing left with
  | nil =>
    rw [List.nil_append, List.nil_append, closeTemplates_other (by decide), closeTemplates_drop,
      closeTemplates_other (by decide), closeTemplates_other (by decide)]
  | cons c before ih =>
    have next : charAt (before ++ '>' :: ' ' :: '>' :: after) 0 = charAt (before ++ '>' :: '>' :: after) 0 := by
      cases before with
      | nil => rfl
      | cons => rfl
    rw [List.cons_append, List.cons_append, closeTemplates, closeTemplates, ih, next]

/-- Behind a `>` the output does not go on with a space and a `>`. -/
theorem closeTemplates_head (str rest : CStr) : closeTemplates '>' str ≠ ' ' :: '>' :: rest := by
  intro head
  cases str with
  | nil => cases head
  | cons c tail =>
    by_cases drops : '>' = '>' ∧ c = ' ' ∧ charAt tail 0 = '>'
    · rw [closeTemplates, if_pos drops] at head
      obtain ⟨_, rfl, next⟩ := drops
      cases tail with
      | nil => cases head
      | cons c tail =>
        rw [show c = '>' from next, closeTemplates_other (by decide)] at head
        cases head
    · rw [closeTemplates_keep drops] at head
      obtain ⟨rfl, next⟩ := List.cons.inj head
      cases tail with
      | nil => cases next
      | cons c tail =>
        rw [closeTemplates_keep fun drops => absurd drops.1 (by decide)] at next
        obtain ⟨rfl, _⟩ := List.cons.inj next
        exact drops ⟨rfl, rfl, rfl⟩

theorem closeTemplates_irreducible (left : Char) (str : CStr) : ¬"> >".toList <:+: closeTemplates left str := by
  induction str generalizing left with
  | nil => intro occurs; cases List.infix_nil.mp occurs
  | cons c rest ih =>
    by_cases drops : left = '>' ∧ c = ' ' ∧ charAt rest 0 = '>'
    · rw [closeTemplates, if_pos drops]
      exact ih c
    · rw [closeTemplates_keep drops, List.infix_cons_iff]
      intro occurs
      rcases occurs with here | later
      · obtain ⟨tail, same⟩ := here
        obtain ⟨isGt, next⟩ := List.cons.inj same
        rw [← isGt] at next
        exact closeTemplates_head rest tail next.symm
      · exact ih c later

/-- Dropping the spaces between two `>` in one pass is the exhaustive replacement of `> >` by `>>`. -/
theorem closeTemplates_normalizes : Normalizes Closes (closeTemplates nul) where
  reaches str := closeTemplates_reaches [] nul str fun isGt => absurd isGt (by decide)
  irreducible str str' closes := by
    have occurs := strstr_iff_closes.mpr ⟨str', closes⟩
    exact closeTemplates_irreducible nul str (of_decide_eq_true occurs)
  unchanged str str' closes := by
    obtain ⟨before, after, rfl, rfl⟩ := closes
    simpa using closeTemplates_unchanged nul before after

/-- The character at `i` is a space whose left and right neighbours are both `>`. -/
def spaceBetween (str : CStr) (i : Nat) : Bool :=
  1 ≤ i ∧ charAt str (i - 1) = '>' ∧ charAt str i = ' ' ∧ charAt str (i + 1) = '>'

/-- The characters before `i`, in order, without the spaces that stand between two `>`. -/
def keptBefore (str : CStr) (i : Nat) : CStr :=
  ((List.range i).filter fun j => !spaceBetween str j).map (charAt str)

theorem dropsSpace_succ (str : CStr) (i : Nat) : dropsSpace str (i + 1) = spaceBetween str i := by
  unfold dropsSpace spaceBetween
  rw [decide_eq_decide]
  constructor
  · intro drops
    exact ⟨Nat.le_of_succ_le_succ drops.1, drops.2.2.2, drops.2.2.1, drops.2.1⟩
  · intro between
    exact ⟨Nat.succ_le_succ between.1, between.2.2.2, between.2.2.1, between.2.1⟩

theorem keptBefore_succ (str : CStr) (i : Nat) :
    keptBefore str (i + 1) = if spaceBetween str i then keptBefore str i else keptBefore str i ++ [charAt str i] := by
  unfold keptBefore
  rw [List.range_succ, List.filter_append, List.map_append]
  split
  · rename_i between
    simp [between]
  · rename_i kept
    simp [kept]

/-- The output ends with the last character read, since only the next one can take its place. -/
theorem fixupOut_succ (str : CStr) (i : Nat) : fixupOut str (i + 1) = keptBefore str i ++ [charAt str i] := by
  induction i with
  | zero => rfl
  | succ i ih =>
    rw [fixupOut, ih, dropsSpace_succ, keptBefore_succ]
    split
    · rw [List.dropLast_concat]
    · rfl

/-- Dropping by position and dropping while reading along the string are the same. -/
theorem closeTemplates_drop_eq (str : CStr) {i n : Nat} (rest : i + n = str.length) :
    closeTemplates (if i = 0 then nul else charAt str (i - 1)) (str.drop i) =
      ((List.range' i n).filter fun j => !spaceBetween str j).map (charAt str) := by
  induction n generalizing i with
  | zero =>
    rw [List.drop_eq_nil_of_le (by omega)]
    rfl
  | succ n ih =>
    have inside : i < str.length := by omega
    have here : str[i] = charAt str i := by simp [charAt, List.getD_eq_getElem?_getD, inside]
    have next : charAt (str.drop (i + 1)) 0 = charAt str (i + 1) := by
      simp [charAt, List.getD_eq_getElem?_getD]
    have after := ih (i := i + 1) (by omega)
    rw [if_neg (Nat.succ_ne_zero i), Nat.add_sub_cancel] at after
    have between : ((if i = 0 then nul else charAt str (i - 1)) = '>' ∧ charAt str i = ' ' ∧ charAt str (i + 1) = '>') ↔
        spaceBetween str i = true := by
      rw [spaceBetween, decide_eq_true_iff]
      by_cases first : i = 0
      · rw [if_pos first]
        exact ⟨fun drops => absurd drops.1 (by decide), fun between => absurd between.1 (by omega)⟩
      · rw [if_neg first]
        exact ⟨fun drops => ⟨by omega, drops⟩, fun between => between.2⟩
    rw [List.drop_eq_getElem_cons inside, here, closeTemplates, next, if_congr between rfl rfl, after, List.range'_succ]
    split
    · rename_i drops
      simp [drops]
    · rename_i keeps
      simp [keeps]

theorem keptBefore_length (str : CStr) : keptBefore str str.length = closeTemplates nul str := by
  have whole := closeTemplates_drop_eq str (Nat.zero_add str.length)
  rw [if_pos rfl, List.drop_zero] at whole
  rw [whole, keptBefore, List.range_eq_range']

theorem nul_notMem_keptBefore {str : CStr} (noNul : nul ∉ str) : nul ∉ keptBefore str str.length := by
  intro member
  obtain ⟨i, kept, isNul⟩ := List.mem_map.mp member
  have inside := List.mem_range.mp (List.mem_filter.mp kept).1
  have here : charAt str i = str[i] := by simp [charAt, List.getD_eq_getElem?_getD, inside]
  rw [here] at isNul
  exact noNul (isNul ▸ List.getElem_mem inside)

theorem fixupTemplates_kept {str : CStr} (noNul : nul ∉ str) :
    fixupTemplates str = .ok (keptBefore str str.length) := by
  by_cases occurs : strstr str "> >".toList
  · have final : charAt str str.length = nul := by simp [charAt]
    have inner (c : Char) (member : c ∈ keptBefore str str.length) : decide (c ≠ nul) = true :=
      decide_eq_true fun isNul => nul_notMem_keptBefore noNul (isNul ▸ member)
    rw [fixupTemplates_eq occurs, fixupOut_succ, final, List.takeWhile_append_of_pos inner]
    simp
  · have stuck (str' : CStr) : ¬Closes str str' := fun closes => occurs (strstr_iff_closes.mpr ⟨str', closes⟩)
    rw [fixupTemplates, if_neg occurs, keptBefore_length, closeTemplates_normalizes.eq_self stuck]

/-- The result has exactly the spaces between two `>` removed. It is the one string that replacing
`> >` by `>>` ends in, and is left alone when the function is applied again. -/
theorem fixupTemplates_normal {str : CStr} (noNul : nul ∉ str) :
    fixupTemplates str = .ok (keptBefore str str.length) ∧
      ReflTransGen Closes str (keptBefore str str.length) ∧
      (∀ next, ¬Closes (keptBefore str str.length) next) ∧
      (∀ other, ReflTransGen Closes str other → (∀ next, ¬Closes other next) → other = keptBefore str str.length) ∧
      ¬strstr (keptBefore str str.length) "> >".toList ∧
      fixupTemplates (keptBefore str str.length) = .ok (keptBefore str str.length) := by
  have kept := fixupTemplates_kept noNul
  rw [keptBefore_length] at kept ⊢
  have absent : ¬strstr (closeTemplates nul str) "> >".toList := fun occurs =>
    closeTemplates_irreducible nul str (of_decide_eq_true occurs)
  refine ⟨kept, closeTemplates_normalizes.reaches str, closeTemplates_normalizes.irreducible str, ?_, absent, ?_⟩
  · intro other reach stuck
    exact closeTemplates_normalizes.unique reach stuck
  · rw [fixupTemplates, if_neg absent]

theorem fixupTemplates_normal_nested :
    fixupTemplates "A<B<C<int> > >".toList = .ok "A<B<C<int>>>".toList ∧
      ReflTransGen Closes "A<B<C<int> > >".toList "A<B<C<int>>>".toList := by
  have noNul : nul ∉ "A<B<C<int> > >".toList := by decide
  have normal := fixupTemplates_normal noNul
  have kept : keptBefore "A<B<C<int> > >".toList "A<B<C<int> > >".toList.length = "A<B<C<int>>>".toList := by decide
  rw [kept] at normal
  exact ⟨normal.1, normal.2.1⟩

/-- The number of occurrences of `> >`, which may overlap. -/
def occurrences (str : CStr) : Nat := (List.range str.length).countP fun i => "> >".toList.isPrefixOf (str.drop i)

/-- The index that iteration `i` stores to. -/
def fixupStore (str : CStr) (i : Nat) (st : FixupState) : Nat := if dropsSpace str i then st.pOut - 1 else st.pOut

/-- The indices of the input that iteration `i` reads. -/
def fixupReads (i : Nat) : List Nat := i :: if 2 ≤ i then [i - 1, i - 2] else []

theorem occurs_at (str : CStr) (i : Nat) : "> >".toList.isPrefixOf (str.drop i) = spaceBetween str (i + 1) := by
  have ahead (k : Nat) : charAt str (i + k) = charAt (str.drop i) k := by
    simp [charAt, List.getD_eq_getElem?_getD]
  have here : charAt str i = charAt (str.drop i) 0 := ahead 0
  rw [spaceBetween, Nat.add_sub_cancel, here, ahead 1, Nat.add_assoc, ahead 2]
  rcases str.drop i with _ | ⟨a, _ | ⟨b, _ | ⟨c, rest⟩⟩⟩
  · simp [charAt, nul]
  · simp [List.isPrefixOf, charAt, nul]
  · simp [List.isPrefixOf, charAt, nul]
  · simp only [charAt]
    grind

/-- The first character and the final NUL are no such spaces. -/
theorem spaceBetween_ends (str : CStr) : spaceBetween str 0 = false ∧ spaceBetween str str.length = false := by
  have final : charAt str str.length = nul := by simp [charAt]
  refine ⟨decide_eq_false fun between => absurd between.1 (by omega), decide_eq_false fun between => ?_⟩
  have isSpace := between.2.2.1
  rw [final] at isSpace
  exact absurd isSpace (by decide)

theorem spacesDropped_eq (str : CStr) : spacesDropped str (str.length + 1) = occurrences str := by
  have shifted : (dropsSpace str) ∘ Nat.succ = spaceBetween str := funext (dropsSpace_succ str)
  have notFirst : dropsSpace str 0 = false := decide_eq_false fun drops => absurd drops.1 (by omega)
  have byLast : (List.range (str.length + 1)).countP (spaceBetween str) =
      (List.range str.length).countP (spaceBetween str) := by
    rw [List.range_succ, List.countP_append, List.countP_singleton, (spaceBetween_ends str).2]
    rfl
  have byFirst : (List.range (str.length + 1)).countP (spaceBetween str) = occurrences str := by
    rw [List.range_succ_eq_map, List.countP_cons, (spaceBetween_ends str).1, List.countP_map, occurrences]
    simp only [occurs_at]
    rfl
  rw [spacesDropped, ← List.countP_eq_length_filter, List.range_succ_eq_map, List.countP_cons, notFirst,
    List.countP_map, shifted]
  exact byLast.symm.trans byFirst

theorem fixupStep_store {str : CStr} {i : Nat} {st : FixupState} (positive : dropsSpace str i → 0 < st.pOut)
    (room : fixupStore str i st < st.strOut.length) :
    fixupStep str i st =
      .ok ⟨st.strOut.set (fixupStore str i st) (some (charAt str i)), fixupStore str i st + 1⟩ := by
  unfold fixupStore at room ⊢
  by_cases drops : dropsSpace str i
  · have before := positive drops
    rw [if_pos drops] at room ⊢
    rw [fixupStep_drop drops before (by omega), Nat.sub_add_cancel before]
  · rw [if_neg drops] at room ⊢
    exact fixupStep_keep drops room

/-- An iteration depends on no other character of the input. -/
theorem fixupStep_congr {str other : CStr} {i : Nat} (same : ∀ j ∈ fixupReads i, charAt other j = charAt str j)
    (st : FixupState) : fixupStep other i st = fixupStep str i st := by
  have here := same i (List.mem_cons_self ..)
  by_cases late : 2 ≤ i
  · have reads : fixupReads i = [i, i - 1, i - 2] := by rw [fixupReads, if_pos late]
    have before : charAt other (i - 1) = charAt str (i - 1) := same _ (by simp [reads])
    have before' : charAt other (i - 2) = charAt str (i - 2) := same _ (by simp [reads])
    rw [fixupStep, fixupStep, here, before, before']
  · have early (str : CStr) : ¬(2 ≤ i ∧ charAt str i = '>' ∧ charAt str (i - 1) = ' ' ∧ charAt str (i - 2) = '>') :=
      fun drops => late drops.1
    rw [fixupStep, fixupStep, if_neg (early other), if_neg (early str), here]

/-- Every iteration stores inside the block and reads inside the string, and the block ends up with a
string that is shorter by the number of occurrences. -/
theorem fixupLoop_inBounds {str : CStr} (occurs : strstr str "> >".toList) (noNul : nul ∉ str) :
    (∀ i ≤ str.length, ∃ st, fixupLoop str i 0 ⟨List.replicate str.length none, 0⟩ = .ok st ∧
      st.strOut.length = str.length ∧ (dropsSpace str i → 0 < st.pOut) ∧ fixupStore str i st < str.length ∧
      fixupStep str i st =
        .ok ⟨st.strOut.set (fixupStore str i st) (some (charAt str i)), fixupStore str i st + 1⟩ ∧
      (∀ other, (∀ j ∈ fixupReads i, charAt other j = charAt str j) → fixupStep other i st = fixupStep str i st) ∧
      ∀ j ∈ fixupReads i, j ≤ str.length) ∧
    ∃ st strOut, fixupLoop str (str.length + 1) 0 ⟨List.replicate str.length none, 0⟩ = .ok st ∧
      fixupTemplates str = .ok strOut ∧ (strOut ++ [nul]).map some <+: st.strOut ∧ nul ∉ strOut ∧
      strOut.length + occurrences str = str.length := by
  refine ⟨?_, ?_⟩
  · intro i bound
    have size : (fixupState str i).strOut.length = str.length :=
      outputBlock_length (fixupOut_fits occurs (by omega))
    have positive : dropsSpace str i → 0 < (fixupState str i).pOut := by
      intro drops
      have late : 2 ≤ i := (of_decide_eq_true drops).1
      obtain ⟨previous, rfl⟩ : ∃ previous, i = previous + 1 := ⟨i - 1, by omega⟩
      exact List.length_pos_iff.mpr (fixupOut_ne_nil str previous)
    have next : fixupStore str i (fixupState str i) + 1 = (fixupOut str (i + 1)).length := by
      rw [fixupOut, List.length_append, List.length_singleton, fixupStore]
      split
      · rw [List.length_dropLast]
        rfl
      · rfl
    have room : fixupStore str i (fixupState str i) < str.length := by
      have fits := fixupOut_fits occurs (j := i + 1) (by omega)
      omega
    refine ⟨_, fixupLoop_start occurs (by omega), size, positive, room, fixupStep_store positive (by omega),
      fun other same => fixupStep_congr same _, ?_⟩
    intro j read
    simp only [fixupReads, List.mem_cons] at read
    rcases read with rfl | back
    · exact bound
    · split at back
      · simp only [List.mem_cons, List.not_mem_nil, or_false] at back
        omega
      · cases back
  · have final : charAt str str.length = nul := by simp [charAt]
    have output : fixupOut str (str.length + 1) = keptBefore str str.length ++ [nul] := by rw [fixupOut_succ, final]
    have length := fixupOut_length str (str.length + 1)
    rw [output, spacesDropped_eq, List.length_append, List.length_singleton] at length
    refine ⟨_, keptBefore str str.length, fixupLoop_start occurs (Nat.le_refl _), fixupTemplates_kept noNul, ?_,
      nul_notMem_keptBefore noNul, by omega⟩
    rw [fixupState, outputBlock, output]
    exact List.prefix_append _ _

theorem fixupLoop_inBounds_nested :
    ∃ st strOut, fixupLoop "A<B<C<int> > >".toList 15 0 ⟨List.replicate 14 none, 0⟩ = .ok st ∧
      fixupTemplates "A<B<C<int> > >".toList = .ok strOut ∧ (strOut ++ [nul]).map some <+: st.strOut ∧ nul ∉ strOut ∧
      strOut.length + occurrences "A<B<C<int> > >".toList = 14 := by
  have occurs : strstr "A<B<C<int> > >".toList "> >".toList := by decide
  exact (fixupLoop_inBounds occurs (by decide)).2

end Classgraph
