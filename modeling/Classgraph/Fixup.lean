import Classgraph.General.Run
import Classgraph.Demangle

namespace Classgraph
open Run

/-- Whether the character at `i` is written over the space before it. -/
def dropsSpace (strIn : CStr) (i : Nat) : Bool :=
  2 ≤ i ∧ charAt strIn i = '>' ∧ charAt strIn (i - 1) = ' ' ∧ charAt strIn (i - 2) = '>'

/-- The output before iteration `i`. -/
def fixupOut (strIn : CStr) : Nat → CStr
  | 0 => []
  | i + 1 => (if dropsSpace strIn i then (fixupOut strIn i).dropLast else fixupOut strIn i) ++ [charAt strIn i]

/-- The number of spaces that the iterations before `i` have dropped. -/
def spacesDropped (strIn : CStr) (i : Nat) : Nat := ((List.range i).filter (dropsSpace strIn)).length

/-- A block of `size` characters with the output at its start and the rest never written. -/
def outputBlock (size : Nat) (out : CStr) : List (Option Char) :=
  out.map some ++ List.replicate (size - out.length) none

theorem outputBlock_set {size : Nat} {out : CStr} (room : out.length < size) (c : Char) :
    (outputBlock size out).set out.length (some c) = outputBlock size (out ++ [c]) := by
  obtain ⟨rest, rfl⟩ : ∃ rest, size = out.length + (rest + 1) := ⟨size - out.length - 1, by omega⟩
  have before : out.length + (rest + 1) - out.length = rest + 1 := by omega
  have after : out.length + (rest + 1) - (out ++ [c]).length = rest := by
    rw [List.length_append, List.length_singleton]
    omega
  rw [outputBlock, outputBlock, before, after, List.set_append_right _ _ (by simp)]
  simp [List.replicate_succ]

/-- A character that replaces the space before it is stored where that space stands. -/
theorem outputBlock_set_last {size : Nat} {out : CStr} (inhabited : out ≠ []) (c : Char) :
    (outputBlock size out).set (out.length - 1) (some c) = outputBlock size (out.dropLast ++ [c]) := by
  have positive := List.length_pos_iff.mpr inhabited
  have length : (out.dropLast ++ [c]).length = out.length := by
    rw [List.length_append, List.length_dropLast, List.length_singleton]
    omega
  have split : out.map some = out.dropLast.map some ++ [some (out.getLast inhabited)] := by
    conv => lhs; rw [← List.dropLast_append_getLast inhabited, List.map_append]
    rfl
  rw [outputBlock, outputBlock, length, List.set_append_left _ _ (by rw [List.length_map]; omega), split,
    List.set_append_right _ _ (by simp)]
  simp

theorem fixupOut_ne_nil (strIn : CStr) (i : Nat) : fixupOut strIn (i + 1) ≠ [] := by simp [fixupOut]

theorem fixupOut_length (strIn : CStr) (i : Nat) :
    (fixupOut strIn i).length + spacesDropped strIn i = i := by
  induction i with
  | zero => rfl
  | succ i ih =>
    rw [fixupOut, spacesDropped, List.range_succ, List.filter_append, List.length_append, List.length_append,
      ← spacesDropped]
    by_cases drops : dropsSpace strIn i
    · have late : 2 ≤ i := (of_decide_eq_true drops).1
      obtain ⟨previous, rfl⟩ : ∃ previous, i = previous + 1 := ⟨i - 1, by omega⟩
      have positive := List.length_pos_iff.mpr (fixupOut_ne_nil strIn previous)
      simp only [drops, if_true, List.length_dropLast, List.length_singleton, List.filter_cons, List.filter_nil]
      omega
    · simp only [drops, Bool.false_eq_true, if_false, List.length_singleton, List.filter_cons, List.filter_nil,
        List.length_nil]
      omega

/-- The state before iteration `i`. -/
def fixupState (strIn : CStr) (i : Nat) : FixupState where
  strOut := outputBlock strIn.length (fixupOut strIn i)
  pOut := (fixupOut strIn i).length

theorem outputBlock_length {size : Nat} {out : CStr} (fits : out.length ≤ size) :
    (outputBlock size out).length = size := by
  rw [outputBlock, List.length_append, List.length_map, List.length_replicate]
  omega

theorem fixupStep_drop {strIn : CStr} {i : Nat} {st : FixupState} (drops : dropsSpace strIn i)
    (positive : 0 < st.pOut) (room : st.pOut ≤ st.strOut.length) :
    fixupStep strIn i st = .ok ⟨st.strOut.set (st.pOut - 1) (some (charAt strIn i)), st.pOut⟩ := by
  have before : st.pOut - 1 < st.strOut.length := by omega
  have back : st.pOut - 1 + 1 = st.pOut := by omega
  unfold fixupStep
  rw [if_pos (of_decide_eq_true drops), if_neg (Nat.ne_of_gt positive), pure_bind]
  refine (if_pos before).trans ?_
  rw [back]
  rfl

theorem fixupStep_keep {strIn : CStr} {i : Nat} {st : FixupState} (keeps : ¬dropsSpace strIn i)
    (room : st.pOut < st.strOut.length) :
    fixupStep strIn i st = .ok ⟨st.strOut.set st.pOut (some (charAt strIn i)), st.pOut + 1⟩ := by
  unfold fixupStep
  rw [if_neg fun holds => keeps (decide_eq_true holds), pure_bind]
  exact if_pos room

theorem fixupStep_state {strIn : CStr} {i : Nat} (before : (fixupOut strIn i).length ≤ strIn.length)
    (after : (fixupOut strIn (i + 1)).length ≤ strIn.length) :
    fixupStep strIn i (fixupState strIn i) = .ok (fixupState strIn (i + 1)) := by
  have size := outputBlock_length before
  by_cases drops : dropsSpace strIn i
  · have late : 2 ≤ i := (of_decide_eq_true drops).1
    obtain ⟨previous, rfl⟩ : ∃ previous, i = previous + 1 := ⟨i - 1, by omega⟩
    have inhabited := fixupOut_ne_nil strIn previous
    have positive := List.length_pos_iff.mpr inhabited
    have next : fixupOut strIn (previous + 1 + 1) =
        (fixupOut strIn (previous + 1)).dropLast ++ [charAt strIn (previous + 1)] := by rw [fixupOut, if_pos drops]
    have length : (fixupOut strIn (previous + 1 + 1)).length = (fixupOut strIn (previous + 1)).length := by
      rw [next, List.length_append, List.length_dropLast, List.length_singleton]
      omega
    rw [fixupStep_drop drops positive (before.trans size.ge)]
    rw [fixupState, fixupState, length, next, outputBlock_set_last inhabited]
  · have next : fixupOut strIn (i + 1) = fixupOut strIn i ++ [charAt strIn i] := by rw [fixupOut, if_neg drops]
    have length : (fixupOut strIn (i + 1)).length = (fixupOut strIn i).length + 1 := by
      rw [next, List.length_append, List.length_singleton]
    have room : (fixupState strIn i).pOut < (fixupState strIn i).strOut.length := by
      simp only [fixupState, size]
      omega
    rw [fixupStep_keep drops room]
    rw [fixupState, fixupState, length, next, outputBlock_set (by omega)]

theorem fixupLoop_state {strIn : CStr} {n i : Nat}
    (fits : ∀ j, j ≤ i + n → (fixupOut strIn j).length ≤ strIn.length) :
    fixupLoop strIn n i (fixupState strIn i) = .ok (fixupState strIn (i + n)) := by
  induction n generalizing i with
  | zero => rfl
  | succ n ih =>
    rw [fixupLoop, fixupStep_state (fits i (by omega)) (fits (i + 1) (by omega))]
    have rest := ih (i := i + 1) fun j bound => fits j (by omega)
    rw [Nat.add_right_comm] at rest
    exact rest

/-- A string with an occurrence of `> >` loses at least one space. -/
theorem spacesDropped_pos {strIn : CStr} (occurs : strstr strIn "> >".toList) :
    0 < spacesDropped strIn (strIn.length + 1) := by
  obtain ⟨before, rest, rfl⟩ := of_decide_eq_true occurs
  have drops : dropsSpace (before ++ "> >".toList ++ rest) (before.length + 2) := by
    simp [dropsSpace, charAt]
  refine List.length_pos_iff.mpr (List.ne_nil_of_mem (List.mem_filter.mpr ⟨?_, drops⟩))
  rw [List.mem_range, List.length_append, List.length_append]
  have three : "> >".toList.length = 3 := rfl
  omega

theorem blockString_block {size : Nat} {out : CStr} (terminated : nul ∈ out) :
    blockString (outputBlock size out) = .ok (out.takeWhile (· ≠ nul)) := by
  rw [outputBlock]
  generalize List.replicate (size - out.length) (none : Option Char) = rest
  induction out with
  | nil => cases terminated
  | cons c out ih =>
    by_cases isNul : c = nul
    · simp [blockString, isNul]
    · have later : nul ∈ out := by
        rcases List.mem_cons.mp terminated with here | later
        · exact absurd here.symm isNul
        · exact later
      rw [List.map_cons, List.cons_append, blockString, if_neg isNul, ih later]
      simp only [List.takeWhile_cons, decide_eq_true isNul, if_true]
      rfl

/-- The output fits into the block before every iteration and at the end. -/
theorem fixupOut_fits {strIn : CStr} (occurs : strstr strIn "> >".toList) {j : Nat} (bound : j ≤ strIn.length + 1) :
    (fixupOut strIn j).length ≤ strIn.length := by
  have dropped := spacesDropped_pos occurs
  have length := fixupOut_length strIn j
  by_cases last : j = strIn.length + 1
  · rw [last] at length ⊢
    omega
  · omega

theorem fixupLoop_start {strIn : CStr} (occurs : strstr strIn "> >".toList) {i : Nat} (bound : i ≤ strIn.length + 1) :
    fixupLoop strIn i 0 ⟨List.replicate strIn.length none, 0⟩ = .ok (fixupState strIn i) := by
  have start : fixupState strIn 0 = ⟨List.replicate strIn.length none, 0⟩ := rfl
  have run := fixupLoop_state (n := i) (i := 0) fun j before => fixupOut_fits occurs (by omega)
  rw [Nat.zero_add] at run
  rw [← start, run]

/-- The output block is never overrun, and holds a terminated string at the end. -/
theorem fixupTemplates_eq {strIn : CStr} (occurs : strstr strIn "> >".toList) :
    fixupTemplates strIn = .ok ((fixupOut strIn (strIn.length + 1)).takeWhile (· ≠ nul)) := by
  have terminated : nul ∈ fixupOut strIn (strIn.length + 1) := by
    simp [fixupOut, charAt]
  rw [fixupTemplates, if_pos occurs, fixupLoop_start occurs (Nat.le_refl _)]
  exact blockString_block terminated

/-- A demangled name is always returned. -/
theorem tryDemangleNoprefix_total (env : Env) (mangled : CStr) :
    ∃ demangled, tryDemangleNoprefix env mangled = .ok demangled := by
  have fixup (strIn : CStr) : ∃ strOut, fixupTemplates strIn = .ok strOut := by
    by_cases occurs : strstr strIn "> >".toList
    · exact ⟨_, fixupTemplates_eq occurs⟩
    · exact ⟨strIn, by rw [fixupTemplates, if_neg occurs]⟩
  have demangle : ∃ strOut, tryDemangle env mangled = .ok strOut := by
    unfold tryDemangle
    split
    · exact fixup _
    · exact ⟨_, rfl⟩
  obtain ⟨strOut, run⟩ := demangle
  unfold tryDemangleNoprefix
  rw [run]
  by_cases typeinfo : strncmpEq strOut "typeinfo for ".toList 13
  · exact ⟨strOut.drop 13, if_pos typeinfo⟩
  · by_cases vtable : strncmpEq strOut "vtable for ".toList 11
    · exact ⟨strOut.drop 11, (if_neg typeinfo).trans (if_pos vtable)⟩
    · exact ⟨strOut, (if_neg typeinfo).trans (if_neg vtable)⟩

end Classgraph
