import Mathlib.Data.Fin.Tuple.Basic
import Mathlib.Data.List.Sort
import Classgraph.LibWalk

namespace Classgraph

/-- A slot is that of the primary library, that of a needed library or unused. -/
theorem slot_cases (opened : List CStr) (i : Slot) :
    i = libFirst ∨ (∃ k needed, i.val = k + 1 ∧ opened[k]? = some needed) ∨ opened.length < i.val := by
  by_cases first : i.val = 0
  · exact Or.inl (Fin.ext first)
  · by_cases used : i.val ≤ opened.length
    · obtain ⟨k, slot⟩ : ∃ k, i.val = k + 1 := ⟨i.val - 1, by omega⟩
      exact Or.inr (Or.inl ⟨k, opened[k], slot, List.getElem?_eq_getElem (by omega)⟩)
    · exact Or.inr (Or.inr (by omega))

section

variable {libs : Libs} {opened : List CStr} {i : Slot} {lib : LibraryInfo} {needed : CStr}
  (slot : i.val = opened.length + 1)
include slot

theorem update_first : Function.update libs i lib libFirst = libs libFirst := by
  have other : libFirst ≠ i := by
    intro same
    rw [← same] at slot
    exact Nat.succ_ne_zero _ slot.symm
  exact Function.update_of_ne other ..

/-- What holds of the slots of all needed libraries holds with one more of them in the next slot. -/
theorem update_later (entry : CStr → LibraryInfo → Prop)
    (entries : ∀ (j : Slot) k other, j.val = k + 1 → opened[k]? = some other → entry other (libs j))
    (new : entry needed lib) (j : Slot) (k : Nat) (other : CStr) (atSlot : j.val = k + 1)
    (atOther : (opened ++ [needed])[k]? = some other) : entry other (Function.update libs i lib j) := by
  by_cases same : j = i
  · have last : k = opened.length := by
      rw [same] at atSlot
      omega
    rw [last, List.getElem?_concat_length] at atOther
    cases atOther
    rw [same, Function.update_self]
    exact new
  · have before : k < opened.length := by
      obtain ⟨bound, _⟩ := List.getElem?_eq_some_iff.mp atOther
      have notLast : j.val ≠ i.val := fun eq => same (Fin.ext eq)
      rw [List.length_append, List.length_singleton] at bound
      omega
    rw [List.getElem?_append_left before] at atOther
    rw [Function.update_of_ne same]
    exact entries j k other atSlot atOther

theorem update_unused (unused : LibraryInfo → Prop) (rest : ∀ j : Slot, opened.length < j.val → unused (libs j))
    (j : Slot) (after : (opened ++ [needed]).length < j.val) : unused (Function.update libs i lib j) := by
  rw [List.length_append, List.length_singleton] at after
  have other : j ≠ i := by
    intro same
    rw [same] at after
    omega
  rw [Function.update_of_ne other]
  exact rest j (by omega)

end

/-- The slots with a name are the first ones: that of the primary library, then those of the libraries opened since. -/
structure NamedPrefix (path : CStr) (libs : Libs) (opened : List CStr) : Prop where
  bound : opened.length < numLibs
  first : (libs libFirst).isPrimary = true ∧ (libs libFirst).name = some (basename path)
  later : ∀ (i : Slot) k needed, i.val = k + 1 → opened[k]? = some needed →
    (libs i).isPrimary = false ∧ (libs i).name = some (basename needed)
  unused : ∀ i : Slot, opened.length < i.val → (libs i).name = none

section

variable {path : CStr} {libs : Libs} {opened : List CStr}

theorem NamedPrefix.start {lib : LibraryInfo} (entry : lib.isPrimary = true ∧ lib.name = some (basename path)) :
    NamedPrefix path (Function.update emptyLibs libFirst lib) [] := by
  refine ⟨by decide, ?_, (fun _ _ _ _ atNeeded => nomatch atNeeded), ?_⟩
  · rw [Function.update_self]
    exact entry
  · intro i after
    have other : i ≠ libFirst := by
      intro same
      rw [same] at after
      exact Nat.not_lt_zero _ after
    rw [Function.update_of_ne other]
    rfl

theorem NamedPrefix.used_iff (named : NamedPrefix path libs opened) (i : Slot) :
    (libs i).name.isSome ↔ i.val ≤ opened.length := by
  rcases slot_cases opened i with rfl | needed | unused
  · rw [named.first.2]
    exact ⟨fun _ => Nat.zero_le _, fun _ => rfl⟩
  · obtain ⟨k, needed, slot, atNeeded⟩ := needed
    obtain ⟨bound, _⟩ := List.getElem?_eq_some_iff.mp atNeeded
    rw [(named.later i k needed slot atNeeded).2]
    exact ⟨fun _ => by omega, fun _ => rfl⟩
  · have notUsed : ¬i.val ≤ opened.length := by omega
    rw [named.unused i unused]
    exact ⟨fun used => absurd used (by decide), fun used => absurd used notUsed⟩

/-- The used slots are the first ones, so that the search for a free slot finds the next one. -/
theorem NamedPrefix.freeSlot_some (named : NamedPrefix path libs opened) {i : Slot} (free : freeSlot libs = some i) :
    i.val = opened.length + 1 := by
  rw [freeSlot, ← Fin.find?_eq_find?_finRange, Fin.find?_eq_some_iff] at free
  obtain ⟨notUsed, first⟩ := free
  have after : ¬i.val ≤ opened.length := by
    rw [← named.used_iff]
    simpa using notUsed
  by_contra other
  have room : opened.length + 1 < i.val := by omega
  have isNamed := first ⟨opened.length + 1, by omega⟩ room
  have used := (named.used_iff ⟨opened.length + 1, by omega⟩).mp (by simpa using isNamed)
  exact absurd used (Nat.not_succ_le_self _)

theorem NamedPrefix.freeSlot_isSome (named : NamedPrefix path libs opened) (room : opened.length + 1 < numLibs) :
    (freeSlot libs).isSome := by
  have unused := named.unused ⟨opened.length + 1, room⟩ (Nat.lt_succ_self _)
  rw [freeSlot, List.find?_isSome]
  exact ⟨⟨opened.length + 1, room⟩, List.mem_finRange _, by rw [unused]; rfl⟩

/-- The search fails only where all slots are used. -/
theorem NamedPrefix.freeSlot_none (named : NamedPrefix path libs opened) :
    freeSlot libs = none ↔ opened.length + 1 = numLibs := by
  have bound := named.bound
  constructor
  · intro full
    by_contra other
    have free := named.freeSlot_isSome (by omega)
    rw [full] at free
    cases free
  · intro full
    cases free : freeSlot libs with
    | none => rfl
    | some i =>
      have slot := named.freeSlot_some free
      have inTable := i.isLt
      omega

/-- Taking the free slot for a needed library. -/
theorem NamedPrefix.take (named : NamedPrefix path libs opened) {i : Slot} {needed : CStr} {lib : LibraryInfo}
    (free : freeSlot libs = some i) (entry : lib.isPrimary = false ∧ lib.name = some (basename needed)) :
    NamedPrefix path (Function.update libs i lib) (opened ++ [needed]) := by
  have slot := named.freeSlot_some free
  refine ⟨?_, ?_, ?_, update_unused slot (·.name = none) named.unused⟩
  · rw [List.length_append, List.length_singleton, ← slot]
    exact i.isLt
  · rw [update_first slot]
    exact named.first
  · exact update_later slot (fun needed lib => lib.isPrimary = false ∧ lib.name = some (basename needed))
      named.later entry

/-- The loop ends by itself after as many rounds as slots are used, and visits exactly these, in their order. -/
theorem NamedPrefix.walk (named : NamedPrefix path libs opened) {fuel : Nat} (enough : opened.length < fuel) :
    libWalkFrom libs fuel libFirst = (List.finRange numLibs).filter fun i => (libs i).name.isSome := by
  refine (libWalkFrom_increasing libs fuel libFirst).eq_of_mem_iff ((List.pairwise_lt_finRange _).filter _) ?_
  intro i
  rw [List.mem_filter]
  constructor
  · intro visited
    exact ⟨List.mem_finRange _, libWalkFrom_used ((named.used_iff libFirst).mpr (Nat.zero_le _)) visited⟩
  · rintro ⟨_, used⟩
    have last := (named.used_iff i).mp used
    refine mem_libWalkFrom (Nat.zero_le _) (by simp only [libFirst]; omega) ?_
    intro j _ before
    exact (named.used_iff j).mpr (Nat.le_trans before last)

end

end Classgraph
