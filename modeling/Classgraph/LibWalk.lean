import Mathlib.Order.Fin.Basic
import Classgraph.General.Run
import Classgraph.Symtab

namespace Classgraph

theorem libNext_some {libs : Libs} {lib next : Slot} (step : libNext libs lib = some next) :
    next.val = lib.val + 1 ∧ (libs next).name.isSome := by
  unfold libNext at step
  split at step
  · split at step
    · rename_i used
      cases step
      exact ⟨rfl, used⟩
    · cases step
  · cases step

theorem libWalkFrom_ge {libs : Libs} {fuel : Nat} {lib slot : Slot} (member : slot ∈ libWalkFrom libs fuel lib) :
    lib ≤ slot := by
  induction fuel generalizing lib with
  | zero => simp [libWalkFrom] at member
  | succ fuel ih =>
    rw [libWalkFrom] at member
    rcases List.mem_cons.mp member with rfl | later
    · exact le_rfl
    · cases step : libNext libs lib with
      | none => simp [step] at later
      | some next =>
        simp only [step, Option.map_some, Option.getD_some] at later
        have after := (libNext_some step).1
        have above := ih later
        rw [Fin.le_def] at above ⊢
        omega

/-- The loop over the libraries visits them in the order of their slots, none twice. -/
theorem libWalkFrom_increasing (libs : Libs) (fuel : Nat) (lib : Slot) :
    (libWalkFrom libs fuel lib).Pairwise (· < ·) := by
  induction fuel generalizing lib with
  | zero => exact .nil
  | succ fuel ih =>
    rw [libWalkFrom]
    cases step : libNext libs lib with
    | none => exact List.pairwise_singleton _ _
    | some next =>
      refine List.pairwise_cons.mpr ⟨?_, ih next⟩
      intro slot later
      have after := (libNext_some step).1
      have above := libWalkFrom_ge later
      rw [Fin.le_def] at above
      rw [Fin.lt_def]
      omega

/-- The loop does not stop before a slot up to which all slots are used. -/
theorem mem_libWalkFrom {libs : Libs} {fuel : Nat} {lib slot : Slot} (above : lib ≤ slot)
    (near : slot.val < lib.val + fuel) (used : ∀ i, lib < i → i ≤ slot → (libs i).name.isSome) :
    slot ∈ libWalkFrom libs fuel lib := by
  induction fuel generalizing lib with
  | zero =>
    rw [Fin.le_def] at above
    omega
  | succ fuel ih =>
    rw [libWalkFrom]
    by_cases here : lib = slot
    · rw [here]
      exact List.mem_cons_self ..
    · have below : lib.val < slot.val := by
        rw [Fin.le_def] at above
        have different : lib.val ≠ slot.val := fun same => here (Fin.ext same)
        omega
      have bound : lib.val + 1 < numLibs := by omega
      have nextUsed := used ⟨lib.val + 1, bound⟩ (Nat.lt_succ_self _) below
      have next : libNext libs lib = some ⟨lib.val + 1, bound⟩ := by rw [libNext, dif_pos bound, if_pos nextUsed]
      rw [next, Option.map_some, Option.getD_some]
      refine List.mem_cons_of_mem _ (ih below (by simp only; omega) ?_)
      intro i after before
      exact used i (Fin.lt_def.mpr (Nat.lt_of_succ_lt after)) before

/-- The loop visits used slots only. -/
theorem libWalkFrom_used {libs : Libs} {fuel : Nat} {lib slot : Slot} (used : (libs lib).name.isSome)
    (visited : slot ∈ libWalkFrom libs fuel lib) : (libs slot).name.isSome := by
  induction fuel generalizing lib with
  | zero => cases visited
  | succ fuel ih =>
    rw [libWalkFrom] at visited
    rcases List.mem_cons.mp visited with rfl | later
    · exact used
    · cases step : libNext libs lib with
      | none => simp [step] at later
      | some next =>
        simp only [step, Option.map_some, Option.getD_some] at later
        exact ih (libNext_some step).2 later

theorem elfForeachEntry_lib {env : Env} {slot : Slot} {lib : LibraryInfo} {i : Nat} {sym : Symbol}
    (run : elfForeachEntry env slot lib i = .ok (some sym)) : sym.lib = slot := by
  unfold elfForeachEntry at run
  split at run
  · cases run
  · obtain ⟨name, _, run⟩ := Run.bind_ok.mp run
    obtain ⟨demangled, _, run⟩ := Run.bind_ok.mp run
    cases Run.pure_ok.mp run
    rfl

theorem machoForeachEntry_lib {env : Env} {slot : Slot} {lib : LibraryInfo} {i : Nat} {sym : Symbol}
    (run : machoForeachEntry env slot lib i = .ok (some sym)) : sym.lib = slot := by
  obtain ⟨type, _, run⟩ := Run.bind_ok.mp run
  split at run
  · cases Run.pure_ok.mp run
  · obtain ⟨_, _, run⟩ := Run.bind_ok.mp run
    obtain ⟨addr, _, run⟩ := Run.bind_ok.mp run
    obtain ⟨name, _, run⟩ := Run.bind_ok.mp run
    obtain ⟨demangled, _, run⟩ := Run.bind_ok.mp run
    cases Run.pure_ok.mp run
    rfl

/-- Whatever the format of a library, the symbols enumerated for it belong to it. -/
theorem symtabForeachLib_lib {env : Env} {libs : Libs} {slot : Slot} {sym : Symbol}
    (member : sym ∈ (symtabForeachLib env libs slot).events) : sym.lib = slot := by
  rcases Emits.mem_append member with elf | macho
  · split at elf
    · obtain ⟨i, run⟩ := Emits.mem_each elf
      exact elfForeachEntry_lib run
    · cases elf
  · split at macho
    · obtain ⟨i, run⟩ := Emits.mem_each macho
      exact machoForeachEntry_lib run
    · cases macho

/-- Only libraries that the loops visit have enumerated symbols. -/
theorem symtabForeach_visited {env : Env} {libs : Libs} {sym : Symbol}
    (member : sym ∈ (symtabForeach env libs).events) : sym.lib ∈ libWalk libs := by
  obtain ⟨run, inRuns, inLib⟩ := Emits.mem_flow member
  obtain ⟨slot, visited, rfl⟩ := List.mem_map.mp inRuns
  rwa [symtabForeachLib_lib inLib]

/-- The enumeration delivers the symbols of the libraries in the order of their slots. -/
theorem symtabForeach_ordered (env : Env) (libs : Libs) :
    (symtabForeach env libs).events.Pairwise fun left right => left.lib ≤ right.lib := by
  refine List.Pairwise.sublist (Emits.flow_prefix _).sublist ?_
  rw [List.flatMap_map, List.pairwise_flatMap]
  refine ⟨?_, (libWalkFrom_increasing libs numLibs libFirst).imp ?_⟩
  · intro slot _
    refine List.pairwise_of_forall_mem_list ?_
    intro left leftMember right rightMember
    rw [symtabForeachLib_lib leftMember, symtabForeachLib_lib rightMember]
  · intro slot other before left leftMember right rightMember
    rw [symtabForeachLib_lib leftMember, symtabForeachLib_lib rightMember]
    exact before.le

end Classgraph
