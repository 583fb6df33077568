import Classgraph.AddrLookup
import Classgraph.Dependencies

namespace Classgraph
open Run Machine

/-- What the slot of a call of `lib_init` holds while the call opens and reads its file: the name is set at once,
and the steps after that only change other fields. -/
inductive Opening (env : Env) (primary : Bool) (path : CStr) (start : LibraryInfo) : LibraryInfo → Prop
  | named : Opening env primary path start
      { start with isPrimary := primary, name := some (basename path), path := path }
  | opened {lib fd path'} : Opening env primary path start lib → libOpen env path = .ok (fd, path') →
      Opening env primary path start { lib with path := path' }
  | mapped {lib lib' fd} : Opening env primary path start lib → libMap env fd lib = .ok lib' →
      Opening env primary path start lib'
  | recognised {lib lib'} : Opening env primary path start lib → libFormat env.mem lib = .ok lib' →
      Opening env primary path start lib'
  | based {lib baseaddr} : Opening env primary path start lib → libBase env lib = .ok (some baseaddr) →
      Opening env primary path start { lib with baseaddr := baseaddr }
  | read {lib lib'} : Opening env primary path start lib → symtabInit env lib = .ok lib' →
      Opening env primary path start lib'

section

variable {env : Env} {primary : Bool} {path : CStr} {start lib : LibraryInfo}

theorem Opening.entry (opening : Opening env primary path start lib) :
    lib.isPrimary = primary ∧ lib.name = some (basename path) := by
  induction opening with
  | named => exact ⟨rfl, rfl⟩
  | opened _ _ ih => exact ih
  | mapped _ run ih =>
    have same := (libMap_opened _ _ _).of_ok run
    exact ⟨same.isPrimary.trans ih.1, same.name.trans ih.2⟩
  | recognised _ run ih =>
    have same := (libFormat_opened _ _).of_ok run
    exact ⟨same.isPrimary.trans ih.1, same.name.trans ih.2⟩
  | based _ _ ih => exact ih
  | read _ run ih =>
    have same := (symtabInit_entry _ _).of_ok run
    exact ⟨same.isPrimary.trans ih.1, same.name.trans ih.2⟩

/-- The steps are those of `lib_init`, whichever of its exits it takes. -/
theorem libLoad_opening {depends : List CStr} (load : libLoad env start primary path = .ok (lib, depends)) :
    Opening env primary path start lib := by
  obtain ⟨⟨fd, path'⟩, opened, load⟩ := bind_ok.mp load
  obtain ⟨mapped, mapRun, load⟩ := bind_ok.mp load
  obtain ⟨recognised, formatRun, load⟩ := bind_ok.mp load
  obtain ⟨base, baseRun, load⟩ := bind_ok.mp load
  have claimed : Opening env primary path start _ := .named
  have opening := Opening.recognised (.mapped (.opened claimed opened) mapRun) formatRun
  cases base with
  | none =>
    cases pure_ok.mp load
    exact opening
  | some baseaddr =>
    obtain ⟨result, readRun, load⟩ := bind_ok.mp load
    cases pure_ok.mp load
    exact .read (.based opening baseRun) readRun

end

/-- The tables that calls of `lib_init` lead to, the first of them for the primary library, whatever the others
are for and whichever of them have returned. -/
inductive InitReach (env : Env) (path : CStr) : Libs → List CStr → Prop
  | start {i lib depends} : freeSlot emptyLibs = some i → libLoad env (emptyLibs i) true path = .ok (lib, depends) →
      InitReach env path (Function.update emptyLibs i lib) []
  | call {libs opened i needed lib depends} : InitReach env path libs opened → freeSlot libs = some i →
      libLoad env (libs i) false needed = .ok (lib, depends) →
      InitReach env path (Function.update libs i lib) (opened ++ [needed])

/-- These tables, and those while the innermost call opens its file. -/
inductive InitState (env : Env) (path : CStr) : Libs → List CStr → Prop
  | settled {libs opened} : InitReach env path libs opened → InitState env path libs opened
  | openingFirst {i lib} : freeSlot emptyLibs = some i → Opening env true path (emptyLibs i) lib →
      InitState env path (Function.update emptyLibs i lib) []
  | opening {libs opened i needed lib} : InitReach env path libs opened → freeSlot libs = some i →
      Opening env false needed (libs i) lib →
      InitState env path (Function.update libs i lib) (opened ++ [needed])

section

variable {env : Env} {path : CStr} {libs : Libs} {opened : List CStr}

/-- The recursion of `lib_init` makes such calls. -/
theorem LoadReach.calls {active : List (List CStr)} (reach : LoadReach env path libs opened active) :
    InitReach env path libs opened := by
  induction reach with
  | start load => exact .start emptyLibs_freeSlot load
  | skip _ _ ih => exact ih
  | take _ _ free load ih => exact .call ih free load
  | leave _ ih => exact ih

theorem InitReach.registered (reach : InitReach env path libs opened) : Registered env path libs opened := by
  induction reach with
  | start free load =>
    cases emptyLibs_freeSlot.symm.trans free
    exact .start load
  | call _ free load ih => exact ih.take free load

theorem InitState.named (state : InitState env path libs opened) : NamedPrefix path libs opened := by
  cases state with
  | settled reach => exact reach.registered.named
  | openingFirst free opening =>
    cases emptyLibs_freeSlot.symm.trans free
    exact .start opening.entry
  | opening reach free opening => exact reach.registered.named.take free opening.entry

/-- Calls for libraries that load can go on until all slots are used. -/
theorem InitReach.fill {needed : CStr} (root : ∃ loaded, libLoad env {} true path = .ok loaded)
    (loads : ∃ loaded, libLoad env {} false needed = .ok loaded) (k : Nat) (room : k < numLibs) :
    ∃ libs, InitReach env path libs (List.replicate k needed) := by
  induction k with
  | zero =>
    obtain ⟨loaded, load⟩ := root
    exact ⟨_, .start emptyLibs_freeSlot load⟩
  | succ k ih =>
    obtain ⟨libs, reach⟩ := ih (Nat.lt_of_succ_lt room)
    obtain ⟨loaded, load⟩ := loads
    have table := reach.registered
    have isSome := table.named.freeSlot_isSome (by rwa [List.length_replicate])
    obtain ⟨i, free⟩ := Option.isSome_iff_exists.mp isSome
    rw [← table.freeSlot_unused free] at load
    rw [List.replicate_succ']
    exact ⟨_, .call reach free load⟩

end

/-- The initialised libraries in the order of their slots. -/
def usedSlots (libs : Libs) : List Slot := (List.finRange numLibs).filter fun i => (libs i).name.isSome

/-- What holds of the table in every state of the calls of `lib_init`: the used slots are a prefix of the table in the
order of the calls, with the primary library first; the next call takes the slot behind them, or fails where there is
none. The loops over the libraries end after one round for each used slot, and the symbols of the primary library
come first. -/
structure Enumerates (env : Env) (path : CStr) (libs : Libs) (opened : List CStr) : Prop where
  named : NamedPrefix path libs opened
  used : ∀ i, (libs i).name.isSome ↔ i.val ≤ opened.length
  next : ∀ i, freeSlot libs = some i → i.val = opened.length + 1
  full : freeSlot libs = none ↔ opened.length + 1 = numLibs
  walk : ∀ fuel, opened.length < fuel → libWalkFrom libs fuel libFirst = usedSlots libs
  addrAbs : ∀ symcache addr, symtabAddrAbs libs symcache addr = (usedSlots libs).findSome? fun lib =>
    if (libs lib).baseaddr ≤ addr then symtabLookupAddr symcache lib (addr - (libs lib).baseaddr) else none
  primaryFirst : ∃ dependencies, usedSlots libs = libFirst :: dependencies ∧
    (∀ slot ∈ dependencies, (libs slot).isPrimary = false) ∧
    symtabForeach env libs = symtabForeachLib env libs libFirst ++ .flow (dependencies.map (symtabForeachLib env libs))
  owners : ∀ slot, ∀ sym ∈ (symtabForeachLib env libs slot).events, sym.lib = slot
  ordered : (symtabForeach env libs).events.Pairwise fun left right => left.lib ≤ right.lib

theorem InitState.enumerates {env : Env} {path : CStr} {libs : Libs} {opened : List CStr}
    (state : InitState env path libs opened) : Enumerates env path libs opened := by
  have named := state.named
  have bound := named.bound
  have walk : libWalk libs = usedSlots libs := named.walk bound
  refine ⟨named, named.used_iff, fun _ => named.freeSlot_some, named.freeSlot_none, fun _ => named.walk, ?_, ?_,
    fun _ _ => symtabForeachLib_lib, symtabForeach_ordered env libs⟩
  · intro symcache addr
    rw [symtabAddrAbs, walk]
  · obtain ⟨dependencies, first⟩ : ∃ dependencies, libWalk libs = libFirst :: dependencies := ⟨_, rfl⟩
    have increasing := libWalkFrom_increasing libs numLibs libFirst
    rw [← libWalk, first, List.pairwise_cons] at increasing
    refine ⟨dependencies, walk.symm.trans first, ?_, ?_⟩
    · intro slot member
      have visited : slot ∈ usedSlots libs := by
        rw [← walk, first]
        exact List.mem_cons_of_mem _ member
      have last := (named.used_iff slot).mp (List.mem_filter.mp visited).2
      rcases slot_cases opened slot with rfl | needed | unused
      · exact absurd (increasing.1 libFirst member) (lt_irrefl _)
      · obtain ⟨k, needed, atSlot, atNeeded⟩ := needed
        exact (named.later slot k needed atSlot atNeeded).1
      · omega
    · rw [symtabForeach, first, List.map_cons, Emits.flow_cons]

/-- Every call of `lib_init` for the primary library returns a state in which the table is such a prefix, or ends where
a file cannot be loaded or no slot is left; so is every state that its recursion goes through, those while a call is
still opening its file among them, and every state of further calls. -/
theorem initState_enumerates (env : Env) (path : CStr) :
    (∀ libs, libInitPrimary env path = .ok libs →
      ∃ opened, InitReach env path libs opened ∧ LoadReach env path libs opened []) ∧
    (∀ fault, libInitPrimary env path = .error fault → Stuck env path fault) ∧
    (∀ libs opened active, LoadReach env path libs opened active → InitReach env path libs opened) ∧
    (∀ start primary needed lib depends, libLoad env start primary needed = .ok (lib, depends) →
      Opening env primary needed start lib) ∧
    ∀ libs opened, InitState env path libs opened → Enumerates env path libs opened := by
  refine ⟨?_, fun _ => (libInitPrimary_holds env path).of_error, fun _ _ _ => LoadReach.calls,
    fun _ _ _ _ _ => libLoad_opening, fun _ _ => InitState.enumerates⟩
  intro libs run
  obtain ⟨opened, reach⟩ := (libInitPrimary_holds env path).of_ok run
  exact ⟨opened, reach.calls, reach⟩

/-- The table that is returned, a state in which one call is still opening its file, and one in which all slots are
used. -/
theorem cyclic_enumerates :
    (∃ libs opened, libInitPrimary cyclicHost "app".toList = .ok libs ∧
      Enumerates cyclicHost "app".toList libs opened ∧ opened.length = 3) ∧
    (∃ libs, InitState cyclicHost "app".toList libs ["libA.so".toList, "libb.so".toList] ∧
      libWalkFrom libs 3 libFirst = usedSlots libs ∧ ∀ i, freeSlot libs = some i → i.val = 3) ∧
    ∃ libs, InitState cyclicHost "app".toList libs (List.replicate 255 "libA.so".toList) ∧
      freeSlot libs = none ∧ ∀ i, (libs i).name.isSome := by
  refine ⟨?_, ?_, ?_⟩
  · have passes : (libInitPrimary cyclicHost "app".toList).toOption.any fun libs => freeSlot libs = some 4 := by
      decide +kernel
    obtain ⟨libs, run, free⟩ := returns_of_any passes
    obtain ⟨opened, reach, _⟩ := (initState_enumerates cyclicHost "app".toList).1 libs run
    have table := (initState_enumerates cyclicHost "app".toList).2.2.2.2 libs opened (.settled reach)
    exact ⟨libs, opened, run, table, Nat.succ.inj (table.next 4 (of_decide_eq_true free)).symm⟩
  · have state : InitState cyclicHost "app".toList _ (["libA.so".toList] ++ ["libb.so".toList]) :=
      .opening (i := 2) cyclicReach.calls (by decide +kernel) .named
    have table := (initState_enumerates cyclicHost "app".toList).2.2.2.2 _ _ state
    exact ⟨_, state, table.walk 3 (by decide), table.next⟩
  · have libA := needsOnly_loads (cyclic_next "libA.so".toList (by decide))
    obtain ⟨libs, reach⟩ := InitReach.fill (needsOnly_loads cyclic_root) libA 255 (by decide)
    have table := (initState_enumerates cyclicHost "app".toList).2.2.2.2 _ _ (.settled reach)
    have full := table.full
    have used := table.used
    rw [List.length_replicate] at full used
    refine ⟨libs, .settled reach, full.mpr rfl, ?_⟩
    intro i
    exact (used i).mpr (Nat.le_of_lt_succ i.isLt)

end Classgraph
