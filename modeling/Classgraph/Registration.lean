import Classgraph.VmRanges
import Classgraph.LibPrefix

namespace Classgraph
open Run Machine

/-- Any fault. -/
abbrev Anyhow : Fault → Prop := fun _ => True

theorem elfSetSymtab_entry (lib : LibraryInfo) (scn : Option ElfScn) :
    Holds Anyhow (elfSetSymtab lib scn) (SameEntry lib) := by
  unfold elfSetSymtab
  split
  · split
    · exact True.intro
    · exact ⟨rfl, rfl⟩
  · exact ⟨rfl, rfl⟩

theorem symtabElfInit_entry (env : Env) (lib : LibraryInfo) :
    Holds Anyhow (symtabElfInit env lib) (SameEntry lib) := by
  refine (Holds.trivial _).bind ?_
  intro found _
  have rest : Holds Anyhow (do
      let lib ←
        elfSetSymtab { lib with elfHdr := lib.map, elf := env.elfMemory lib.map lib.size, depends := [] } found.2
      return { lib with depends := ← elfDepends env lib }) (SameEntry lib) := by
    refine (elfSetSymtab_entry _ _).bind ?_
    intro lib same
    exact (Holds.trivial _).bind fun _ _ => ⟨same.isPrimary, same.name⟩
  dsimp only
  split
  · exact (Holds.trivial _).bind fun _ _ => rest
  · exact rest

theorem symtabInit_entry (env : Env) (lib : LibraryInfo) : Holds Anyhow (symtabInit env lib) (SameEntry lib) := by
  have machoPart (lib : LibraryInfo) :
      Holds Anyhow (if lib.isMacho then symtabMachoInit env.malloc env.mem lib else pure lib) (SameEntry lib) := by
    split
    · cases run : symtabMachoInit env.malloc env.mem lib with
      | error fault => exact True.intro
      | ok result => exact symtabMachoInit_entry run
    · exact ⟨rfl, rfl⟩
  unfold symtabInit
  dsimp only
  split
  · refine (symtabElfInit_entry env lib).bind ?_
    intro elf same
    exact (machoPart elf).imp fun _ later => same.trans later
  · exact machoPart lib

/-- Up to the call of `symtab_init` the list of needed names is that of the unused slot. -/
structure Opened (lib lib' : LibraryInfo) : Prop extends SameEntry lib lib' where
  depends : lib'.depends = lib.depends

theorem elfFormat_opened (mem : Mem) (lib : LibraryInfo) : Holds Anyhow (elfFormat mem lib) (Opened lib) := by
  refine (Holds.trivial _).bind ?_
  intro isElf _
  split
  · refine (Holds.trivial _).bind fun _ _ => (Holds.trivial _).bind fun _ _ => (Holds.trivial _).bind fun _ _ => ?_
    refine (Holds.trivial _).bind fun _ _ => (Holds.trivial _).bind fun _ _ => (Holds.trivial _).bind fun _ _ => ?_
    exact ⟨⟨rfl, rfl⟩, rfl⟩
  · exact ⟨⟨rfl, rfl⟩, rfl⟩

theorem machoFormat_opened (mem : Mem) (lib : LibraryInfo) : Holds Anyhow (machoFormat mem lib) (Opened lib) := by
  unfold machoFormat
  split
  · refine (Holds.trivial _).bind ?_
    intro magic _
    split
    · exact ⟨⟨rfl, rfl⟩, rfl⟩
    · exact ⟨⟨rfl, rfl⟩, rfl⟩
  · exact ⟨⟨rfl, rfl⟩, rfl⟩

theorem libFormat_opened (mem : Mem) (lib : LibraryInfo) : Holds Anyhow (libFormat mem lib) (Opened lib) := by
  refine (elfFormat_opened mem lib).bind ?_
  intro elf first
  refine (machoFormat_opened mem elf).bind ?_
  intro macho second
  refine (Holds.trivial _).bind fun _ _ => (Holds.trivial _).bind fun _ _ => ?_
  exact ⟨first.toSameEntry.trans second.toSameEntry, second.depends.trans first.depends⟩

theorem libMap_opened (env : Env) (fd : Nat) (lib : LibraryInfo) : Holds Anyhow (libMap env fd lib) (Opened lib) := by
  unfold libMap
  split
  · exact True.intro
  · split
    · exact True.intro
    · exact ⟨⟨rfl, rfl⟩, rfl⟩

/-- What `lib_init` leaves in an unused slot. -/
structure LoadedAs (primary : Bool) (path : CStr) (lib : LibraryInfo) (depends : List CStr) : Prop where
  isPrimary : lib.isPrimary = primary
  name : lib.name = some (basename path)
  depends : lib.depends = depends

theorem libLoad_loadedAs (env : Env) (primary : Bool) (path : CStr) :
    Holds Anyhow (libLoad env {} primary path) fun loaded => LoadedAs primary path loaded.1 loaded.2 := by
  refine (Holds.trivial _).bind ?_
  intro opened _
  refine (libMap_opened _ _ _).bind ?_
  intro mapped first
  refine (libFormat_opened _ _).bind ?_
  intro lib second
  refine (Holds.trivial _).bind ?_
  intro base _
  cases base with
  | none =>
    exact ⟨second.isPrimary.trans first.isPrimary, second.name.trans first.name, second.depends.trans first.depends⟩
  | some baseaddr =>
    refine (symtabInit_entry _ _).bind ?_
    intro loaded third
    exact ⟨third.isPrimary.trans (second.isPrimary.trans first.isPrimary),
      third.name.trans (second.name.trans first.name), rfl⟩

/-- The first slots hold the primary library and the needed libraries in the order in which
they were opened, and all others are unused. -/
structure Registered (env : Env) (path : CStr) (libs : Libs) (opened : List CStr) : Prop where
  bound : opened.length < numLibs
  primary : ∃ depends, libLoad env {} true path = .ok (libs libFirst, depends)
  loaded : ∀ (i : Slot) (k : Nat) (needed : CStr), i.val = k + 1 → opened[k]? = some needed →
    ∃ depends, libLoad env {} false needed = .ok (libs i, depends)
  unused : ∀ i : Slot, opened.length < i.val → libs i = {}

section

variable {env : Env} {path : CStr} {libs : Libs} {opened : List CStr}

theorem Registered.primary_entry (table : Registered env path libs opened) :
    LoadedAs true path (libs libFirst) (libs libFirst).depends := by
  obtain ⟨depends, load⟩ := table.primary
  have entry := (libLoad_loadedAs env true path).of_ok load
  exact ⟨entry.isPrimary, entry.name, rfl⟩

theorem Registered.entry (table : Registered env path libs opened) {i : Slot} {k : Nat} {needed : CStr}
    (slot : i.val = k + 1) (atNeeded : opened[k]? = some needed) :
    LoadedAs false needed (libs i) (libs i).depends := by
  obtain ⟨depends, load⟩ := table.loaded i k needed slot atNeeded
  have entry := (libLoad_loadedAs env false needed).of_ok load
  exact ⟨entry.isPrimary, entry.name, rfl⟩

/-- Slot 0 is what is loaded for the path of the program, with the names that it needs. -/
theorem Registered.primary_load (table : Registered env path libs opened) :
    libLoad env {} true path = .ok (libs libFirst, (libs libFirst).depends) := by
  obtain ⟨depends, load⟩ := table.primary
  rw [load, ((libLoad_loadedAs env true path).of_ok load).depends]

/-- Every other used slot is what is loaded for a name that was looked for in vain. -/
theorem Registered.later_load (table : Registered env path libs opened) {i : Slot} (used : (libs i).name.isSome)
    (later : i ≠ libFirst) : ∃ needed ∈ opened, libLoad env {} false needed = .ok (libs i, (libs i).depends) := by
  rcases slot_cases opened i with first | needed | unused
  · exact absurd first later
  · obtain ⟨k, needed, slot, atNeeded⟩ := needed
    obtain ⟨depends, load⟩ := table.loaded i k needed slot atNeeded
    refine ⟨needed, List.mem_of_getElem? atNeeded, ?_⟩
    rw [load, ((libLoad_loadedAs env false needed).of_ok load).depends]
  · rw [table.unused i unused] at used
    cases used

theorem Registered.named (table : Registered env path libs opened) : NamedPrefix path libs opened where
  bound := table.bound
  first := ⟨table.primary_entry.isPrimary, table.primary_entry.name⟩
  later _ _ _ slot atNeeded := ⟨(table.entry slot atNeeded).isPrimary, (table.entry slot atNeeded).name⟩
  unused i after := by
    rw [table.unused i after]

theorem Registered.freeSlot_unused (table : Registered env path libs opened) {i : Slot}
    (free : freeSlot libs = some i) : libs i = {} := by
  have slot := table.named.freeSlot_some free
  exact table.unused i (by omega)

/-- Taking the free slot for a needed library. -/
theorem Registered.take (table : Registered env path libs opened) {i : Slot} {needed : CStr} {lib : LibraryInfo}
    {depends : List CStr} (free : freeSlot libs = some i)
    (load : libLoad env (libs i) false needed = .ok (lib, depends)) :
    Registered env path (Function.update libs i lib) (opened ++ [needed]) := by
  have slot := table.named.freeSlot_some free
  rw [table.freeSlot_unused free] at load
  refine ⟨?_, ?_, ?_, update_unused slot (· = {}) table.unused⟩
  · rw [List.length_append, List.length_singleton, ← slot]
    exact i.isLt
  · rw [update_first slot]
    exact table.primary
  · exact update_later slot (fun needed lib => ∃ depends, libLoad env {} false needed = .ok (lib, depends))
      table.loaded ⟨depends, load⟩

theorem Registered.start {lib : LibraryInfo} {depends : List CStr}
    (load : libLoad env {} true path = .ok (lib, depends)) :
    Registered env path (Function.update emptyLibs libFirst lib) [] := by
  refine ⟨by decide, ⟨depends, ?_⟩, (fun _ _ _ _ atNeeded => nomatch atNeeded), ?_⟩
  · rw [Function.update_self]
    exact load
  · intro i after
    have other : i ≠ libFirst := by
      intro same
      rw [same] at after
      exact Nat.not_lt_zero _ after
    rw [Function.update_of_ne other]
    rfl

end

/-- The names that `strcasecmp` does not tell apart are those with one lower-case form. -/
def lowerCase (name : CStr) : CStr := name.map Char.toLower

theorem strcasecmpEq_iff {lhs rhs : CStr} : strcasecmpEq lhs rhs ↔ lowerCase lhs = lowerCase rhs := beq_iff_eq

/-- A needed name that names a file in a directory of the search path. -/
def Plain (needed : CStr) : Prop := needed ≠ [] ∧ '/' ∉ needed

instance (needed : CStr) : Decidable (Plain needed) := inferInstanceAs (Decidable (_ ∧ _))

theorem Plain.basename_eq {needed : CStr} (plain : Plain needed) : basename needed = needed := by
  obtain ⟨inhabited, noSlash⟩ := plain
  have trimmed : needed.rdropWhile (· = '/') = needed := by
    rw [List.rdropWhile_eq_self_iff]
    intro nonempty
    have last := List.getLast_mem nonempty
    have other : needed.getLast nonempty ≠ '/' := fun slash => noSlash (slash ▸ last)
    simpa using other
  have base : needed.rtakeWhile (· ≠ '/') = needed := by
    rw [List.rtakeWhile_eq_self_iff]
    intro c member
    have other : c ≠ '/' := fun slash => noSlash (slash ▸ member)
    simpa using other
  simp only [basename, trimmed, if_neg inhabited, base]

/-- The test that `lib_find` makes at every slot. -/
def Answers (lib : LibraryInfo) (name : CStr) : Prop :=
  lib.isPrimary = false ∧ ∃ libName, lib.name = some libName ∧ lowerCase name = lowerCase libName

theorem libFind_test (lib : LibraryInfo) (name : CStr) :
    (!lib.isPrimary && match lib.name with
      | none => false
      | some libName => strcasecmpEq name libName) = true ↔ Answers lib name := by
  unfold Answers
  rw [Bool.and_eq_true, Bool.not_eq_true']
  refine and_congr_right fun _ => ?_
  cases lib.name with
  | none => simp
  | some libName => simp [strcasecmpEq_iff]

/-- The first slot that answers is the result. -/
theorem libFind_eq_some {libs : Libs} {name : CStr} {i : Slot} :
    libFind libs name = some i ↔ Answers (libs i) name ∧ ∀ j < i, ¬Answers (libs j) name := by
  rw [libFind, ← Fin.find?_eq_find?_finRange, Fin.find?_eq_some_iff]
  refine and_congr (libFind_test _ _) (forall₂_congr fun j _ => ?_)
  rw [← Bool.not_eq_true]
  exact not_congr (libFind_test _ _)

theorem libFind_eq_none {libs : Libs} {name : CStr} : libFind libs name = none ↔ ∀ i, ¬Answers (libs i) name := by
  rw [libFind, ← Fin.find?_eq_find?_finRange, Fin.find?_eq_none_iff]
  refine forall_congr' fun i => ?_
  rw [← Bool.not_eq_true]
  exact not_congr (libFind_test _ _)

/-- Names that `strcasecmp` identifies are looked up alike. -/
theorem libFind_congr (libs : Libs) {name other : CStr} (same : lowerCase name = lowerCase other) :
    libFind libs name = libFind libs other := by
  unfold libFind strcasecmpEq
  unfold lowerCase at same
  rw [same]

section

variable {env : Env} {path : CStr} {libs : Libs} {opened : List CStr}

/-- A slot that `lib_find` returns is that of a needed library. -/
theorem Registered.answers (table : Registered env path libs opened) {name : CStr} {i : Slot}
    (answers : Answers (libs i) name) :
    ∃ k needed, i.val = k + 1 ∧ opened[k]? = some needed ∧ lowerCase name = lowerCase (basename needed) := by
  obtain ⟨notPrimary, libName, named, same⟩ := answers
  rcases slot_cases opened i with rfl | needed | unused
  · rw [table.primary_entry.isPrimary] at notPrimary
    cases notPrimary
  · obtain ⟨k, needed, slot, atNeeded⟩ := needed
    rw [(table.entry slot atNeeded).name] at named
    cases named
    exact ⟨k, needed, slot, atNeeded, same⟩
  · rw [table.unused i unused] at named
    cases named

/-- Taking the free slot changes no answer that there was. -/
theorem Registered.find_take (table : Registered env path libs opened) {i j : Slot} {name : CStr} (lib : LibraryInfo)
    (free : freeSlot libs = some i) (found : libFind libs name = some j) :
    libFind (Function.update libs i lib) name = some j := by
  obtain ⟨answers, first⟩ := libFind_eq_some.mp found
  have slot := table.named.freeSlot_some free
  have below : j < i := by
    obtain ⟨k, needed, atSlot, atNeeded, _⟩ := table.answers answers
    obtain ⟨bound, _⟩ := List.getElem?_eq_some_iff.mp atNeeded
    rw [Fin.lt_def]
    omega
  refine libFind_eq_some.mpr ⟨?_, ?_⟩
  · rw [Function.update_of_ne below.ne]
    exact answers
  · intro other before
    rw [Function.update_of_ne (before.trans below).ne]
    exact first other before

/-- The library that a free slot is taken for is found there if its name has no directory part. -/
theorem Registered.find_taken (table : Registered env path libs opened) {i : Slot} {needed : CStr} {lib : LibraryInfo}
    {depends : List CStr} (plain : Plain needed) (notFound : libFind libs needed = none)
    (free : freeSlot libs = some i) (load : libLoad env (libs i) false needed = .ok (lib, depends)) :
    libFind (Function.update libs i lib) needed = some i := by
  rw [table.freeSlot_unused free] at load
  have entry := (libLoad_loadedAs env false needed).of_ok load
  refine libFind_eq_some.mpr ⟨?_, ?_⟩
  · rw [Function.update_self]
    exact ⟨entry.isPrimary, basename needed, entry.name, by rw [plain.basename_eq]⟩
  · intro other before
    rw [Function.update_of_ne before.ne]
    exact libFind_eq_none.mp notFound other

end

/-- The strings that `lib_init` may be called with while the graph below `path` is loaded. -/
inductive Needed (env : Env) (path : CStr) : CStr → Prop
  | root {lib depends needed} : libLoad env {} true path = .ok (lib, depends) → needed ∈ depends →
      Needed env path needed
  | next {lib depends parent needed} : Needed env path parent → libLoad env {} false parent = .ok (lib, depends) →
      needed ∈ depends → Needed env path needed

/-- The states that the recursion of `lib_init` goes through, from the first slot on: the table, the
needed libraries opened so far, and what every active call still has to look for, innermost first. -/
inductive LoadReach (env : Env) (path : CStr) : Libs → List CStr → List (List CStr) → Prop
  | start {lib depends} : libLoad env {} true path = .ok (lib, depends) →
      LoadReach env path (Function.update emptyLibs libFirst lib) [] [depends]
  | skip {libs opened needed rest active} : LoadReach env path libs opened ((needed :: rest) :: active) →
      (libFind libs needed).isSome → LoadReach env path libs opened (rest :: active)
  | take {libs opened needed rest active i lib depends} : LoadReach env path libs opened ((needed :: rest) :: active) →
      libFind libs needed = none → freeSlot libs = some i →
      libLoad env (libs i) false needed = .ok (lib, depends) →
      LoadReach env path (Function.update libs i lib) (opened ++ [needed]) (depends :: rest :: active)
  | leave {libs opened active} : LoadReach env path libs opened ([] :: active) → LoadReach env path libs opened active

section

variable {env : Env} {path : CStr} {libs : Libs} {opened : List CStr} {active : List (List CStr)}

theorem LoadReach.registered (reach : LoadReach env path libs opened active) : Registered env path libs opened := by
  induction reach with
  | start load => exact .start load
  | skip _ _ ih => exact ih
  | take _ _ free load ih => exact ih.take free load
  | leave _ ih => exact ih

/-- Only needed names are looked for, and only needed libraries are opened. -/
theorem LoadReach.needed (reach : LoadReach env path libs opened active) :
    (∀ needed ∈ opened, Needed env path needed) ∧ ∀ names ∈ active, ∀ needed ∈ names, Needed env path needed := by
  induction reach with
  | start load =>
    refine ⟨fun _ member => absurd member List.not_mem_nil, ?_⟩
    intro names member needed inNames
    rw [List.mem_singleton.mp member] at inNames
    exact .root load inNames
  | skip _ _ ih =>
    refine ⟨ih.1, ?_⟩
    intro names member needed inNames
    rcases List.mem_cons.mp member with rfl | outer
    · exact ih.2 _ (List.mem_cons_self ..) needed (List.mem_cons_of_mem _ inNames)
    · exact ih.2 names (List.mem_cons_of_mem _ outer) needed inNames
  | @take libs opened needed rest active i lib depends reach _ free load ih =>
    have isNeeded := ih.2 _ (List.mem_cons_self ..) needed (List.mem_cons_self ..)
    have table := reach.registered
    rw [table.freeSlot_unused free] at load
    refine ⟨?_, ?_⟩
    · intro other member
      rcases List.mem_append.mp member with old | new
      · exact ih.1 other old
      · rw [List.mem_singleton.mp new]
        exact isNeeded
    · intro names member other inNames
      rcases List.mem_cons.mp member with rfl | outer
      · exact .next isNeeded load inNames
      · rcases List.mem_cons.mp outer with rfl | further
        · exact ih.2 _ (List.mem_cons_self ..) other (List.mem_cons_of_mem _ inNames)
        · exact ih.2 names (List.mem_cons_of_mem _ further) other inNames
  | leave _ ih => exact ⟨ih.1, fun names member => ih.2 names (List.mem_cons_of_mem _ member)⟩

theorem LoadReach.head_needed {needed : CStr} {rest : List CStr}
    (reach : LoadReach env path libs opened ((needed :: rest) :: active)) : Needed env path needed :=
  reach.needed.2 _ (List.mem_cons_self ..) needed (List.mem_cons_self ..)

/-- A needed library without a directory part in its name is found in the slot that was taken for it. -/
theorem LoadReach.found (reach : LoadReach env path libs opened active) {i : Slot} {k : Nat} {needed : CStr}
    (slot : i.val = k + 1) (atNeeded : opened[k]? = some needed) (plain : Plain needed) :
    libFind libs needed = some i := by
  induction reach with
  | start load => cases atNeeded
  | skip _ _ ih => exact ih atNeeded
  | leave _ ih => exact ih atNeeded
  | @take libs opened _ _ _ j lib depends reach notFound free load ih =>
    have table := reach.registered
    by_cases before : k < opened.length
    · rw [List.getElem?_append_left before] at atNeeded
      exact table.find_take lib free (ih atNeeded)
    · rw [List.getElem?_append_right (by omega), List.getElem?_singleton] at atNeeded
      split at atNeeded
      · cases atNeeded
        have same : i = j := by
          rw [Fin.ext_iff, table.named.freeSlot_some free]
          omega
        rw [same]
        exact table.find_taken plain notFound free load
      · cases atNeeded

/-- The names that every used slot still depends on are found, or an active call has them before it. -/
theorem LoadReach.closed (plain : ∀ needed, Needed env path needed → Plain needed)
    (reach : LoadReach env path libs opened active) {i : Slot} {needed : CStr} (member : needed ∈ (libs i).depends) :
    (libFind libs needed).isSome ∨ ∃ names ∈ active, needed ∈ names := by
  induction reach generalizing i with
  | @start lib depends load =>
    by_cases first : i = libFirst
    · have entry := (libLoad_loadedAs env true path).of_ok load
      rw [first, Function.update_self, entry.depends] at member
      exact Or.inr ⟨depends, List.mem_singleton_self _, member⟩
    · rw [Function.update_of_ne first] at member
      cases member
  | skip _ found ih =>
    rcases ih member with before | ⟨names, inActive, inNames⟩
    · exact Or.inl before
    · rcases List.mem_cons.mp inActive with rfl | outer
      · rcases List.mem_cons.mp inNames with rfl | later
        · exact Or.inl found
        · exact Or.inr ⟨_, List.mem_cons_self .., later⟩
      · exact Or.inr ⟨names, List.mem_cons_of_mem _ outer, inNames⟩
  | leave _ ih =>
    rcases ih member with found | ⟨names, inActive, inNames⟩
    · exact Or.inl found
    · rcases List.mem_cons.mp inActive with rfl | outer
      · cases inNames
      · exact Or.inr ⟨names, outer, inNames⟩
  | @take libs opened taken rest active j lib depends reach notFound free load ih =>
    have table := reach.registered
    by_cases new : i = j
    · rw [table.freeSlot_unused free] at load
      have entry := (libLoad_loadedAs env false taken).of_ok load
      rw [new, Function.update_self, entry.depends] at member
      exact Or.inr ⟨depends, List.mem_cons_self .., member⟩
    · rw [Function.update_of_ne new] at member
      rcases ih member with found | ⟨names, inActive, inNames⟩
      · obtain ⟨slot, found⟩ := Option.isSome_iff_exists.mp found
        rw [table.find_take lib free found]
        exact Or.inl rfl
      · rcases List.mem_cons.mp inActive with rfl | outer
        · rcases List.mem_cons.mp inNames with rfl | later
          · rw [table.find_taken (plain _ reach.head_needed) notFound free load]
            exact Or.inl rfl
          · exact Or.inr ⟨rest, List.mem_cons_of_mem _ (List.mem_cons_self ..), later⟩
        · exact Or.inr ⟨names, List.mem_cons_of_mem _ (List.mem_cons_of_mem _ outer), inNames⟩

end

end Classgraph
