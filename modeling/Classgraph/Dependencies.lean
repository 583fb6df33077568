import Mathlib.Data.Finset.Card
import Classgraph.ElfFile
import Classgraph.Registration

namespace Classgraph
open Run Machine

/-- How the recursion of `lib_init` can end other than by returning. -/
inductive Stuck (env : Env) (path : CStr) : Fault → Prop
  | root {fault} : libLoad env {} true path = .error fault → Stuck env path fault
  | next {needed fault} : Needed env path needed → libLoad env {} false needed = .error fault → Stuck env path fault
  | full {libs opened needed rest active} : LoadReach env path libs opened ((needed :: rest) :: active) →
      libFind libs needed = none → freeSlot libs = none → Stuck env path (.assertion .freeSlot)

section

variable {env : Env} {path : CStr}

/-- The loop over `depends`, given what `lib_init` does at every needed library that is not found. -/
theorem depends_holds {initNeeded : CStr → Libs → Except Fault Libs} (k : Nat)
    (init : ∀ libs opened needed rest active, LoadReach env path libs opened ((needed :: rest) :: active) →
      libFind libs needed = none → k ≤ opened.length →
      Holds (Stuck env path) (initNeeded needed libs)
        fun libs' => ∃ opened', LoadReach env path libs' opened' (rest :: active) ∧ k ≤ opened'.length)
    (depends : List CStr) {libs : Libs} {opened : List CStr} {active : List (List CStr)}
    (reach : LoadReach env path libs opened (depends :: active)) (enough : k ≤ opened.length) :
    Holds (Stuck env path)
      (depends.foldlM
        (fun libs needed => if (libFind libs needed).isNone then initNeeded needed libs else pure libs) libs)
      fun libs' => ∃ opened', LoadReach env path libs' opened' active ∧ k ≤ opened'.length := by
  induction depends generalizing libs opened with
  | nil => exact ⟨opened, .leave reach, enough⟩
  | cons needed rest ih =>
    rw [List.foldlM_cons]
    have first : Holds (Stuck env path) (if (libFind libs needed).isNone then initNeeded needed libs else pure libs)
        fun libs' => ∃ opened', LoadReach env path libs' opened' (rest :: active) ∧ k ≤ opened'.length := by
      cases found : libFind libs needed with
      | none => exact init libs opened needed rest active reach found enough
      | some i => exact ⟨opened, .skip reach (by rw [found]; rfl), enough⟩
    refine first.bind ?_
    intro libs' more
    obtain ⟨opened', reach, enough⟩ := more
    exact ih reach enough

/-- A call for a needed library goes through reachable states only. Every active call has a slot of its
own, so that the bound on the depth of the recursion is not met. -/
theorem libInit_holds (fuel : Nat) {libs : Libs} {opened : List CStr} {needed : CStr} {rest : List CStr}
    {active : List (List CStr)} (reach : LoadReach env path libs opened ((needed :: rest) :: active))
    (notFound : libFind libs needed = none) (depth : numLibs ≤ fuel + opened.length) :
    Holds (Stuck env path) (libInit env fuel false needed libs)
      fun libs' => ∃ opened', LoadReach env path libs' opened' (rest :: active) ∧ opened.length ≤ opened'.length := by
  induction fuel generalizing libs opened needed rest active with
  | zero =>
    have bound := reach.registered.bound
    omega
  | succ fuel ih =>
    rw [libInit]
    cases free : freeSlot libs with
    | none => exact .full reach notFound free
    | some i =>
      have loads : Holds (Stuck env path) (libLoad env (libs i) false needed)
          fun loaded => libLoad env (libs i) false needed = .ok loaded := by
        refine Holds.result fun fault stopped => ?_
        rw [reach.registered.freeSlot_unused free] at stopped
        exact .next reach.head_needed stopped
      dsimp only
      refine loads.bind ?_
      intro loaded load
      have taken := LoadReach.take reach notFound free load
      have grown : opened.length + 1 ≤ (opened ++ [needed]).length := by
        rw [List.length_append, List.length_singleton]
      refine (depends_holds (opened.length + 1) ?_ loaded.2 taken grown).imp ?_
      · intro libs opened' needed rest active reach notFound enough
        refine (ih reach notFound (by omega)).imp ?_
        intro libs' more
        obtain ⟨opened'', reach, longer⟩ := more
        exact ⟨opened'', reach, enough.trans longer⟩
      · intro libs' more
        obtain ⟨opened', reach, enough⟩ := more
        exact ⟨opened', reach, Nat.le_of_succ_le enough⟩

theorem emptyLibs_freeSlot : freeSlot emptyLibs = some libFirst := by decide

/-- `lib_init` on the first path returns a table that the recursion reaches with nothing left to
look for, or ends for one of three reasons; it does not run forever. -/
theorem libInitPrimary_holds (env : Env) (path : CStr) :
    Holds (Stuck env path) (libInitPrimary env path) fun libs => ∃ opened, LoadReach env path libs opened [] := by
  rw [libInitPrimary, libInit, emptyLibs_freeSlot]
  have loads : Holds (Stuck env path) (libLoad env {} true path) fun loaded => libLoad env {} true path = .ok loaded :=
    Holds.result fun _ stopped => .root stopped
  refine loads.bind ?_
  intro loaded load
  refine (depends_holds 0 ?_ loaded.2 (.start load) (Nat.zero_le _)).imp ?_
  · intro libs opened needed rest active reach notFound _
    refine (libInit_holds numLibs reach notFound (Nat.le_add_right _ _)).imp ?_
    intro libs' more
    obtain ⟨opened', reach, _⟩ := more
    exact ⟨opened', reach, Nat.zero_le _⟩
  · intro libs' more
    obtain ⟨opened', reach, _⟩ := more
    exact ⟨opened', reach⟩

variable {libs : Libs} {opened : List CStr} {active : List (List CStr)}

/-- Where needed names have no directory part, the libraries opened have names that `strcasecmp` tells apart. -/
theorem LoadReach.distinct (plain : ∀ needed, Needed env path needed → Plain needed)
    (reach : LoadReach env path libs opened active) : (opened.map lowerCase).Nodup := by
  rw [List.nodup_iff_getElem?_ne_getElem?]
  intro i j before bound same
  rw [List.length_map] at bound
  rw [List.getElem?_map, List.getElem?_map, List.getElem?_eq_getElem (before.trans bound),
    List.getElem?_eq_getElem bound] at same
  have slots := reach.registered.bound
  have inI := List.getElem?_eq_getElem (before.trans bound)
  have inJ := List.getElem?_eq_getElem bound
  have isPlain (k : Nat) (below : k < opened.length) := plain _ (reach.needed.1 _ (List.getElem_mem below))
  have foundI := reach.found (i := ⟨i + 1, by omega⟩) rfl inI (isPlain i _)
  have foundJ := reach.found (i := ⟨j + 1, by omega⟩) rfl inJ (isPlain j _)
  rw [libFind_congr libs (Option.some.inj same), foundJ] at foundI
  cases foundI
  exact Nat.lt_irrefl _ before

/-- The recursion finds a free slot as long as there are more slots than names. -/
theorem LoadReach.room (plain : ∀ needed, Needed env path needed → Plain needed) {names : Finset CStr}
    (covers : ∀ needed, Needed env path needed → lowerCase needed ∈ names) (few : names.card + 1 ≤ numLibs)
    {needed : CStr} {rest : List CStr} (reach : LoadReach env path libs opened ((needed :: rest) :: active))
    (notFound : libFind libs needed = none) : (freeSlot libs).isSome := by
  have inNames : (opened.map lowerCase).toFinset ⊆ names.erase (lowerCase needed) := by
    intro name member
    obtain ⟨other, wasOpened, rfl⟩ := List.mem_map.mp (List.mem_toFinset.mp member)
    refine Finset.mem_erase.mpr ⟨?_, covers other (reach.needed.1 other wasOpened)⟩
    intro same
    obtain ⟨k, atOther⟩ := List.mem_iff_getElem?.mp wasOpened
    obtain ⟨below, _⟩ := List.getElem?_eq_some_iff.mp atOther
    have bound := reach.registered.bound
    have found := reach.found (i := ⟨k + 1, by omega⟩) rfl atOther (plain other (reach.needed.1 other wasOpened))
    rw [libFind_congr libs same, notFound] at found
    cases found
  have inside := covers needed reach.head_needed
  have count := Finset.card_le_card inNames
  rw [List.toFinset_card_of_nodup (reach.distinct plain), List.length_map, Finset.card_erase_of_mem inside] at count
  have some := Finset.card_pos.mpr ⟨_, inside⟩
  exact reach.registered.named.freeSlot_isSome (by omega)

/-- `lib_find` and `lib_init` agree on needed names that have no directory part, up to case: such a
name is found in the slot taken for it, what is found was opened under the same last component, no two
slots are taken for one name, and the recursion finds a free slot as long as there are more slots than names. -/
theorem libFind_registered (reach : LoadReach env path libs opened active) :
    (∀ (k : Nat) (needed : CStr), opened[k]? = some needed → Plain needed →
      ∃ i depends, i.val = k + 1 ∧ libLoad env {} false needed = .ok (libs i, depends) ∧ libFind libs needed = some i) ∧
    (∀ name i, libFind libs name = some i →
      ∃ k needed depends, i.val = k + 1 ∧ opened[k]? = some needed ∧
        libLoad env {} false needed = .ok (libs i, depends) ∧ strcasecmpEq name (basename needed) ∧
        (Plain needed → strcasecmpEq name needed)) ∧
    (∀ (j k : Nat) (needed other : CStr), opened[j]? = some needed → opened[k]? = some other →
      Plain needed → Plain other → strcasecmpEq needed other → j = k) ∧
    ∀ (names : Finset CStr), (∀ needed, Needed env path needed → Plain needed ∧ lowerCase needed ∈ names) →
      names.card + 1 ≤ numLibs → ∀ needed rest outer, active = (needed :: rest) :: outer →
      libFind libs needed = none → (freeSlot libs).isSome := by
  have taken (k : Nat) (needed : CStr) (atNeeded : opened[k]? = some needed) (plain : Plain needed) :
      ∃ i depends, i.val = k + 1 ∧ libLoad env {} false needed = .ok (libs i, depends) ∧
        libFind libs needed = some i := by
    obtain ⟨below, _⟩ := List.getElem?_eq_some_iff.mp atNeeded
    have bound := reach.registered.bound
    have inTable : k + 1 < numLibs := by omega
    obtain ⟨depends, load⟩ := reach.registered.loaded ⟨k + 1, inTable⟩ k needed rfl atNeeded
    exact ⟨⟨k + 1, inTable⟩, depends, rfl, load, reach.found rfl atNeeded plain⟩
  refine ⟨taken, ?_, ?_, ?_⟩
  · intro name i found
    obtain ⟨k, needed, slot, atNeeded, same⟩ := reach.registered.answers (libFind_eq_some.mp found).1
    obtain ⟨depends, load⟩ := reach.registered.loaded i k needed slot atNeeded
    refine ⟨k, needed, depends, slot, atNeeded, load, strcasecmpEq_iff.mpr same, fun plain => ?_⟩
    rw [plain.basename_eq] at same
    exact strcasecmpEq_iff.mpr same
  · intro j k needed other atNeeded atOther plain otherPlain same
    obtain ⟨i, _, slot, _, found⟩ := taken j needed atNeeded plain
    obtain ⟨i', _, slot', _, found'⟩ := taken k other atOther otherPlain
    rw [libFind_congr libs (strcasecmpEq_iff.mp same), found'] at found
    cases found
    omega
  · intro names covers few needed rest outer isActive notFound
    subst isActive
    exact reach.room (fun needed isNeeded => (covers needed isNeeded).1)
      (fun needed isNeeded => (covers needed isNeeded).2) few notFound

/-- Loading a graph of libraries that all load and have few enough names returns: the first slot holds the program,
every other used slot a library that is needed from there, everything that a loaded library needs is found, and no
name is taken twice. -/
theorem libInitPrimary_closed (names : Finset CStr) (rootLoads : ∃ loaded, libLoad env {} true path = .ok loaded)
    (loads : ∀ needed, Needed env path needed → ∃ loaded, libLoad env {} false needed = .ok loaded)
    (plain : ∀ needed, Needed env path needed → Plain needed)
    (covers : ∀ needed, Needed env path needed → lowerCase needed ∈ names) (few : names.card + 1 ≤ numLibs) :
    ∃ libs, libInitPrimary env path = .ok libs ∧
      libLoad env {} true path = .ok (libs libFirst, (libs libFirst).depends) ∧
      (∀ i, (libs i).name.isSome → i ≠ libFirst → ∃ needed, Needed env path needed ∧
        libLoad env {} false needed = .ok (libs i, (libs i).depends)) ∧
      (∀ i, (libs i).name.isSome → ∀ needed ∈ (libs i).depends, (libFind libs needed).isSome) ∧
      ∀ i j name other, (libs i).isPrimary = false → (libs j).isPrimary = false → (libs i).name = some name →
        (libs j).name = some other → strcasecmpEq name other → i = j := by
  have holds := libInitPrimary_holds env path
  cases run : libInitPrimary env path with
  | error fault =>
    cases holds.of_error run with
    | root stopped =>
      obtain ⟨loaded, load⟩ := rootLoads
      cases stopped.symm.trans load
    | next isNeeded stopped =>
      obtain ⟨loaded, load⟩ := loads _ isNeeded
      cases stopped.symm.trans load
    | full reach notFound noSlot =>
      have room := reach.room plain covers few notFound
      rw [noSlot] at room
      cases room
  | ok libs =>
    obtain ⟨opened, reach⟩ := holds.of_ok run
    have taken {i : Slot} {name : CStr} (notPrimary : (libs i).isPrimary = false) (named : (libs i).name = some name) :
        libFind libs name = some i := by
      obtain ⟨k, needed, slot, atNeeded, _⟩ := reach.registered.answers ⟨notPrimary, name, named, rfl⟩
      have isPlain := plain needed (reach.needed.1 needed (List.mem_of_getElem? atNeeded))
      have entry := reach.registered.entry slot atNeeded
      rw [entry.name, isPlain.basename_eq] at named
      cases named
      exact reach.found slot atNeeded isPlain
    refine ⟨libs, rfl, reach.registered.primary_load, ?_, ?_, ?_⟩
    · intro i used later
      obtain ⟨needed, wasOpened, load⟩ := reach.registered.later_load used later
      exact ⟨needed, reach.needed.1 needed wasOpened, load⟩
    · intro i _ needed member
      rcases reach.closed plain member with found | ⟨names, inActive, _⟩
      · exact found
      · cases inActive
    · intro i j name other notPrimary otherNotPrimary named otherNamed same
      have found := taken notPrimary named
      rw [libFind_congr libs (strcasecmpEq_iff.mp same), taken otherNotPrimary otherNamed] at found
      cases found
      rfl

end

/-- A host with the given files, each with the names of the libraries it needs. -/
def graphHost (files : List (String × List String)) : Env :=
  fileHost (files.map fun file => (file.1, .needing file.2)) (.ofBytes 0 []) fun _ => .badTypeid []

/-- Whether a library is loaded and needs none but the given ones. -/
def needsOnly (names : List CStr) : Except Fault (LibraryInfo × List CStr) → Bool
  | .ok loaded => loaded.2.all fun needed => needed ∈ names
  | .error _ => false

theorem needsOnly_mem {names : List CStr} {loaded : LibraryInfo × List CStr} {needed : CStr}
    (only : needsOnly names (.ok loaded)) (member : needed ∈ loaded.2) : needed ∈ names :=
  of_decide_eq_true (List.all_eq_true.mp only needed member)

theorem needsOnly_loads {names : List CStr} {load : Except Fault (LibraryInfo × List CStr)}
    (only : needsOnly names load) : ∃ loaded, load = .ok loaded := by
  cases load with
  | error fault => cases only
  | ok loaded => exact ⟨loaded, rfl⟩

theorem Needed.mem {env : Env} {path needed : CStr} {names : List CStr} (isNeeded : Needed env path needed)
    (root : needsOnly names (libLoad env {} true path))
    (next : ∀ parent ∈ names, needsOnly names (libLoad env {} false parent)) : needed ∈ names := by
  induction isNeeded with
  | root load member =>
    rw [load] at root
    exact needsOnly_mem root member
  | next _ load member ih =>
    have only := next _ ih
    rw [load] at only
    exact needsOnly_mem only member

/-- Two libraries that need each other, one of which needs the program and one of which is
also needed under another spelling. -/
def cyclicHost : Env :=
  graphHost [("app", ["libA.so", "libb.so"]), ("libA.so", ["libb.so", "app"]), ("libb.so", ["LIBA.so", "libA.so"]),
    ("LIBA.so", ["libb.so"])]

def cyclicNames : List CStr := ["libA.so".toList, "libb.so".toList, "app".toList, "LIBA.so".toList]

theorem cyclic_root : needsOnly cyclicNames (libLoad cyclicHost {} true "app".toList) := by decide +kernel

theorem cyclic_next : ∀ parent ∈ cyclicNames, needsOnly cyclicNames (libLoad cyclicHost {} false parent) := by
  decide +kernel

theorem cyclic_plain : ∀ needed ∈ cyclicNames, Plain needed := by decide

/-- The paths and the needed names of the used slots, in order. -/
def loadedFiles (libs : Libs) : List (CStr × List CStr) :=
  (List.finRange numLibs).filterMap fun i => (libs i).name.map fun _ => ((libs i).path, (libs i).depends)

theorem returns_of_any {run : Except Fault Libs} {test : Libs → Bool} (passes : run.toOption.any test) :
    ∃ libs, run = .ok libs ∧ test libs := by
  cases run with
  | error fault => cases passes
  | ok libs => exact ⟨libs, rfl, passes⟩

/-- The program takes a second slot for itself, since `lib_find` passes over the primary library. -/
theorem cyclic_closed : ∃ libs, libInitPrimary cyclicHost "app".toList = .ok libs ∧
    loadedFiles libs = [("app".toList, ["libA.so".toList, "libb.so".toList]),
      ("libA.so".toList, ["libb.so".toList, "app".toList]), ("libb.so".toList, ["LIBA.so".toList, "libA.so".toList]),
      ("app".toList, ["libA.so".toList, "libb.so".toList])] ∧
    (∀ i, (libs i).name.isSome → ∀ needed ∈ (libs i).depends, (libFind libs needed).isSome) ∧
    ∀ i j name other, (libs i).isPrimary = false → (libs j).isPrimary = false → (libs i).name = some name →
      (libs j).name = some other → strcasecmpEq name other → i = j := by
  have inNames {needed : CStr} (isNeeded : Needed cyclicHost "app".toList needed) : needed ∈ cyclicNames :=
    isNeeded.mem cyclic_root cyclic_next
  obtain ⟨libs, run, _, _, closed, distinct⟩ :=
    libInitPrimary_closed (cyclicNames.map lowerCase).toFinset (needsOnly_loads cyclic_root)
      (fun needed isNeeded => needsOnly_loads (cyclic_next needed (inNames isNeeded)))
      (fun needed isNeeded => cyclic_plain needed (inNames isNeeded))
      (fun needed isNeeded => List.mem_toFinset.mpr (List.mem_map_of_mem (inNames isNeeded))) (by decide)
  have passes : (libInitPrimary cyclicHost "app".toList).toOption.any fun libs => decide (
      loadedFiles libs = [("app".toList, ["libA.so".toList, "libb.so".toList]),
        ("libA.so".toList, ["libb.so".toList, "app".toList]), ("libb.so".toList, ["LIBA.so".toList, "libA.so".toList]),
        ("app".toList, ["libA.so".toList, "libb.so".toList])]) := by decide +kernel
  rw [run] at passes
  exact ⟨libs, run, of_decide_eq_true passes, closed, distinct⟩

theorem load_eq {load : Except Fault (LibraryInfo × List CStr)} {depends : List CStr}
    (needs : load.toOption.map Prod.snd = some depends) :
    load = .ok ((load.toOption.map Prod.fst).getD {}, depends) := by
  cases load with
  | error fault => cases needs
  | ok loaded =>
    cases needs
    rfl

/-- What is loaded for a file of `cyclicHost`. -/
def cyclicLib (primary : Bool) (path : String) : LibraryInfo :=
  ((libLoad cyclicHost {} primary path.toList).toOption.map Prod.fst).getD {}

/-- The table once the first needed library is opened. -/
def cyclicLibs : Libs :=
  Function.update (Function.update emptyLibs libFirst (cyclicLib true "app")) 1 (cyclicLib false "libA.so")

theorem cyclicReach : LoadReach cyclicHost "app".toList cyclicLibs ["libA.so".toList]
    [["libb.so".toList, "app".toList], ["libb.so".toList]] := by
  have root : libLoad cyclicHost {} true "app".toList = .ok (_, ["libA.so".toList, "libb.so".toList]) :=
    load_eq (by decide +kernel)
  have first : libLoad cyclicHost {} false "libA.so".toList = .ok (_, ["libb.so".toList, "app".toList]) :=
    load_eq (by decide +kernel)
  exact LoadReach.take (i := 1) (LoadReach.start root) (by decide +kernel) (by decide +kernel) first

theorem cyclic_found : ∃ libs,
    LoadReach cyclicHost "app".toList libs ["libA.so".toList] [["libb.so".toList, "app".toList], ["libb.so".toList]] ∧
      (∃ i depends, i.val = 1 ∧ libLoad cyclicHost {} false "libA.so".toList = .ok (libs i, depends) ∧
        libFind libs "libA.so".toList = some i) ∧ (freeSlot libs).isSome := by
  obtain ⟨taken, _, _, room⟩ := libFind_registered cyclicReach
  refine ⟨_, cyclicReach, taken 0 _ rfl (by decide), ?_⟩
  refine room (cyclicNames.map lowerCase).toFinset ?_ (by decide) _ _ _ rfl (by decide +kernel)
  intro needed isNeeded
  have member := isNeeded.mem cyclic_root cyclic_next
  exact ⟨cyclic_plain needed member, List.mem_toFinset.mpr (List.mem_map_of_mem member)⟩

/-- Two libraries whose names differ in case only, and one that is needed by its path. -/
def pathHost : Env :=
  graphHost [("app", ["libA.so", "liba.so", "/opt/libc.so", "libd.so"]), ("libA.so", []), ("liba.so", []),
    ("/opt/libc.so", []), ("libd.so", ["/opt/libc.so"])]

/-- One needed library is skipped in favour of another one, and one is loaded twice. -/
theorem path_notFound : ∃ libs, libInitPrimary pathHost "app".toList = .ok libs ∧
    ("liba.so".toList ∈ (libs 0).depends ∧ libFind libs "liba.so".toList = some 1 ∧ (libs 1).path = "libA.so".toList ∧
      (∀ i, (libs i).path ≠ "liba.so".toList)) ∧
    (libs 2).path = "/opt/libc.so".toList ∧ (libs 4).path = "/opt/libc.so".toList ∧
      libFind libs "/opt/libc.so".toList = none := by
  have passes : (libInitPrimary pathHost "app".toList).toOption.any fun libs => decide (
      ("liba.so".toList ∈ (libs 0).depends ∧ libFind libs "liba.so".toList = some 1 ∧ (libs 1).path = "libA.so".toList ∧
        (∀ i, (libs i).path ≠ "liba.so".toList)) ∧
      (libs 2).path = "/opt/libc.so".toList ∧ (libs 4).path = "/opt/libc.so".toList ∧
        libFind libs "/opt/libc.so".toList = none) := by decide +kernel
  obtain ⟨libs, run, passed⟩ := returns_of_any passes
  exact ⟨libs, run, of_decide_eq_true passed⟩

end Classgraph
