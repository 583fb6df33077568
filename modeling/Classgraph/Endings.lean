import Classgraph.ElfInit
import Classgraph.Faults
import Classgraph.Indentation
import Classgraph.Output

namespace Classgraph
open Run Machine

/-- Every dynamic section that libelf finds in a file has a `DT_NULL` entry, within the rounds that are followed. -/
def TerminatedDynamics (env : Env) : Prop :=
  ∀ map size, ∀ scn ∈ (env.elfMemory map size).scns, scn.shdr.shType = shtDynamic →
    ∃ i < env.loopBound, (scn.getdyn i).map ElfDyn.dTag = some dtNull

/-- What the local variable of the loop over a dynamic section holds in the next `n` rounds. -/
def dynRounds (dynamic : ElfScn) : Nat → Nat → ElfDyn → List ElfDyn
  | 0, _, _ => []
  | n + 1, i, dynEntry =>
    (dynamic.getdyn i).getD dynEntry :: dynRounds dynamic n (i + 1) ((dynamic.getdyn i).getD dynEntry)

theorem dynRounds_succ {dynamic : ElfScn} {i : Nat} {dynEntry entry : ElfDyn}
    (here : (dynamic.getdyn i).getD dynEntry = entry) (n : Nat) :
    dynRounds dynamic (n + 1) i dynEntry = entry :: dynRounds dynamic n (i + 1) entry := by
  rw [dynRounds, here]

theorem mem_dynRounds {dynamic : ElfScn} {n i k : Nat} {entry : ElfDyn} (held : dynamic.getdyn (i + k) = some entry)
    (bound : k < n) (dynEntry : ElfDyn) : entry ∈ dynRounds dynamic n i dynEntry := by
  induction n generalizing i k dynEntry with
  | zero => omega
  | succ n ih =>
    rw [dynRounds]
    cases k with
    | zero =>
      rw [Nat.add_zero] at held
      rw [held]
      exact List.mem_cons_self ..
    | succ k =>
      have next : i + (k + 1) = i + 1 + k := by omega
      rw [next] at held
      exact List.mem_cons_of_mem _ (ih held (Nat.lt_of_succ_lt_succ bound) _)

/-- The loop over a dynamic section comes to a `DT_NEEDED` entry for which `depends`, which holds `held` names, has no
room before it comes to a `DT_NULL` entry. -/
def TooManyNeeded (dynamic : ElfScn) (i : Nat) (dynEntry : ElfDyn) (held : Nat) : Prop :=
  ∃ n, (∀ entry ∈ dynRounds dynamic n i dynEntry, entry.dTag ≠ dtNull) ∧
    maxDepends < held + (dynRounds dynamic n i dynEntry).countP fun entry => entry.dTag = dtNeeded

section

variable {dynamic : ElfScn} {i held : Nat} {dynEntry entry : ElfDyn}

theorem TooManyNeeded.here (here : (dynamic.getdyn i).getD dynEntry = entry) (isNeeded : entry.dTag = dtNeeded)
    (full : maxDepends ≤ held) : TooManyNeeded dynamic i dynEntry held := by
  have notNull : dtNeeded ≠ dtNull := by decide
  refine ⟨1, ?_, ?_⟩
  · rw [dynRounds_succ here, dynRounds]
    intro other member
    cases List.mem_singleton.mp member
    rw [isNeeded]
    exact notNull
  · rw [dynRounds_succ here, dynRounds, List.countP_singleton, if_pos (by simp [isNeeded])]
    omega

theorem TooManyNeeded.needed (many : TooManyNeeded dynamic (i + 1) entry (held + 1))
    (here : (dynamic.getdyn i).getD dynEntry = entry) (isNeeded : entry.dTag = dtNeeded) :
    TooManyNeeded dynamic i dynEntry held := by
  obtain ⟨n, noNull, enough⟩ := many
  have notNull : entry.dTag ≠ dtNull := by
    rw [isNeeded]
    decide
  refine ⟨n + 1, ?_, ?_⟩
  · rw [dynRounds_succ here]
    exact List.forall_mem_cons.mpr ⟨notNull, noNull⟩
  · rw [dynRounds_succ here, List.countP_cons_of_pos (by simp [isNeeded])]
    omega

theorem TooManyNeeded.other (many : TooManyNeeded dynamic (i + 1) entry held)
    (here : (dynamic.getdyn i).getD dynEntry = entry) (notNull : entry.dTag ≠ dtNull)
    (notNeeded : entry.dTag ≠ dtNeeded) : TooManyNeeded dynamic i dynEntry held := by
  obtain ⟨n, noNull, enough⟩ := many
  refine ⟨n + 1, ?_, ?_⟩
  · rw [dynRounds_succ here]
    exact List.forall_mem_cons.mpr ⟨notNull, noNull⟩
  · rw [dynRounds_succ here, List.countP_cons_of_neg (by simp [notNeeded])]
    exact enough

end

section

variable {env : Env}

theorem elfString_ordinary (elf : Elf) (ndx : U32) (offset : U64) :
    Holds Ordinary (elfString elf ndx offset) fun _ => True := by
  unfold elfString
  split
  · trivial
  · exact .segv 0

/-- The loop goes on as long as there is no `DT_NULL` entry, and stores every name that is needed. -/
theorem elfDynLoop_ends (elf : Elf) (dynstrNdx : U32) (dynamic : ElfScn) (fuel i : Nat) (dynEntry : ElfDyn)
    (depends : List CStr) :
    Holds (Ending (∀ entry ∈ dynRounds dynamic fuel i dynEntry, entry.dTag ≠ dtNull)
        fun buffer => buffer = .depends ∧ TooManyNeeded dynamic i dynEntry depends.length)
      (elfDynLoop elf dynstrNdx dynamic fuel i dynEntry depends) fun _ => True := by
  induction fuel generalizing i dynEntry depends with
  | zero => exact .endless fun _ member => absurd member List.not_mem_nil
  | succ fuel ih =>
    generalize here : (dynamic.getdyn i).getD dynEntry = entry
    rw [elfDynLoop, dynRounds_succ here, here]
    by_cases isNull : entry.dTag = dtNull
    · rw [if_pos isNull]
      trivial
    · have goesOn (noNull : ∀ other ∈ dynRounds dynamic fuel (i + 1) entry, other.dTag ≠ dtNull) :
          ∀ other ∈ entry :: dynRounds dynamic fuel (i + 1) entry, other.dTag ≠ dtNull :=
        List.forall_mem_cons.mpr ⟨isNull, noNull⟩
      rw [if_neg isNull]
      by_cases isNeeded : entry.dTag = dtNeeded
      · rw [if_pos isNeeded]
        refine (ends_of_ordinary (elfString_ordinary _ _ _)).bind fun needed _ => ?_
        rw [store]
        split
        · refine (ih (i + 1) entry (depends ++ [needed])).imp_error fun _ stopped => stopped.imp goesOn ?_
          intro buffer full
          rw [List.length_append] at full
          exact ⟨full.1, full.2.needed here isNeeded⟩
        · rename_i full
          exact .overrun ⟨rfl, .here here isNeeded (Nat.le_of_not_lt full)⟩
      · rw [if_neg isNeeded]
        refine (ih (i + 1) entry depends).imp_error fun _ stopped => stopped.imp goesOn ?_
        exact fun _ full => ⟨full.1, full.2.other here isNull isNeeded⟩

/-- The section found is one of the file, of the wanted type. -/
theorem symtabElfFindSection_ordinary (mem : Mem) (lib : LibraryInfo) (type : U32) (name : Option CStr) :
    Holds Ordinary (symtabElfFindSection mem lib type name)
      fun found => ∀ scn, found.2 = some scn → scn ∈ lib.elf.scns ∧ scn.shdr.shType = type := by
  have matches' (scn : ElfScn) : Holds Ordinary (elfSectionMatches mem lib type name scn)
      fun isMatch => isMatch → scn.shdr.shType = type := by
    unfold elfSectionMatches
    split
    · exact nofun
    · rename_i isType
      rw [ne_eq, not_not] at isType
      cases name with
      | none => exact fun _ => isType
      | some name =>
        have shstrndx : Holds Ordinary (elfShstrndx mem lib.elfHdr) fun _ => True :=
          (readHalf_ordinary _ _).bind fun _ _ => trivial
        exact shstrndx.bind fun _ _ => (elfString_ordinary _ _ _).bind fun _ _ _ => isType
  refine Holds.foldlM ?_ nofun
  intro state found scn member
  refine (matches' scn).bind ?_
  intro isMatch isType
  split
  · rename_i matched
    intro other same
    cases same
    exact ⟨member, isType matched⟩
  · exact found

theorem elfSetSymtab_ordinary (lib : LibraryInfo) (symtab : Option ElfScn) :
    Holds Ordinary (elfSetSymtab lib symtab) fun lib' => lib'.elf = lib.elf ∧ lib'.isMacho = lib.isMacho := by
  unfold elfSetSymtab
  split
  · split
    · exact .divideByZero
    · exact ⟨rfl, rfl⟩
  · exact ⟨rfl, rfl⟩

/-- A dynamic section of a file names more libraries than `depends` has room for. -/
def ManyNeeded (env : Env) (lib : LibraryInfo) : Prop :=
  ∃ dynamic ∈ (env.elfMemory lib.map lib.size).scns, dynamic.shdr.shType = shtDynamic ∧
    TooManyNeeded dynamic 0 env.dynEntry 0

theorem symtabElfInit_ends (lib : LibraryInfo) :
    Holds (Ending (¬TerminatedDynamics env) fun buffer => buffer = .depends ∧ ManyNeeded env lib)
      (symtabElfInit env lib) fun lib' => lib'.isMacho = lib.isMacho := by
  have depends {lib' : LibraryInfo} (same : lib'.elf = env.elfMemory lib.map lib.size) :
      Holds (Ending (¬TerminatedDynamics env) fun buffer => buffer = .depends ∧ ManyNeeded env lib)
        (elfDepends env lib') fun _ => True := by
    refine (ends_of_ordinary (symtabElfFindSection_ordinary _ _ _ _)).bind fun dynstr _ => ?_
    refine (ends_of_ordinary (check_ordinary _ _)).bind fun _ _ => ?_
    refine (ends_of_ordinary (symtabElfFindSection_ordinary _ _ _ _)).bind fun dynamic found => ?_
    refine (ends_of_ordinary (check_ordinary _ _)).bind fun _ _ => ?_
    split
    · rename_i dynstrScn dynamicScn _ isDynamic
      obtain ⟨inFile, isType⟩ := found dynamicScn isDynamic
      rw [same] at inFile
      refine (elfDynLoop_ends _ _ _ _ _ _ _).imp_error fun _ stopped => stopped.imp ?_ ?_
      · intro noNull terminated
        obtain ⟨i, room, ends⟩ := terminated _ _ dynamicScn inFile isType
        obtain ⟨entry, held, isNull⟩ := Option.map_eq_some_iff.mp ends
        rw [← Nat.zero_add i] at held
        exact noNull entry (mem_dynRounds held room env.dynEntry) isNull
      · exact fun _ full => ⟨full.1, dynamicScn, inFile, isType, full.2⟩
    · exact .ordinary .uninitialised
  have rest (found : Option ElfScn) :
      Holds (Ending (¬TerminatedDynamics env) fun buffer => buffer = .depends ∧ ManyNeeded env lib) (do
        let lib ← elfSetSymtab
          { lib with elfHdr := lib.map, elf := env.elfMemory lib.map lib.size, depends := [] } found
        return { lib with depends := ← elfDepends env lib }) fun lib' => lib'.isMacho = lib.isMacho :=
    (ends_of_ordinary (elfSetSymtab_ordinary _ _)).bind fun lib' same => (depends same.1).bind fun _ _ => same.2
  refine (ends_of_ordinary (symtabElfFindSection_ordinary _ _ _ _)).bind ?_
  intro found _
  dsimp only
  split
  · exact (ends_of_ordinary (check_ordinary _ _)).bind fun _ _ => rest _
  · exact rest _

theorem isElfIdent_ordinary (mem : Mem) (lib : LibraryInfo) : Holds Ordinary (isElfIdent mem lib) fun _ => True := by
  unfold isElfIdent
  split
  · exact (readWord_ordinary _ _).bind fun _ _ => trivial
  · trivial

/-- A file that is accepted is not of both formats. -/
theorem libFormat_ordinary (mem : Mem) (lib : LibraryInfo) :
    Holds Ordinary (libFormat mem lib) fun lib' => (lib'.isElf && lib'.isMacho) = false := by
  have byte (p : U32) : Holds Ordinary (readByte mem p) fun _ => True :=
    (readByte_ordinary mem p).imp fun _ _ => trivial
  have elf : Holds Ordinary (elfFormat mem lib) fun _ => True := by
    refine (isElfIdent_ordinary mem lib).bind ?_
    intro isElf _
    split
    · refine (byte _).bind fun _ _ => (check_ordinary _ _).bind fun _ _ => (byte _).bind fun _ _ => ?_
      exact (check_ordinary _ _).bind fun _ _ => (byte _).bind fun _ _ => (check_ordinary _ _).bind fun _ _ => trivial
    · trivial
  have macho (lib : LibraryInfo) : Holds Ordinary (machoFormat mem lib) fun _ => True := by
    unfold machoFormat
    split
    · refine (readWord_ordinary _ _).bind ?_
      intro magic _
      split
      · trivial
      · trivial
    · trivial
  refine elf.bind fun _ _ => (macho _).bind fun lib' _ => ?_
  refine (check_ordinary _ _).bind fun _ _ => (check_ordinary _ _).bind fun _ notBoth => ?_
  rwa [Bool.not_eq_true'] at notBoth

/-- The arrays that can overflow while the symbol table of a library is found. -/
inductive LibOverrun (env : Env) (lib : LibraryInfo) : Buffer → Prop
  | needed : lib.isElf → ManyNeeded env lib → LibOverrun env lib .depends
  | binds : lib.isMacho → ManyBinds env.malloc env.mem lib → LibOverrun env lib .bindInfo

theorem symtabInit_ends {lib : LibraryInfo} (notBoth : (lib.isElf && lib.isMacho) = false) :
    Holds (Ending (¬TerminatedDynamics env) (LibOverrun env lib)) (symtabInit env lib) fun _ => True := by
  rw [symtabInit]
  cases isElf : lib.isElf with
  | true =>
    rw [isElf, Bool.true_and] at notBoth
    rw [if_pos rfl]
    refine ((symtabElfInit_ends lib).imp_error fun _ stopped => stopped.imp id ?_).bind ?_
    · intro buffer full
      cases full.1
      exact .needed isElf full.2
    · intro lib' same
      have notMacho : ¬lib'.isMacho = true := by simp [same, notBoth]
      dsimp only
      rw [if_neg notMacho]
      trivial
  | false =>
    rw [if_neg Bool.false_ne_true]
    change Holds _ (if lib.isMacho then symtabMachoInit env.malloc env.mem lib else pure lib) _
    split
    · rename_i isMacho
      refine (symtabMachoInit_ends env.malloc env.mem lib).imp_error fun _ stopped => stopped.imp False.elim ?_
      intro buffer full
      cases full.1
      exact .binds isMacho full.2
    · trivial

/-- The entry that a call of `lib_init` hands to `symtab_init`: its file is mapped, of a known format, and has a base
address. -/
inductive Prepared (env : Env) (primary : Bool) (path : CStr) : LibraryInfo → Prop
  | mk {fd opened mapped recognised baseaddr} : libOpen env path = .ok (fd, opened) →
      libMap env fd { isPrimary := primary, name := some (basename path), path := opened } = .ok mapped →
      libFormat env.mem mapped = .ok recognised → libBase env recognised = .ok (some baseaddr) →
      Prepared env primary path { recognised with baseaddr := baseaddr }

theorem libLoad_ends (primary : Bool) (path : CStr) :
    Holds (Ending (¬TerminatedDynamics env)
        fun buffer => ∃ lib, Prepared env primary path lib ∧ LibOverrun env lib buffer)
      (libLoad env {} primary path) fun _ => True := by
  have opens : Holds Ordinary (libOpen env path) fun opened => libOpen env path = .ok opened := by
    refine Holds.result fun fault stopped => ?_
    unfold libOpen at stopped
    split at stopped
    · cases stopped
    · dsimp only at stopped
      split at stopped
      · cases stopped
      · cases stopped
        exact .exit .openFile
  have maps (fd : Nat) (lib : LibraryInfo) :
      Holds Ordinary (libMap env fd lib) fun mapped => libMap env fd lib = .ok mapped := by
    refine Holds.result fun fault stopped => ?_
    unfold libMap at stopped
    split at stopped
    · cases stopped
      exact .exit .fstat
    · split at stopped
      · cases stopped
        exact .exit .mmap
      · cases stopped
  have base (lib : LibraryInfo) : Holds Ordinary (libBase env lib) fun base => libBase env lib = .ok base := by
    refine Holds.result fun fault stopped => ?_
    unfold libBase at stopped
    split at stopped
    · split at stopped
      · cases stopped
        exact .exit .dlopen
      · cases stopped
    · cases stopped
  refine (ends_of_ordinary opens).bind fun opened openRun => (ends_of_ordinary (maps _ _)).bind fun mapped mapRun => ?_
  refine (ends_of_ordinary (libFormat_ordinary _ _).and_ok).bind fun recognised formatRun => ?_
  refine (ends_of_ordinary (base _)).bind fun baseaddr baseRun => ?_
  cases baseaddr with
  | none => trivial
  | some baseaddr =>
    have prepared : Prepared env primary path { recognised with baseaddr := baseaddr } :=
      .mk openRun mapRun formatRun.1 baseRun
    refine ((symtabInit_ends ?_).imp_error fun _ stopped => stopped.imp id ?_).bind fun _ _ => trivial
    · exact formatRun.2
    · exact fun _ full => ⟨_, prepared, full⟩

/-- The entries that are handed to `symtab_init` while the program loads the libraries for `path`. -/
inductive Loading (env : Env) (path : CStr) (lib : LibraryInfo) : Prop
  | primary : Prepared env true path lib → Loading env path lib
  | needed {needed} : Needed env path needed → Prepared env false needed lib → Loading env path lib

/-- The recursion over the needed libraries ends, since every call takes a slot. -/
theorem libInitPrimary_ends (path : CStr) :
    Holds (Ending (¬TerminatedDynamics env) fun buffer => ∃ lib, Loading env path lib ∧ LibOverrun env lib buffer)
      (libInitPrimary env path) fun _ => True := by
  refine ((libInitPrimary_holds env path).imp_error ?_).imp fun _ _ => trivial
  intro fault stuck
  cases stuck with
  | root stopped =>
    refine ((libLoad_ends _ _).of_error stopped).imp id ?_
    rintro buffer ⟨lib, prepared, full⟩
    exact ⟨lib, .primary prepared, full⟩
  | next isNeeded stopped =>
    refine ((libLoad_ends _ _).of_error stopped).imp id ?_
    rintro buffer ⟨lib, prepared, full⟩
    exact ⟨lib, .needed isNeeded prepared, full⟩
  | full => exact .ordinary (.assertion .freeSlot)

theorem machoTypeChar_ordinary (kind : CStr) : Holds Ordinary (machoTypeChar kind) fun _ => True := by
  unfold machoTypeChar
  repeat' split
  all_goals first | trivial | exact .assertion _

/-- The recursion over the bases ends at the indentation buffer at the latest. -/
theorem recurseTypeinfo_ends {libs : Libs} {symcache : Symcache} {fuel level : Nat}
    (room : fuel + 1 + level = callDepth) {sym : Symbol} {fault : Fault}
    (stopped : (recurseTypeinfo env libs symcache (fuel + 1) level sym).stop = some fault) :
    Ending False (· = .indent) fault := by
  induction fuel generalizing level sym with
  | zero =>
    have overrun : (indentStores level).any (sizeofIndent ≤ ·) = true := by
      rw [indent_overrun]
      simp only [callDepth] at room
      omega
    rw [recurseTypeinfo, if_pos overrun] at stopped
    split at stopped
    · cases stopped
    · cases stopped
      exact .overrun rfl
  | succ fuel ih =>
    rw [recurseTypeinfo] at stopped
    split at stopped
    · cases stopped
    · split at stopped
      · cases stopped
        exact .overrun rfl
      · split at stopped
        · rename_i fault failed
          cases stopped
          exact .ordinary ((typeinfoHead_fault (fun _ => ReadFault.ordinary) (fun _ _ _ => machoTypeChar_ordinary _)
            _ _).of_error failed)
        · rw [Emits.flow_emit, Emits.append_of_ended rfl, Emits.emit_append] at stopped
          rcases typeinfoBases_stopped stopped with failed | ⟨base, _, below⟩
          · exact .ordinary failed.ordinary
          · exact ih (by omega) below

theorem mainPrint_ends {libs : Libs} {lFilter : CStr → Bool} {fault : Fault}
    (stopped : (mainPrint env libs lFilter).stop = some fault) :
    Ending False (fun buffer => buffer = .indent ∧ ¬Shallow env libs lFilter) fault := by
  unfold mainPrint at stopped
  dsimp only at stopped
  split at stopped
  · rename_i fault inSyms
    cases stopped
    exact .ordinary (symtabForeach_readFault inSyms).ordinary
  · obtain ⟨run, member, stopped⟩ := Emits.flow_stopped stopped
    obtain ⟨root, isRoot, rfl⟩ := List.mem_map.mp member
    cases recurseTypeinfo_ends rfl stopped with
    | ordinary other => exact .ordinary other
    | endless never => exact never.elim
    | overrun isIndent =>
      cases isIndent
      refine .overrun ⟨rfl, fun shallow => recurseTypeinfo_fits rfl ?_ stopped⟩
      intro nonzero n entry chain
      have bound := shallow root isRoot nonzero n entry chain
      omega

/-- The arrays that can overflow in a run for the library `argLib`: `depends` and the block for the bind records while a
library is loaded, and the indentation where the classes that are printed have a chain of more than 255 bases. -/
inductive Overrun (env : Env) (argLib : CStr) (argFilter : Option CStr) : Buffer → Prop
  | loading {lib buffer} : Loading env argLib lib → LibOverrun env lib buffer → Overrun env argLib argFilter buffer
  | printing {libs lFilter} : libInitPrimary env argLib = .ok libs → mainFilter env argFilter = some lFilter →
      ¬Shallow env libs lFilter → Overrun env argLib argFilter .indent

/-- A filter that cannot be constructed ends the program, or it ends with a read. -/
theorem mainThrow_ends {libs : Libs} {fault : Fault} (stopped : (mainThrow env libs).stop = some fault) :
    Ordinary fault := by
  unfold mainThrow at stopped
  dsimp only at stopped
  split at stopped
  · cases stopped
    exact .regexError
  · split at stopped
    · rename_i inSyms
      cases stopped
      exact (symtabForeach_readFault inSyms).ordinary
    · cases stopped

theorem mainRun_ends {args : List CStr} {fault : Fault} (stopped : (mainRun env args).stop = some fault) :
    Ending (¬TerminatedDynamics env) (fun buffer => ∃ argLib argFilter, args = argLib :: Option.toList argFilter ∧
      Overrun env argLib argFilter buffer) fault := by
  have loads (argLib : CStr) (argFilter : Option CStr) {fault : Fault}
      (failed : libInitPrimary env argLib = .error fault) :
      Ending (¬TerminatedDynamics env) (Overrun env argLib argFilter) fault := by
    refine ((libInitPrimary_ends argLib).of_error failed).imp id ?_
    rintro buffer ⟨lib, loading, full⟩
    exact .loading loading full
  have prints (argLib : CStr) (argFilter : Option CStr) {libs : Libs} (loaded : libInitPrimary env argLib = .ok libs)
      (stopped : (mainLoaded env libs argFilter).stop = some fault) :
      Ending (¬TerminatedDynamics env) (Overrun env argLib argFilter) fault := by
    unfold mainLoaded at stopped
    split at stopped
    · exact .ordinary (mainThrow_ends stopped)
    · rename_i lFilter wellFormed
      refine (mainPrint_ends stopped).imp False.elim fun _ full => ?_
      cases full.1
      exact .printing loaded wellFormed full.2
  unfold mainRun at stopped
  dsimp only at stopped
  split at stopped
  · split at stopped
    · rename_i failed
      cases stopped
      exact (loads _ _ failed).imp id fun _ full => ⟨_, none, rfl, full⟩
    · rename_i loaded
      exact (prints _ _ loaded stopped).imp id fun _ full => ⟨_, none, rfl, full⟩
  · split at stopped
    · rename_i failed
      cases stopped
      exact (loads _ _ failed).imp id fun _ full => ⟨_, some _, rfl, full⟩
    · rename_i loaded
      exact (prints _ _ loaded stopped).imp id fun _ full => ⟨_, some _, rfl, full⟩
  · cases stopped
    exact .ordinary (.exit .usage)

end

/-- The program ends on all files whose dynamic sections end, whatever else is in them: no loop over load commands,
bind opcodes, numbers or strings and no recursion over libraries or base classes goes on forever. -/
theorem mainRun_halts {env : Env} (terminated : TerminatedDynamics env) (args : List CStr) :
    (mainRun env args).stop ≠ some .diverges := by
  intro stopped
  cases mainRun_ends stopped with
  | ordinary other => cases other
  | endless goesOn => exact goesOn terminated

theorem diamondFile_halts : (mainRun diamondFile ["app".toList]).stop ≠ some .diverges := by
  refine mainRun_halts ?_ _
  have inFile : ∀ scn ∈ (Elf32.elfMemory diamondElf.byte).scns, scn.shdr.shType = shtDynamic →
      ∃ i < diamondFile.loopBound, (scn.getdyn i).map ElfDyn.dTag = some dtNull := by decide +kernel
  intro map size scn member
  obtain ⟨file, isFile, member⟩ := fileHost_scn member
  cases List.mem_singleton.mp isFile
  exact inFile scn member

/-- No file makes the program store behind the end of `macho_vmranges`, of `segs` or of the buffer of the demangler.
What it can overrun is `depends`, by an ELF file that needs more than 256 libraries; the block for the bind records, by
a Mach-O file whose opcodes stand for so many records that their size wraps around or `malloc` has no block for them;
and the indentation, by a class with a chain of more than 255 bases. -/
theorem mainRun_overrun {env : Env} {args : List CStr} {buffer : Buffer}
    (overrun : (mainRun env args).stop = some (.outOfBounds buffer)) :
    ∃ argLib argFilter, args = argLib :: Option.toList argFilter ∧
      Overrun env argLib argFilter buffer := by
  cases mainRun_ends overrun with
  | ordinary other => cases other
  | overrun full => exact full

/-- A program whose only entry of its dynamic section is seen again in every round of the loop. -/
def repeatingHost : Env := { dynamicHost unterminatedFile with loopBound := 258 }

theorem repeatingHost_overrun : ∃ argLib argFilter, ["app".toList] = argLib :: Option.toList argFilter ∧
    Overrun repeatingHost argLib argFilter .depends := mainRun_overrun (by decide +kernel)

end Classgraph
