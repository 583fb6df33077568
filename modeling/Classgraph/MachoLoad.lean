import Classgraph.Dependencies
import Classgraph.LoadCommands

namespace Classgraph
open Run Machine

/-- A file that starts with one of the two numbers is a Mach-O file. -/
theorem libFormat_macho {mem : Mem} {lib : LibraryInfo} {magic : U32} (read : readWord mem lib.map = .ok magic)
    (known : magic = mhMagic ∨ magic = fatCigam) (room : 4 ≤ lib.size) (notElf : lib.isElf = false) :
    libFormat mem lib = .ok { lib with isMacho := true } := by
  have other : magic ≠ 0x464c457f := by
    rcases known with rfl | rfl
    · decide
    · decide
  have ident : isElfIdent mem lib = .ok false := by
    unfold isElfIdent
    split
    · rw [read, ok_bind, decide_eq_false other]
      rfl
    · rfl
  have elf : elfFormat mem lib = .ok lib := by
    rw [elfFormat, ident]
    rfl
  have macho : machoFormat mem lib = .ok { lib with isMacho := true } := by
    rw [machoFormat, if_pos room, read, ok_bind, if_pos known]
    rfl
  rw [libFormat, elf, ok_bind, macho]
  simp only [notElf]
  rfl

/-- The entry of a Mach-O file when `symtab_macho_init` is called. -/
def machoEntry (primary : Bool) (path opened : CStr) (map size : U32) : LibraryInfo :=
  { isPrimary := primary, name := some (basename path), path := opened, size := size, map := map, isMacho := true }

/-- `lib_init` on a file that starts like a Mach-O file. -/
theorem libLoad_macho {env : Env} {path opened : CStr} {fd : Nat} {map size magic : U32}
    (isOpened : libOpen env path = .ok (fd, opened)) (sized : env.fstat fd = some size)
    (mapped : env.mmap fd = some map) (read : readWord env.mem map = .ok magic)
    (known : magic = mhMagic ∨ magic = fatCigam) (room : 4 ≤ size) (primary : Bool) :
    libLoad env {} primary path =
      symtabMachoInit env.malloc env.mem (machoEntry primary path opened map size) >>=
        fun lib => pure (lib, lib.depends) := by
  let entry : LibraryInfo := { isPrimary := primary, name := some (basename path), path := opened }
  let mappedEntry : LibraryInfo := { entry with size := size, map := map }
  have mapRun : libMap env fd entry = .ok mappedEntry := by rw [libMap, sized, mapped]
  have formatRun : libFormat env.mem mappedEntry = .ok { mappedEntry with isMacho := true } :=
    libFormat_macho read known room rfl
  rw [libLoad, isOpened, ok_bind]
  change (libMap env fd entry >>= fun lib => _) = _
  rw [mapRun, ok_bind, formatRun]
  rfl

section

variable (mem : Mem)

theorem machoSegment_depends (cmd : U32) (st : MachoParse) :
    Holds Anyhow (machoSegment mem cmd st) fun result => result.lib.depends = st.lib.depends := by
  refine (Holds.trivial _).bind fun fileoff _ => (Holds.trivial _).bind fun filesize _ => ?_
  refine (Holds.trivial _).bind fun _ _ => (Holds.trivial _).bind fun nsects _ => ?_
  refine (Holds.trivial _).bind fun vmranges _ => (Holds.trivial _).bind fun _ _ => ?_
  exact (Holds.trivial _).bind fun segs _ => rfl

theorem machoSymtab_depends (cmd : U32) (lib : LibraryInfo) :
    Holds Anyhow (machoSymtab mem cmd lib) fun result => result.depends = lib.depends := by
  refine (Holds.trivial _).bind fun symoff _ => (Holds.trivial _).bind fun nsyms _ => ?_
  exact (Holds.trivial _).bind fun stroff _ => (Holds.trivial _).bind fun strsize _ => rfl

theorem machoDysymtab_depends (cmd : U32) (lib : LibraryInfo) :
    Holds Anyhow (machoDysymtab mem cmd lib) fun result => result.depends = lib.depends :=
  (Holds.trivial _).bind fun _ _ => (Holds.trivial _).bind fun _ _ => rfl

theorem machoDyldInfo_depends (cmd : U32) (lib : LibraryInfo) :
    Holds Anyhow (machoDyldInfo mem cmd lib) fun result => result.depends = lib.depends := by
  refine (Holds.trivial _).bind fun _ _ => (Holds.trivial _).bind fun _ _ => (Holds.trivial _).bind fun _ _ => ?_
  refine (Holds.trivial _).bind fun _ _ => (Holds.trivial _).bind fun _ _ => (Holds.trivial _).bind fun _ _ => ?_
  refine (Holds.trivial _).bind fun _ _ => (Holds.trivial _).bind fun _ _ => (Holds.trivial _).bind fun _ _ => ?_
  exact (Holds.trivial _).bind fun _ _ => rfl

theorem machoCommand_depends (cmd : U32) (st : MachoParse) :
    Holds Anyhow (machoCommand mem cmd st) fun result => result.lib.depends = st.lib.depends := by
  refine (Holds.trivial _).bind fun kind _ => ?_
  dsimp only
  split
  · exact machoSegment_depends mem cmd st
  · split
    · exact (machoSymtab_depends mem cmd st.lib).bind fun _ same => same
    · split
      · exact (machoDysymtab_depends mem cmd st.lib).bind fun _ same => same
      · split
        · exact (machoDyldInfo_depends mem cmd st.lib).bind fun _ same => same
        · exact rfl

theorem machoCommands_depends (n : Nat) (cmd : U32) (st : MachoParse) :
    Holds Anyhow (machoCommands mem n cmd st) fun result => result.lib.depends = st.lib.depends := by
  induction n generalizing cmd st with
  | zero => exact rfl
  | succ n ih =>
    refine (machoCommand_depends mem cmd st).bind fun next same => (Holds.trivial _).bind fun cmdsize _ => ?_
    exact (ih _ next).imp fun last later => later.trans same

/-- The library commands of a Mach-O file are not followed. -/
theorem symtabMachoInit_depends (malloc : Malloc) (lib : LibraryInfo) :
    Holds Anyhow (symtabMachoInit malloc mem lib) fun result => result.depends = lib.depends := by
  have sliced : Holds Anyhow (machoSlice mem lib) fun slice => slice.depends = lib.depends := by
    refine (Holds.trivial _).bind fun magic _ => ?_
    dsimp only
    split
    · refine (Holds.trivial _).bind fun count _ => (Holds.trivial _).bind fun found _ => ?_
      split
      · exact True.intro
      · exact (Holds.trivial _).bind fun _ _ => (Holds.trivial _).bind fun _ _ => rfl
    · exact rfl
  have parsed : Holds Anyhow (machoParse mem lib) fun st => st.lib.depends = lib.depends := by
    refine sliced.bind fun slice same => (Holds.trivial _).bind fun _ _ => (Holds.trivial _).bind fun ncmds _ => ?_
    exact (machoCommands_depends mem _ _ _).imp fun st later => later.trans same
  refine parsed.bind fun st same => ?_
  rw [machoBind]
  split
  · refine (Holds.trivial _).bind fun decoded _ => ?_
    dsimp only
    split
    · exact same
    · exact same
  · exact same

end

/-- `lib_init` for a library that needs no other. -/
theorem libInitPrimary_alone {env : Env} {path : CStr}
    (alone : Holds Anyhow (libLoad env {} true path) fun loaded => loaded.2 = []) :
    libInitPrimary env path =
      (libLoad env {} true path).map fun loaded => Function.update emptyLibs libFirst loaded.1 := by
  have start : emptyLibs libFirst = {} := rfl
  rw [libInitPrimary, libInit, emptyLibs_freeSlot]
  dsimp only
  rw [start]
  cases load : libLoad env {} true path with
  | error fault => rfl
  | ok loaded =>
    have needsNone : loaded.2 = [] := alone.of_ok load
    rw [ok_bind, needsNone, List.foldlM_nil]
    rfl

end Classgraph
