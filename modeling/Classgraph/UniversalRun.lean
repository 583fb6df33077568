import Classgraph.ClassImage
import Classgraph.Restricted
import Classgraph.Slices

namespace Classgraph
open Run Machine

/-- The same host, except that a file has the given size and is mapped at the given address. -/
def thinHost (env : Env) (map size : U32) : Env :=
  { env with
    fstat := fun _ => some size
    mmap := fun _ => some map }

/-- The same host, except that a file is a slice of what was mapped, and nothing but the slice is mapped. -/
def sliceHost (env : Env) (map size : U32) : Env :=
  { thinHost env map size with mem := env.mem.window map size }

section

variable (env : Env) (map size : U32) (slot : Slot) (lib : LibraryInfo) (libs : Libs)

theorem extRelocLoop_thin (addr : U32) (n : Nat) (reloc : U32) :
    extRelocLoop (thinHost env map size) slot lib addr n reloc = extRelocLoop env slot lib addr n reloc := by
  induction n generalizing reloc with
  | zero => rfl
  | succ n ih =>
    rw [extRelocLoop, extRelocLoop, ih]
    rfl

theorem bindInfoLoop_thin (addr : U32) (n i : Nat) :
    bindInfoLoop (thinHost env map size) slot lib addr n i = bindInfoLoop env slot lib addr n i := by
  induction n generalizing i with
  | zero => rfl
  | succ n ih =>
    rw [bindInfoLoop, bindInfoLoop, ih]
    rfl

theorem typeinfoHead_thin (sym : Symbol) :
    typeinfoHead (thinHost env map size) libs sym = typeinfoHead env libs sym := by
  simp only [typeinfoHead, machoTypeinfoHead, symtabMachoFindRelocSymForAddr, extRelocLoop_thin, bindInfoLoop_thin]
  rfl

theorem recurseTypeinfo_thin (symcache : Symcache) (fuel level : Nat) (sym : Symbol) :
    recurseTypeinfo (thinHost env map size) libs symcache fuel level sym =
      recurseTypeinfo env libs symcache fuel level sym := by
  induction fuel generalizing level sym with
  | zero => rfl
  | succ fuel ih =>
    have deeper : recurseTypeinfo (thinHost env map size) libs symcache fuel (level + 1) =
        recurseTypeinfo env libs symcache fuel (level + 1) := funext (ih (level + 1))
    rw [recurseTypeinfo, recurseTypeinfo, typeinfoHead_thin, deeper]
    rfl

/-- The graph is printed from what is mapped, however it came to be mapped. -/
theorem mainPrint_thin (lFilter : CStr → Bool) :
    mainPrint (thinHost env map size) libs lFilter = mainPrint env libs lFilter := by
  have calls (symcache : Symcache) : recurseTypeinfo (thinHost env map size) libs symcache callDepth 0 =
      recurseTypeinfo env libs symcache callDepth 0 :=
    funext (recurseTypeinfo_thin env map size libs symcache callDepth 0)
  have enumerated : symtabForeach (thinHost env map size) libs = symtabForeach env libs := rfl
  rw [mainPrint, mainPrint, enumerated]
  simp only [calls]

theorem mainLoaded_thin (argFilter : Option CStr) :
    mainLoaded (thinHost env map size) libs argFilter = mainLoaded env libs argFilter := by
  have filter : mainFilter (thinHost env map size) argFilter = mainFilter env argFilter := by
    cases argFilter <;> rfl
  have throws : mainThrow (thinHost env map size) libs = mainThrow env libs := rfl
  rw [mainLoaded, mainLoaded, filter, throws]
  split
  · rfl
  · exact mainPrint_thin env map size libs _

end

/-- `symtab_macho_init` depends on the library entry only through its slice. -/
theorem symtabMachoInit_slice {malloc : Malloc} {mem : Mem} {lib other : LibraryInfo}
    (same : machoSlice mem lib = machoSlice mem other) :
    symtabMachoInit malloc mem lib = symtabMachoInit malloc mem other := by
  rw [symtabMachoInit, symtabMachoInit, machoParse, machoParse, same]

/-- A universal file whose first i386 record is found and points to a Mach-O image. -/
structure UniversalFile (env : Env) (path : CStr) (map : U32) (record : FatRecord) : Prop where
  opened : ∃ fd path' size, libOpen env path = .ok (fd, path') ∧ env.fstat fd = some size ∧ env.mmap fd = some map ∧
    4 ≤ size
  table : ∃ n records, FatTable env.mem map n records ∧
    (∃ other ∈ records.take (swap32 n).toNat, other.isI386) ∧ records.find? FatRecord.isI386 = some record
  image : MachHeader.magic env.mem (map + record.offset) = .ok mhMagic
  room : 4 ≤ record.size

section

variable {env : Env} {path : CStr} {map : U32} {record : FatRecord} (universal : UniversalFile env path map record)
include universal

theorem UniversalFile.slice (lib : LibraryInfo) (isMapped : lib.map = map) :
    machoSlice env.mem lib =
      .ok { lib with map := map + record.offset, machoHdr := map + record.offset, size := record.size } := by
  obtain ⟨n, records, table, reached, first⟩ := universal.table
  subst isMapped
  rw [table.found reached, selectSlice, first]

theorem UniversalFile.opening (primary : Bool) :
    ∃ opened size, libLoad env {} primary path =
        symtabMachoInit env.malloc env.mem (machoEntry primary path opened map size) >>=
          (fun lib => pure (lib, lib.depends)) ∧
      libLoad (thinHost env (map + record.offset) record.size) {} primary path =
        symtabMachoInit env.malloc env.mem (machoEntry primary path opened (map + record.offset) record.size) >>=
          fun lib => pure (lib, lib.depends) := by
  obtain ⟨fd, opened, size, isOpened, sized, mapped, room⟩ := universal.opened
  obtain ⟨n, records, table, _, _⟩ := universal.table
  refine ⟨opened, size, libLoad_macho isOpened sized mapped table.magic (Or.inr rfl) room primary, ?_⟩
  exact @libLoad_macho (thinHost env (map + record.offset) record.size) path opened fd _ _ _ isOpened rfl rfl
    universal.image (Or.inl rfl) universal.room primary

/-- The universal file is loaded just like its slice. -/
theorem UniversalFile.load (primary : Bool) :
    libLoad env {} primary path = libLoad (thinHost env (map + record.offset) record.size) {} primary path := by
  obtain ⟨opened, size, fat, thin⟩ := universal.opening primary
  rw [fat, thin]
  refine congrArg (fun init => init >>= _) (symtabMachoInit_slice ?_)
  rw [universal.slice _ rfl, machoSlice_thin universal.image]
  rfl

/-- No other library is loaded for it. -/
theorem UniversalFile.alone (primary : Bool) :
    Holds Anyhow (libLoad env {} primary path) fun loaded => loaded.2 = [] := by
  obtain ⟨opened, size, fat, _⟩ := universal.opening primary
  rw [fat]
  exact (symtabMachoInit_depends env.mem _ _).bind fun lib same => same

theorem UniversalFile.libInit :
    libInitPrimary env path = libInitPrimary (thinHost env (map + record.offset) record.size) path := by
  have load := universal.load true
  have alone := universal.alone true
  rw [libInitPrimary_alone alone, load, libInitPrimary_alone (load ▸ alone)]

/-- The bytes around the slice may stay mapped: the program does the same. -/
theorem UniversalFile.run (args : List CStr) :
    mainRun env (path :: args) = mainRun (thinHost env (map + record.offset) record.size) (path :: args) := by
  match args with
  | [] => simp only [mainRun, universal.libInit, mainLoaded_thin]
  | [_] => simp only [mainRun, universal.libInit, mainLoaded_thin]
  | _ :: _ :: _ => rfl

end

/-- A universal file of a record for another architecture and one for the library of the diamond behind it. -/
def universalBytes : List U8 :=
  wordBytes (([fatMagic, 2] ++ [cpuTypePowerpc, 0, 0x2000, 0x1000, 2] ++
    [cpuTypeI386, cpuSubtypeI386All, 48, 0x25c, 2]).map swap32) ++ diamondBytes

def universalHost : Env :=
  { dylibHost with
    mem := .ofBytes 0x1000 universalBytes
    fstat := fun _ => some 0x28c }

end Classgraph
