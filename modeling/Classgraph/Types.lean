import Classgraph.General.Memory

namespace Classgraph
open Machine

/-- A C string: its characters without the final NUL. -/
abbrev CStr := List Char

/-- One name for each `assert` of the modelled functions. -/
inductive Assertion
  | freeSlot | elfClass32 | elfData2Lsb | elfVersion | elfOrMacho | notElfAndMacho
  | oneSymtab | oneDynstr | oneDynamic
  | foundI386 | mhMagic | cpuType | cpuSubtype | fileType
  | segmentInFile | vmrangeCount | sectionAboveSegment | sectionBelowSegment | sectionEndsInSegment
  | offsetAboveSegment | offsetBelowSegment | offsetEndsInSegment | noOverlap | segmentCount
  | symbolIndex | indirectSymbol | unknownSymbolType | indirectEntry
  | vmrangeFound | vmrangeMapped | sizeFitsVmrange | typeinfoKind
  deriving DecidableEq, Repr

/-- The calls after which `err` or `errx` ends the program. -/
inductive FatalCall
  | usage | openFile | fstat | mmap | dlopen
  deriving DecidableEq, Repr

/-- The arrays and blocks of fixed size that the modelled functions store into. -/
inductive Buffer
  | vmranges | segs | depends | bindInfo | indent | strOut
  deriving DecidableEq, Repr

/-- How a run can end other than by returning. A `regexError` is a `std::regex_error` that nothing catches. -/
inductive Fault
  | assertion (site : Assertion)
  | exit (call : FatalCall)
  | segv (address : U32)
  | outOfBounds (buffer : Buffer)
  | divideByZero
  | uninitialised
  | regexError
  | diverges
  deriving DecidableEq, Repr

def check (site : Assertion) (condition : Bool) : Except Fault Unit :=
  if condition then .ok () else .error (.assertion site)

/-- A store behind the last entry of an array of `capacity` entries. -/
def store {α : Type} (buffer : Buffer) (capacity : Nat) (entries : List α) (entry : α) : Except Fault (List α) :=
  if entries.length < capacity then .ok (entries ++ [entry]) else .error (.outOfBounds buffer)

def readByte (mem : Mem) (p : U32) : Except Fault U8 :=
  match mem.byte p with
  | some b => .ok b
  | none => .error (.segv p)

def readHalf (mem : Mem) (p : U32) : Except Fault U16 :=
  match mem.half p with
  | some x => .ok x
  | none => .error (.segv p)

def readWord (mem : Mem) (p : U32) : Except Fault U32 :=
  match mem.word p with
  | some x => .ok x
  | none => .error (.segv p)

def readCStr (mem : Mem) (p : U32) : Except Fault CStr :=
  match mem.cstr p with
  | some s => .ok s
  | none => .error (.segv p)

/-- The section header fields that libelf hands out (`GElf_Shdr`). -/
structure ElfShdr where
  shName : U32 := 0
  shType : U32 := 0
  shLink : U32 := 0
  shSize : U64 := 0
  shEntsize : U64 := 0

structure ElfSym where
  stName : U32
  stValue : U64
  stSize : U64

structure ElfDyn where
  dTag : U64
  dVal : U64
  deriving DecidableEq

/-- A section as libelf presents it: `gelf_getsym` and `gelf_getdyn` on its data
yield nothing for an index they reject. -/
structure ElfScn where
  ndx : U32
  shdr : ElfShdr
  getsym : Nat → Option ElfSym
  getdyn : Nat → Option ElfDyn

/-- What `elf_memory` returns: the sections in `elf_nextscn` order, and `elf_strptr`. -/
structure Elf where
  scns : List ElfScn := []
  strptr : U32 → U64 → Option CStr := fun _ _ => none

/-- An entry of `macho_vmranges`. Pointers to load command structures are addresses. -/
structure MachoVmrange where
  isMapped : Bool
  vmAddrBegin : U32
  vmAddrEnd : U32
  mapOffBegin : U32
  mapOffEnd : U32
  pSegment : U32
  pSection : U32
  segmentIdx : Nat
  sectionIdx : Nat
  deriving DecidableEq, Repr

/-- The fields of `struct dyld_bind_info` that a lookup reads. -/
structure DyldBindInfo where
  address : U64
  addend : U64
  symbolname : U32
  deriving DecidableEq, Repr

/-- `library_info_t`. The arrays `depends` and `macho_vmranges` are the lists of
their entries below `depend_count` and `macho_vmrange_count`. A default value
is the zero-initialised slot of static storage. -/
structure LibraryInfo where
  isPrimary : Bool := false
  name : Option CStr := none
  path : CStr := []
  isElf : Bool := false
  isMacho : Bool := false
  size : U32 := 0
  map : U32 := 0
  baseaddr : U32 := 0
  depends : List CStr := []
  elf : Elf := {}
  elfHdr : U32 := 0
  elfSymtabShdr : ElfShdr := {}
  elfSymtabData : Option ElfScn := none
  elfSymtabCount : Int := 0
  machoHdr : U32 := 0
  machoSymtabOff : U32 := 0
  machoSymtabCount : U32 := 0
  machoStrtabOff : U32 := 0
  machoStrtabSize : U32 := 0
  machoExtRelocOff : U32 := 0
  machoExtRelocCount : U32 := 0
  machoHasDyldInfo : Bool := false
  machoRebaseOff : U32 := 0
  machoRebaseSize : U32 := 0
  machoBindOff : U32 := 0
  machoBindSize : U32 := 0
  machoWeakBindOff : U32 := 0
  machoWeakBindSize : U32 := 0
  machoLazyBindOff : U32 := 0
  machoLazyBindSize : U32 := 0
  machoExportOff : U32 := 0
  machoExportSize : U32 := 0
  machoNdbi : Nat := 0
  machoDbi : List DyldBindInfo := []
  machoVmranges : List MachoVmrange := []

def numLibs : Nat := 256

instance : @NeZero Nat Zero.ofOfNat0 numLibs := ⟨Nat.succ_ne_zero 255⟩

/-- A `library_info_t *` into the static array `libs`. -/
abbrev Slot := Fin numLibs

abbrev Libs := Slot → LibraryInfo

def emptyLibs : Libs := fun _ => {}

/-- `symbol_t`, with the strings its pointers reach. -/
structure Symbol where
  lib : Slot
  addr : U32
  size : U32
  name : CStr
  nameDemangled : CStr
  deriving DecidableEq, Repr

/-- What `typeid(*rtti)` finds for an object of the process: one of the type
information classes of the ABI, some other class by its mangled name, or a
`std::bad_typeid` with its message. -/
inductive Typeid
  | classTypeInfo | siClassTypeInfo | vmiClassTypeInfo | arrayTypeInfo | enumTypeInfo | functionTypeInfo
  | pointerToMemberTypeInfo | pointerTypeInfo | fundamentalTypeInfo
  | other (name : CStr)
  | badTypeid (what : CStr)
  deriving DecidableEq, Repr

/-- Whether `malloc` returns a block of so many bytes. -/
abbrev Malloc := Nat → Bool

/-- A heap of 32 bits that is still empty has no block of 2 GiB or more. -/
def emptyHeap : Malloc := fun size => size < 2 ^ 31

/-- The code outside the repository: the operating system, libdl, libelf, libiberty,
the C++ runtime and the regular expressions. `mem` is the memory of the process once
every file is mapped, `dynEntry` what an uninitialised `GElf_Dyn` holds, and
`loopBound` how often a loop without a bound of its own is followed. The constructor of
`std::regex` throws where `reFilter` has nothing for a pattern. -/
structure Env where
  mem : Mem
  malloc : Malloc
  openFile : CStr → Option Nat
  fstat : Nat → Option U32
  mmap : Nat → Option U32
  dlopen : CStr → Option Nat
  dlinfo : Nat → Option U32
  elfMemory : U32 → U32 → Elf
  dynEntry : ElfDyn
  loopBound : Nat
  typeid : U32 → Typeid
  reTypeinfo : CStr → Option CStr
  reFilter : CStr → Option (CStr → Bool)
  cplusDemangle : CStr → Option CStr

end Classgraph
