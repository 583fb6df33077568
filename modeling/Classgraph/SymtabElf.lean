import Classgraph.General.Emits
import Classgraph.Demangle

namespace Classgraph
open Machine

def shtSymtab : U32 := 2
def shtStrtab : U32 := 3
def shtDynamic : U32 := 6
def dtNull : U64 := 0
def dtNeeded : U64 := 1

/-- `e_shstrndx` of the `Elf32_Ehdr` at `p`. -/
def elfShstrndx (mem : Mem) (p : U32) : Except Fault U32 := do return (← readHalf mem (p + 50)).setWidth 32

/-- A string that libelf returns and the caller dereferences. -/
def elfString (elf : Elf) (ndx : U32) (offset : U64) : Except Fault CStr :=
  match elf.strptr ndx offset with
  | some str => .ok str
  | none => .error (.segv 0)

/-- Whether a section is of the wanted type and, if a name is given, has that name. -/
def elfSectionMatches (mem : Mem) (lib : LibraryInfo) (type : U32) (name : Option CStr) (scn : ElfScn) :
    Except Fault Bool := do
  if scn.shdr.shType ≠ type then return false
  match name with
  | none => return true
  | some name =>
    let shstrndx ← elfShstrndx mem lib.elfHdr
    return (← elfString lib.elf shstrndx (scn.shdr.shName.setWidth 64)) = name

/-- The number of matching sections and the last of them. -/
def symtabElfFindSection (mem : Mem) (lib : LibraryInfo) (type : U32) (name : Option CStr) :
    Except Fault (Nat × Option ElfScn) :=
  lib.elf.scns.foldlM (fun (numFound, out) scn => do
    if ← elfSectionMatches mem lib type name scn then return (numFound + 1, some scn)
    else return (numFound, out)) (0, none)

def maxDepends : Nat := 256

/-- The loop over the dynamic section from index `i` on. `dynEntry` is the local
variable, which keeps its content when `gelf_getdyn` rejects the index. -/
def elfDynLoop (elf : Elf) (dynstrNdx : U32) (dynamic : ElfScn) :
    Nat → Nat → ElfDyn → List CStr → Except Fault (List CStr)
  | 0, _, _, _ => .error .diverges
  | fuel + 1, i, dynEntry, depends => do
    let dynEntry := (dynamic.getdyn i).getD dynEntry
    if dynEntry.dTag = dtNull then return depends
    if dynEntry.dTag = dtNeeded then
      let needed ← elfString elf dynstrNdx dynEntry.dVal
      elfDynLoop elf dynstrNdx dynamic fuel (i + 1) dynEntry (← store .depends maxDepends depends needed)
    else elfDynLoop elf dynstrNdx dynamic fuel (i + 1) dynEntry depends

/-- `elf_symtab_shdr`, `elf_symtab_data` and `elf_symtab_count` from the section found. -/
def elfSetSymtab (lib : LibraryInfo) : Option ElfScn → Except Fault LibraryInfo
  | some scn =>
    if scn.shdr.shEntsize = 0 then .error .divideByZero
    else .ok { lib with
      elfSymtabShdr := scn.shdr
      elfSymtabData := some scn
      elfSymtabCount := ((scn.shdr.shSize / scn.shdr.shEntsize).setWidth 32).toInt }
  | none => .ok { lib with elfSymtabShdr := {}, elfSymtabData := none, elfSymtabCount := 0 }

/-- The last part of `symtab_elf_init`: the names that the dynamic section needs. -/
def elfDepends (env : Env) (lib : LibraryInfo) : Except Fault (List CStr) := do
  let (numDynstr, dynstr) ← symtabElfFindSection env.mem lib shtStrtab (some ".dynstr".toList)
  check .oneDynstr (numDynstr = 1)
  let (numDynamic, dynamic) ← symtabElfFindSection env.mem lib shtDynamic (some ".dynamic".toList)
  check .oneDynamic (numDynamic = 1)
  match dynstr, dynamic with
  | some dynstr, some dynamic => elfDynLoop lib.elf dynstr.ndx dynamic env.loopBound 0 env.dynEntry []
  | _, _ => throw .uninitialised

def symtabElfInit (env : Env) (lib : LibraryInfo) : Except Fault LibraryInfo := do
  let lib := { lib with elfHdr := lib.map, elf := env.elfMemory lib.map lib.size, depends := [] }
  let (numSymtab, symtab) ← symtabElfFindSection env.mem lib shtSymtab (some ".symtab".toList)
  if lib.isPrimary then check .oneSymtab (numSymtab = 1)
  let lib ← elfSetSymtab lib symtab
  return { lib with depends := ← elfDepends env lib }

/-- One round of `symtab_elf_foreach`. An index that `gelf_getsym` rejects leaves the
local symbol unset. -/
def elfForeachEntry (env : Env) (slot : Slot) (lib : LibraryInfo) (i : Nat) : Except Fault (Option Symbol) :=
  match lib.elfSymtabData.bind fun data => data.getsym i with
  | none => .error .uninitialised
  | some sym => do
    let name ← elfString lib.elf lib.elfSymtabShdr.shLink (sym.stName.setWidth 64)
    return some ⟨slot, sym.stValue.setWidth 32, sym.stSize.setWidth 32, name, ← tryDemangleNoprefix env name⟩

def symtabElfForeach (env : Env) (slot : Slot) (lib : LibraryInfo) : Emits Fault Symbol :=
  Emits.each (elfForeachEntry env slot lib) lib.elfSymtabCount.toNat 0

end Classgraph
