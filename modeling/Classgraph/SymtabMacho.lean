import Classgraph.General.Emits
import Classgraph.Demangle
import Classgraph.DyldBindInfo

namespace Classgraph
open Machine

def machoGetSymByIndex (lib : LibraryInfo) (index : U32) : Except Fault U32 := do
  check .symbolIndex (index < lib.machoSymtabCount)
  return lib.map + lib.machoSymtabOff + Nlist.sizeOf * index

/-- A name without one leading underscore. -/
def stripUnderscore : CStr → CStr
  | '_' :: name => name
  | name => name

def machoGetSymName (mem : Mem) (lib : LibraryInfo) (sym : U32) : Except Fault CStr := do
  let strx ← Nlist.strx mem sym
  if strx = 0 then return []
  else return stripUnderscore (← readCStr mem (lib.map + lib.machoStrtabOff + strx))

def machoGetSymAddr (mem : Mem) (sym : U32) : Except Fault U32 := do
  let type ← Nlist.type mem sym
  if type &&& nStab ≠ 0 then return 0
  else if type &&& nType = nUndf ∨ type &&& nType = nPbud then return 0
  else if type &&& nType = nAbs ∨ type &&& nType = nSect then Nlist.value mem sym
  else if type &&& nType = nIndr then throw (.assertion .indirectSymbol)
  else throw (.assertion .unknownSymbolType)

def fatArchMatches (mem : Mem) (arch : U32) : Except Fault Bool := do
  if swap32 (← FatArch.cputype mem arch) = cpuTypeI386 then
    return swap32 (← FatArch.cpusubtype mem arch) = cpuSubtypeI386All
  else return false

/-- The search for the i386 slice among the next `n` architecture records. -/
def fatArchLoop (mem : Mem) : Nat → U32 → Except Fault (Option U32)
  | 0, _ => .ok none
  | n + 1, arch => do
    if ← fatArchMatches mem arch then return some arch
    else fatArchLoop mem n (arch + FatArch.sizeOf)

/-- The part of `symtab_macho_init` for universal binaries. The loop bound is the
field as it is stored, in the byte order of the file. -/
def machoSlice (mem : Mem) (lib : LibraryInfo) : Except Fault LibraryInfo := do
  let lib := { lib with machoHdr := lib.map }
  if swap32 (← MachHeader.magic mem lib.machoHdr) = fatMagic then
    let nfatArch ← FatHeader.nfatArch mem lib.machoHdr
    match ← fatArchLoop mem nfatArch.toNat (lib.map + FatHeader.sizeOf) with
    | none => throw (.assertion .foundI386)
    | some arch =>
      let map := lib.map + swap32 (← FatArch.offset mem arch)
      return { lib with map := map, machoHdr := map, size := swap32 (← FatArch.size mem arch) }
  else return lib

def machoHeader (mem : Mem) (lib : LibraryInfo) : Except Fault Unit := do
  check .mhMagic ((← MachHeader.magic mem lib.machoHdr) = mhMagic)
  check .cpuType ((← MachHeader.cputype mem lib.machoHdr) = cpuTypeI386)
  check .cpuSubtype ((← MachHeader.cpusubtype mem lib.machoHdr) = cpuSubtypeI386All)
  let filetype ← MachHeader.filetype mem lib.machoHdr
  check .fileType (filetype = mhDylib ∨ filetype = mhExecute)

/-- The command loop's variables: the library entry and `segs[0 .. nsegs)`. -/
structure MachoParse where
  lib : LibraryInfo
  segs : List U32

def maxVmranges : Nat := 256

def maxSegs : Nat := 16

def sectionIsMapped (mem : Mem) (segCmd sect : U32) : Except Fault Bool := do
  if (← SegmentCommand.filesize mem segCmd) ≠ 0 then
    return (← Section.flags mem sect) &&& sectionType ≠ sZerofill
  else return false

/-- The assertions on the addresses of a section, which yield its address and size. -/
def sectionAddrs (mem : Mem) (segCmd sect : U32) : Except Fault (U32 × U32) := do
  let addr ← Section.addr mem sect
  let vmaddr ← SegmentCommand.vmaddr mem segCmd
  check .sectionAboveSegment (vmaddr ≤ addr)
  let vmsize ← SegmentCommand.vmsize mem segCmd
  check .sectionBelowSegment (addr ≤ vmaddr + vmsize)
  let size ← Section.size mem sect
  check .sectionEndsInSegment (addr + size ≤ vmaddr + vmsize)
  return (addr, size)

/-- The assertions on the file offsets of a section that is mapped. -/
def sectionOffsets (mem : Mem) (segCmd sect : U32) : Except Fault Unit := do
  let offset ← Section.offset mem sect
  let fileoff ← SegmentCommand.fileoff mem segCmd
  check .offsetAboveSegment (fileoff ≤ offset)
  let filesize ← SegmentCommand.filesize mem segCmd
  check .offsetBelowSegment (offset ≤ fileoff + filesize)
  let size ← Section.size mem sect
  check .offsetEndsInSegment (offset + size ≤ fileoff + filesize)

/-- One round of the section loop: section `j` of segment number `nsegs`. -/
def machoSection (mem : Mem) (segCmd : U32) (nsegs j : Nat) (sect : U32) (vmranges : List MachoVmrange) :
    Except Fault (List MachoVmrange) := do
  check .vmrangeCount (vmranges.length < maxVmranges)
  let isMapped ← sectionIsMapped mem segCmd sect
  let (addr, size) ← sectionAddrs mem segCmd sect
  if isMapped then sectionOffsets mem segCmd sect
  let offset ← Section.offset mem sect
  check .noOverlap (vmranges.all fun other => addr + size ≤ other.vmAddrBegin ∨ other.vmAddrEnd ≤ addr)
  store .vmranges maxVmranges vmranges
    { isMapped := isMapped
      vmAddrBegin := addr
      vmAddrEnd := addr + size
      mapOffBegin := offset
      mapOffEnd := offset + size
      pSegment := segCmd
      pSection := sect
      segmentIdx := nsegs
      sectionIdx := j }

def machoSections (mem : Mem) (segCmd : U32) (nsegs : Nat) :
    Nat → Nat → U32 → List MachoVmrange → Except Fault (List MachoVmrange)
  | 0, _, _, vmranges => .ok vmranges
  | n + 1, j, sect, vmranges => do
    let vmranges ← machoSection mem segCmd nsegs j sect vmranges
    machoSections mem segCmd nsegs n (j + 1) (sect + Section.sizeOf) vmranges

def machoSegment (mem : Mem) (segCmd : U32) (st : MachoParse) : Except Fault MachoParse := do
  let fileoff ← SegmentCommand.fileoff mem segCmd
  let filesize ← SegmentCommand.filesize mem segCmd
  check .segmentInFile (fileoff + filesize ≤ st.lib.size)
  let nsects ← SegmentCommand.nsects mem segCmd
  let vmranges ← machoSections mem segCmd st.segs.length nsects.toNat 0 (segCmd + SegmentCommand.sizeOf)
    st.lib.machoVmranges
  check .segmentCount (st.segs.length < maxSegs)
  let segs ← store .segs maxSegs st.segs segCmd
  return { lib := { st.lib with machoVmranges := vmranges }, segs := segs }

def machoSymtab (mem : Mem) (cmd : U32) (lib : LibraryInfo) : Except Fault LibraryInfo := do
  return { lib with
    machoSymtabOff := ← SymtabCommand.symoff mem cmd
    machoSymtabCount := ← SymtabCommand.nsyms mem cmd
    machoStrtabOff := ← SymtabCommand.stroff mem cmd
    machoStrtabSize := ← SymtabCommand.strsize mem cmd }

def machoDysymtab (mem : Mem) (cmd : U32) (lib : LibraryInfo) : Except Fault LibraryInfo := do
  return { lib with
    machoExtRelocOff := ← DysymtabCommand.extreloff mem cmd
    machoExtRelocCount := ← DysymtabCommand.nextrel mem cmd }

def machoDyldInfo (mem : Mem) (cmd : U32) (lib : LibraryInfo) : Except Fault LibraryInfo := do
  return { lib with
    machoHasDyldInfo := true
    machoRebaseOff := ← DyldInfoCommand.rebaseOff mem cmd
    machoRebaseSize := ← DyldInfoCommand.rebaseSize mem cmd
    machoBindOff := ← DyldInfoCommand.bindOff mem cmd
    machoBindSize := ← DyldInfoCommand.bindSize mem cmd
    machoWeakBindOff := ← DyldInfoCommand.weakBindOff mem cmd
    machoWeakBindSize := ← DyldInfoCommand.weakBindSize mem cmd
    machoLazyBindOff := ← DyldInfoCommand.lazyBindOff mem cmd
    machoLazyBindSize := ← DyldInfoCommand.lazyBindSize mem cmd
    machoExportOff := ← DyldInfoCommand.exportOff mem cmd
    machoExportSize := ← DyldInfoCommand.exportSize mem cmd }

/-- The switch on the command kind. All cases but these four only leave it. -/
def machoCommand (mem : Mem) (cmd : U32) (st : MachoParse) : Except Fault MachoParse := do
  let kind := (← LoadCommand.cmd mem cmd) &&& ~~~lcReqDyld
  if kind = lcSegment then machoSegment mem cmd st
  else if kind = lcSymtab then return { st with lib := ← machoSymtab mem cmd st.lib }
  else if kind = lcDysymtab then return { st with lib := ← machoDysymtab mem cmd st.lib }
  else if kind = lcDyldInfo ∨ kind = lcDyldInfoOnly then return { st with lib := ← machoDyldInfo mem cmd st.lib }
  else return st

def machoCommands (mem : Mem) : Nat → U32 → MachoParse → Except Fault MachoParse
  | 0, _, st => .ok st
  | n + 1, cmd, st => do
    let st ← machoCommand mem cmd st
    machoCommands mem n (cmd + (← LoadCommand.cmdsize mem cmd)) st

/-- `symtab_macho_init` up to the end of the command loop. -/
def machoParse (mem : Mem) (lib : LibraryInfo) : Except Fault MachoParse := do
  let lib ← machoSlice mem lib
  machoHeader mem lib
  let ncmds ← MachHeader.ncmds mem lib.machoHdr
  machoCommands mem ncmds.toNat (lib.map + MachHeader.sizeOf) { lib := { lib with machoVmranges := [] }, segs := [] }

/-- The end of `symtab_macho_init`: the bind information is decoded once all segments are known. -/
def machoBind (malloc : Malloc) (mem : Mem) (st : MachoParse) : Except Fault LibraryInfo := do
  if st.lib.machoHasDyldInfo then
    let start := st.lib.map + st.lib.machoBindOff
    match ← getDyldBindInfo malloc mem start (start + st.lib.machoBindSize) st.segs with
    | none => return st.lib
    | some (dbi, ndbi) => return { st.lib with machoDbi := dbi, machoNdbi := ndbi }
  else return st.lib

def symtabMachoInit (malloc : Malloc) (mem : Mem) (lib : LibraryInfo) : Except Fault LibraryInfo := do
  machoBind malloc mem (← machoParse mem lib)

/-- One round of `symtab_macho_foreach`: the entry that is handed to the callback, if any. -/
def machoForeachEntry (env : Env) (slot : Slot) (lib : LibraryInfo) (i : Nat) : Except Fault (Option Symbol) := do
  let sym := lib.map + lib.machoSymtabOff + Nlist.sizeOf * BitVec.ofNat 32 i
  let type ← Nlist.type env.mem sym
  if type &&& nExt ≠ 0 ∨ type &&& nStab ≠ 0 then return none
  check .indirectEntry (type &&& nType ≠ nIndr)
  let addr ← machoGetSymAddr env.mem sym
  let name ← machoGetSymName env.mem lib sym
  return some ⟨slot, addr, 0, name, ← tryDemangleNoprefix env name⟩

def symtabMachoForeach (env : Env) (slot : Slot) (lib : LibraryInfo) : Emits Fault Symbol :=
  Emits.each (machoForeachEntry env slot lib) lib.machoSymtabCount.toNat 0

def extRelocMatches (mem : Mem) (reloc addr : U32) : Except Fault Bool := do
  -- the offset of the entry is taken for an address
  if (← RelocationInfo.rAddress mem reloc) = addr then
    let fields ← RelocationInfo.fields mem reloc
    return RelocationInfo.rExtern fields = 1 ∧ RelocationInfo.rType fields = rAbs ∧ RelocationInfo.rLength fields = 2
  else return false

def extRelocSymbol (env : Env) (slot : Slot) (lib : LibraryInfo) (reloc : U32) : Except Fault Symbol := do
  let sym ← machoGetSymByIndex lib (RelocationInfo.rSymbolnum (← RelocationInfo.fields env.mem reloc))
  let addr ← machoGetSymAddr env.mem sym
  let name ← machoGetSymName env.mem lib sym
  return ⟨slot, addr, 0, name, ← tryDemangleNoprefix env name⟩

/-- The old relocation entries: the first match among the next `n` of them. -/
def extRelocLoop (env : Env) (slot : Slot) (lib : LibraryInfo) (addr : U32) :
    Nat → U32 → Except Fault (Option Symbol)
  | 0, _ => .ok none
  | n + 1, reloc => do
    if ← extRelocMatches env.mem reloc addr then return some (← extRelocSymbol env slot lib reloc)
    else extRelocLoop env slot lib addr n (reloc + RelocationInfo.sizeOf)

def bindInfoSymbol (env : Env) (slot : Slot) (info : DyldBindInfo) : Except Fault Symbol := do
  let name := stripUnderscore (← readCStr env.mem info.symbolname)
  return ⟨slot, (info.address + info.addend).setWidth 32, 0, name, ← tryDemangleNoprefix env name⟩

/-- The decoded bind information: the first match among the next `n` records. A record
beyond those that were stored is memory that was never written. -/
def bindInfoLoop (env : Env) (slot : Slot) (lib : LibraryInfo) (addr : U32) :
    Nat → Nat → Except Fault (Option Symbol)
  | 0, _ => .ok none
  | n + 1, i =>
    match lib.machoDbi[i]? with
    | none => .error .uninitialised
    | some info =>
      if info.address = addr.setWidth 64 then do return some (← bindInfoSymbol env slot info)
      else bindInfoLoop env slot lib addr n (i + 1)

def symtabMachoFindRelocSymForAddr (env : Env) (slot : Slot) (lib : LibraryInfo) (addr : U32) :
    Except Fault (Option Symbol) := do
  match ← extRelocLoop env slot lib addr lib.machoExtRelocCount.toNat (lib.map + lib.machoExtRelocOff) with
  | some entry => return some entry
  | none =>
    if lib.machoHasDyldInfo then bindInfoLoop env slot lib addr lib.machoNdbi 0
    else return none

/-- The pointer into the mapping for a range of VM addresses. -/
def symtabMachoGetPtr (lib : LibraryInfo) (addr size : U32) : Except Fault U32 :=
  match lib.machoVmranges.find? fun vmrange => vmrange.vmAddrBegin ≤ addr ∧ addr < vmrange.vmAddrEnd with
  | none => .error (.assertion .vmrangeFound)
  | some vmrange => do
    check .vmrangeMapped vmrange.isMapped
    -- the sum may wrap around
    check .sizeFitsVmrange (addr + size ≤ vmrange.vmAddrEnd)
    return lib.map + (vmrange.mapOffBegin + (addr - vmrange.vmAddrBegin))

end Classgraph
