import Classgraph.Types

namespace Classgraph
open Machine

/-! Field accesses through pointers to the structures of `mach-o/loader.h`, `fat.h`,
`nlist.h` and `reloc.h`, with the layout the i386 ABI gives them. -/

def mhMagic : U32 := 0xfeedface
def fatMagic : U32 := 0xcafebabe
def fatCigam : U32 := 0xbebafeca
def mhExecute : U32 := 0x2
def mhDylib : U32 := 0x6
def mhSplitSegs : U32 := 0x20
def cpuTypeI386 : U32 := 7
def cpuSubtypeI386All : U32 := 3

namespace MachHeader
def sizeOf : U32 := 28
def magic (mem : Mem) (p : U32) : Except Fault U32 := readWord mem p
def cputype (mem : Mem) (p : U32) : Except Fault U32 := readWord mem (p + 4)
def cpusubtype (mem : Mem) (p : U32) : Except Fault U32 := readWord mem (p + 8)
def filetype (mem : Mem) (p : U32) : Except Fault U32 := readWord mem (p + 12)
def ncmds (mem : Mem) (p : U32) : Except Fault U32 := readWord mem (p + 16)
def flags (mem : Mem) (p : U32) : Except Fault U32 := readWord mem (p + 24)
end MachHeader

namespace FatHeader
def sizeOf : U32 := 8
def nfatArch (mem : Mem) (p : U32) : Except Fault U32 := readWord mem (p + 4)
end FatHeader

namespace FatArch
def sizeOf : U32 := 20
def cputype (mem : Mem) (p : U32) : Except Fault U32 := readWord mem p
def cpusubtype (mem : Mem) (p : U32) : Except Fault U32 := readWord mem (p + 4)
def offset (mem : Mem) (p : U32) : Except Fault U32 := readWord mem (p + 8)
def size (mem : Mem) (p : U32) : Except Fault U32 := readWord mem (p + 12)
end FatArch

def lcReqDyld : U32 := 0x80000000
def lcSegment : U32 := 0x1
def lcSymtab : U32 := 0x2
def lcDysymtab : U32 := 0xb
def lcDyldInfo : U32 := 0x22
def lcDyldInfoOnly : U32 := 0x22 ||| lcReqDyld

namespace LoadCommand
def cmd (mem : Mem) (p : U32) : Except Fault U32 := readWord mem p
def cmdsize (mem : Mem) (p : U32) : Except Fault U32 := readWord mem (p + 4)
end LoadCommand

namespace SegmentCommand
def sizeOf : U32 := 56
def vmaddr (mem : Mem) (p : U32) : Except Fault U32 := readWord mem (p + 24)
def vmsize (mem : Mem) (p : U32) : Except Fault U32 := readWord mem (p + 28)
def fileoff (mem : Mem) (p : U32) : Except Fault U32 := readWord mem (p + 32)
def filesize (mem : Mem) (p : U32) : Except Fault U32 := readWord mem (p + 36)
def nsects (mem : Mem) (p : U32) : Except Fault U32 := readWord mem (p + 48)
end SegmentCommand

def sectionType : U32 := 0x000000ff
def sZerofill : U32 := 0x1

namespace Section
def sizeOf : U32 := 68
def addr (mem : Mem) (p : U32) : Except Fault U32 := readWord mem (p + 32)
def size (mem : Mem) (p : U32) : Except Fault U32 := readWord mem (p + 36)
def offset (mem : Mem) (p : U32) : Except Fault U32 := readWord mem (p + 40)
def flags (mem : Mem) (p : U32) : Except Fault U32 := readWord mem (p + 56)
end Section

namespace SymtabCommand
def symoff (mem : Mem) (p : U32) : Except Fault U32 := readWord mem (p + 8)
def nsyms (mem : Mem) (p : U32) : Except Fault U32 := readWord mem (p + 12)
def stroff (mem : Mem) (p : U32) : Except Fault U32 := readWord mem (p + 16)
def strsize (mem : Mem) (p : U32) : Except Fault U32 := readWord mem (p + 20)
end SymtabCommand

namespace DysymtabCommand
def extreloff (mem : Mem) (p : U32) : Except Fault U32 := readWord mem (p + 64)
def nextrel (mem : Mem) (p : U32) : Except Fault U32 := readWord mem (p + 68)
end DysymtabCommand

namespace DyldInfoCommand
def rebaseOff (mem : Mem) (p : U32) : Except Fault U32 := readWord mem (p + 8)
def rebaseSize (mem : Mem) (p : U32) : Except Fault U32 := readWord mem (p + 12)
def bindOff (mem : Mem) (p : U32) : Except Fault U32 := readWord mem (p + 16)
def bindSize (mem : Mem) (p : U32) : Except Fault U32 := readWord mem (p + 20)
def weakBindOff (mem : Mem) (p : U32) : Except Fault U32 := readWord mem (p + 24)
def weakBindSize (mem : Mem) (p : U32) : Except Fault U32 := readWord mem (p + 28)
def lazyBindOff (mem : Mem) (p : U32) : Except Fault U32 := readWord mem (p + 32)
def lazyBindSize (mem : Mem) (p : U32) : Except Fault U32 := readWord mem (p + 36)
def exportOff (mem : Mem) (p : U32) : Except Fault U32 := readWord mem (p + 40)
def exportSize (mem : Mem) (p : U32) : Except Fault U32 := readWord mem (p + 44)
end DyldInfoCommand

def nStab : U8 := 0xe0
def nType : U8 := 0x0e
def nExt : U8 := 0x01
def nUndf : U8 := 0x0
def nAbs : U8 := 0x2
def nIndr : U8 := 0xa
def nPbud : U8 := 0xc
def nSect : U8 := 0xe

namespace Nlist
def sizeOf : U32 := 12
def strx (mem : Mem) (p : U32) : Except Fault U32 := readWord mem p
def type (mem : Mem) (p : U32) : Except Fault U8 := readByte mem (p + 4)
def value (mem : Mem) (p : U32) : Except Fault U32 := readWord mem (p + 8)
end Nlist

def rAbs : U32 := 0

namespace RelocationInfo
def sizeOf : U32 := 8
def rAddress (mem : Mem) (p : U32) : Except Fault U32 := readWord mem p
/-- The word that the bit-fields of the structure share. -/
def fields (mem : Mem) (p : U32) : Except Fault U32 := readWord mem (p + 4)
def rSymbolnum (fields : U32) : U32 := fields &&& 0xffffff
def rLength (fields : U32) : U32 := (fields >>> 25) &&& 0x3
def rExtern (fields : U32) : U32 := (fields >>> 27) &&& 0x1
def rType (fields : U32) : U32 := fields >>> 28
end RelocationInfo

end Classgraph
