import Classgraph.General.Run
import Classgraph.SymtabElf

namespace Classgraph
open Run Machine

namespace Elf32

section

variable (byte : Nat → Option U8)

def half (offset : Nat) : Option U16 := do return (← byte (offset + 1)) ++ (← byte offset)

def word (offset : Nat) : Option U32 := do return (← half byte (offset + 2)) ++ (← half byte offset)

/-- The characters from an offset up to the first NUL among the next `n` bytes. -/
def chars : Nat → Nat → Option CStr
  | 0, _ => none
  | n + 1, offset => do
    let b ← byte offset
    if b = 0 then return [] else return Char.ofNat b.toNat :: (← chars n (offset + 1))

def eShoff : Nat := ((word byte 32).getD 0).toNat

def eShnum : Nat := ((half byte 48).getD 0).toNat

/-- A word of the `Elf32_Shdr` with the given number. -/
def shdrWord (i field : Nat) : U32 := (word byte (eShoff byte + 40 * i + field)).getD 0

def shName (i : Nat) : U32 := shdrWord byte i 0
def shType (i : Nat) : U32 := shdrWord byte i 4
def shOffset (i : Nat) : U32 := shdrWord byte i 16
def shSize (i : Nat) : U32 := shdrWord byte i 20
def shLink (i : Nat) : U32 := shdrWord byte i 24
def shEntsize (i : Nat) : U32 := shdrWord byte i 36

/-- Where a part of the content of a section lies, if the section has so many bytes. -/
def content (i offset length : Nat) : Option Nat :=
  if offset + length ≤ (shSize byte i).toNat then some ((shOffset byte i).toNat + offset) else none

/-- `gelf_getsym` on an `Elf32_Sym`. -/
def getsym (i k : Nat) : Option ElfSym := do
  let p ← content byte i (16 * k) 16
  return ⟨← word byte p, (← word byte (p + 4)).setWidth 64, (← word byte (p + 8)).setWidth 64⟩

/-- `gelf_getdyn` on an `Elf32_Dyn`. -/
def getdyn (i k : Nat) : Option ElfDyn := do
  let p ← content byte i (8 * k) 8
  return ⟨(← word byte p).signExtend 64, (← word byte (p + 4)).setWidth 64⟩

/-- A section as `elf_nextscn` and `gelf_getshdr` present it. -/
def scn (i : Nat) : ElfScn where
  ndx := BitVec.ofNat 32 i
  shdr :=
    { shName := shName byte i
      shType := shType byte i
      shLink := shLink byte i
      shSize := (shSize byte i).setWidth 64
      shEntsize := (shEntsize byte i).setWidth 64 }
  getsym := getsym byte i
  getdyn := getdyn byte i

/-- `elf_strptr`. -/
def strptr (ndx : U32) (offset : U64) : Option CStr :=
  if ndx.toNat < eShnum byte ∧ shType byte ndx.toNat = shtStrtab then
    (content byte ndx.toNat offset.toNat 1).bind (chars byte ((shSize byte ndx.toNat).toNat - offset.toNat))
  else none

/-- What libelf presents of the bytes of a 32-bit file: `elf_nextscn` passes over section 0. -/
def elfMemory : Elf where
  scns := (List.range (eShnum byte - 1)).map fun i => scn byte (i + 1)
  strptr := strptr byte

end

variable {byte : Nat → Option U8}

/-- There are no entries behind the end of the section. -/
theorem getdyn_eq {i : Nat} {entries : List ElfDyn} (counted : (shSize byte i).toNat = 8 * entries.length)
    (stored : ∀ k < entries.length, getdyn byte i k = entries[k]?) (k : Nat) : getdyn byte i k = entries[k]? := by
  by_cases inside : k < entries.length
  · exact stored k inside
  · have behind : ¬8 * k + 8 ≤ (shSize byte i).toNat := by omega
    rw [getdyn, content, if_neg behind, List.getElem?_eq_none (by omega)]
    rfl

/-- The number of a section determines it. -/
theorem mem_scns {found : ElfScn} (member : found ∈ (elfMemory byte).scns) : found = scn byte found.ndx.toNat := by
  obtain ⟨i, bound, rfl⟩ := List.mem_map.mp member
  have few : eShnum byte < 2 ^ 16 := ((half byte 48).getD 0).isLt
  have below := List.mem_range.mp bound
  have number : (scn byte (i + 1)).ndx.toNat = i + 1 := Nat.mod_eq_of_lt (by omega)
  rw [number]

end Elf32

/-- The section that a search yields is one of the file. -/
theorem symtabElfFindSection_mem {mem : Mem} {lib : LibraryInfo} {type : U32} {name : Option CStr} {n : Nat}
    {found : ElfScn} (run : symtabElfFindSection mem lib type name = .ok (n, some found)) : found ∈ lib.elf.scns := by
  have member : Holds (fun _ => True) (symtabElfFindSection mem lib type name) fun result =>
      ∀ scn, result.2 = some scn → scn ∈ lib.elf.scns := by
    refine .foldlM ?_ fun scn none => absurd none.symm (Option.some_ne_none scn)
    intro result known scn inScns
    refine (Holds.trivial _).bind fun isMatch _ => ?_
    cases isMatch with
    | false => exact known
    | true =>
      intro other same
      cases same
      exact inScns
  exact member.of_ok run found rfl

/-- In a file that libelf presents, a search that ends at the section of that number yields that section. -/
theorem symtabElfFindSection_elf32 {mem : Mem} {byte : Nat → Option U8} {lib : LibraryInfo}
    (isElf : lib.elf = Elf32.elfMemory byte) {type : U32} {name : Option CStr} {n i : Nat}
    (run : (symtabElfFindSection mem lib type name).map (fun found => (found.1, found.2.map fun scn => scn.ndx.toNat)) =
      .ok (n, some i)) :
    symtabElfFindSection mem lib type name = .ok (n, some (Elf32.scn byte i)) := by
  cases result : symtabElfFindSection mem lib type name with
  | error fault =>
    rw [result] at run
    cases run
  | ok found =>
    obtain ⟨count, last⟩ := found
    rw [result] at run
    cases last with
    | none => cases run
    | some scn =>
      cases run
      have member := symtabElfFindSection_mem result
      rw [isElf] at member
      exact congrArg (fun scn => Except.ok (count, some scn)) (Elf32.mem_scns member)

/-- Names one after the other, each with its NUL, behind an empty name. -/
def strtabBytes (names : List String) : List U8 :=
  0 :: names.flatMap fun name => name.toList.map (fun c => BitVec.ofNat 8 c.toNat) ++ [0]

/-- The offset of a name in that table. -/
def strtabOffset (names : List String) (i : Nat) : U32 := BitVec.ofNat 32 (strtabBytes (names.take i)).length

def byteOfParts : List (List U8) → Nat → Option U8
  | [], _ => none
  | part :: parts, offset => if offset < part.length then part[offset]? else byteOfParts parts (offset - part.length)

theorem byteOfParts_eq (parts : List (List U8)) (offset : Nat) : byteOfParts parts offset = parts.flatten[offset]? := by
  induction parts generalizing offset with
  | nil => rfl
  | cons part parts ih =>
    rw [byteOfParts, List.flatten_cons]
    by_cases inside : offset < part.length
    · rw [if_pos inside, List.getElem?_append_left inside]
    · rw [if_neg inside, List.getElem?_append_right (Nat.le_of_not_lt inside), ih]

/-- A shared library: the names that its dynamic section refers to, the tags and values of that section, and the names
and values of its symbols. -/
structure ElfFile where
  dynstr : List String := []
  dynamic : List (U32 × U32) := []
  symbols : List (String × U32) := []
  symEntsize : U32 := 16

namespace ElfFile

def shstrtab : List String := [".shstrtab", ".dynstr", ".dynamic", ".symtab", ".strtab"]

/-- `sh_type`, `sh_link`, `sh_entsize` and the content of each section. -/
def sections (file : ElfFile) : List (U32 × U32 × U32 × List U8) :=
  [(shtStrtab, 0, 0, strtabBytes shstrtab),
    (shtStrtab, 0, 0, strtabBytes file.dynstr),
    (shtDynamic, 2, 8, wordBytes (file.dynamic.flatMap fun entry => [entry.1, entry.2])),
    (shtSymtab, 5, file.symEntsize, wordBytes ((List.range file.symbols.length).flatMap fun i =>
      [strtabOffset (file.symbols.map Prod.fst) i, (file.symbols[i]?.map Prod.snd).getD 0, 0, 0x10011])),
    (shtStrtab, 0, 0, strtabBytes (file.symbols.map Prod.fst))]

/-- The section headers from number `i + 1` on, for contents from an offset on. -/
def shdrs : Nat → Nat → List (U32 × U32 × U32 × List U8) → List (List U8)
  | _, _, [] => []
  | i, offset, (type, link, entsize, content) :: rest =>
    wordBytes [strtabOffset shstrtab i, type, 0, 0, BitVec.ofNat 32 offset, BitVec.ofNat 32 content.length, link, 0, 1,
      entsize] :: shdrs (i + 1) (offset + content.length) rest

/-- The `Elf32_Ehdr`, the six section headers and the contents. -/
def parts (file : ElfFile) : List (List U8) :=
  ([0x7f, 0x45, 0x4c, 0x46, 1, 1, 1, 0, 0, 0, 0, 0, 0, 0, 0, 0] ++
      wordBytes [0x30003, 1, 0, 0, 52, 0, 52, 40 * 0x10000, 0x10006]) ::
    wordBytes (List.replicate 10 0) :: shdrs 0 292 file.sections ++ file.sections.map fun spec => spec.2.2.2

def bytes (file : ElfFile) : List U8 := file.parts.flatten

/-- A byte of the file, found by the part in which it lies. -/
def byte (file : ElfFile) : Nat → Option U8 := byteOfParts file.parts

/-- The parts are read as the bytes of one file. -/
theorem byte_eq (file : ElfFile) (offset : Nat) : file.byte offset = file.bytes[offset]? := byteOfParts_eq _ _

/-- A library without symbols that needs the given libraries. -/
def needing (needed : List String) : ElfFile where
  dynstr := needed
  dynamic := (List.range needed.length).map (fun i => (1, strtabOffset needed i)) ++ [(0, 0)]

end ElfFile

/-- Files of at most 4 KiB, each mapped on a page of its own, in front of the rest of the process. -/
def pagesOf (files : List ElfFile) (process : Mem) : Mem where
  byte p :=
    if p.toNat < 0x1000 then process.byte p
    else
      match files[p.toNat / 0x1000 - 1]? with
      | some file => file.byte (p.toNat % 0x1000)
      | none => process.byte p
  null := process.null

/-- A host with the given files, whose loaded copies are in the rest of the process. -/
def fileHost (files : List (String × ElfFile)) (process : Mem) (typeid : U32 → Typeid) : Env where
  mem := pagesOf (files.map Prod.snd) process
  malloc := emptyHeap
  openFile path := files.findIdx? fun file => file.1.toList = path
  fstat fd := files[fd]?.map fun file => BitVec.ofNat 32 file.2.bytes.length
  mmap fd := some (BitVec.ofNat 32 (0x1000 * (fd + 1)))
  dlopen path := files.findIdx? fun file => file.1.toList = path
  dlinfo handle := some (BitVec.ofNat 32 (0x10000 * (handle + 1)))
  elfMemory map _ := (files[map.toNat / 0x1000 - 1]?.map fun file => Elf32.elfMemory file.2.byte).getD {}
  dynEntry := ⟨0, 0⟩
  loopBound := 8
  typeid := typeid
  reTypeinfo _ := none
  reFilter _ := some fun _ => true
  cplusDemangle _ := none

/-- Its sections are those of the files. -/
theorem fileHost_scn {files : List (String × ElfFile)} {process : Mem} {typeid : U32 → Typeid} {map size : U32}
    {scn : ElfScn} (member : scn ∈ ((fileHost files process typeid).elfMemory map size).scns) :
    ∃ file ∈ files, scn ∈ (Elf32.elfMemory file.2.byte).scns := by
  rw [fileHost] at member
  dsimp only at member
  cases found : files[map.toNat / 0x1000 - 1]? with
  | none =>
    rw [found] at member
    cases member
  | some file =>
    rw [found] at member
    exact ⟨file, List.mem_of_getElem? found, member⟩

end Classgraph
