import Classgraph.Main
import Classgraph.VmRanges

namespace Classgraph
open Run Machine

/-- The position of the i386 slice in the file: 0 where the file is a plain image. -/
def sliceOffset (lib result : LibraryInfo) : Nat := (result.map - lib.map).toNat

/-- The address of the content of a section, in exact arithmetic. -/
def sectionStart (lib result : LibraryInfo) (vmrange : MachoVmrange) : Nat :=
  lib.map.toNat + sliceOffset lib result + vmrange.mapOffBegin.toNat

/-- The bytes of a class type information object at `p` belong to the mapping of the file, and to
the content of every section that `addr` lies in. -/
structure InFile (mem : Mem) (lib result : LibraryInfo) (addr p : U32) : Prop where
  mapping : lib.map.toNat ≤ p.toNat ∧ p.toNat + 8 ≤ lib.map.toNat + lib.size.toNat
  content : ∀ vmrange ∈ result.machoVmranges, vmrange.Contains addr →
    ∃ size, Section.size mem vmrange.pSection = .ok size ∧ sectionStart lib result vmrange ≤ p.toNat ∧
      p.toNat + 8 ≤ sectionStart lib result vmrange + size.toNat

/-- A range that leaves room for an object below the end of the address space, and whose
content ends in the file if an object fits into it. -/
def MachoVmrange.EndsInFile (lib result : LibraryInfo) (vmrange : MachoVmrange) : Prop :=
  vmrange.vmAddrEnd.toNat + 8 ≤ 2 ^ 32 ∧
    (vmrange.vmAddrBegin.toNat + 8 ≤ vmrange.vmAddrEnd.toNat →
      sliceOffset lib result + vmrange.mapOffBegin.toNat + (vmrange.vmAddrEnd.toNat - vmrange.vmAddrBegin.toNat) ≤
        lib.size.toNat)

/-- A section whose range is not empty does not wrap around. -/
theorem MachoVmrange.Located.exact_size {mem : Mem} {segs : List U32} {vmrange : MachoVmrange}
    (located : vmrange.Located mem segs) (inhabited : vmrange.vmAddrBegin < vmrange.vmAddrEnd) :
    ∃ size, Section.size mem vmrange.pSection = .ok size ∧
      vmrange.vmAddrBegin.toNat + size.toNat = vmrange.vmAddrEnd.toNat := by
  obtain ⟨size, read, ends, _⟩ := located.size
  refine ⟨size, read, ?_⟩
  rw [ends] at inhabited ⊢
  bv_omega

/-- The first range that covers an address is the only one. -/
theorem VmrangeTable.find?_contains {mem : Mem} {segs : List U32} {vmranges : List MachoVmrange}
    (table : VmrangeTable mem segs vmranges) {vmrange : MachoVmrange} {addr : U32} (member : vmrange ∈ vmranges)
    (inRange : vmrange.Contains addr) :
    vmranges.find? (fun other => other.vmAddrBegin ≤ addr ∧ addr < other.vmAddrEnd) = some vmrange := by
  obtain ⟨i, atVmrange⟩ := List.mem_iff_getElem?.mp member
  cases found : vmranges.find? fun other => other.vmAddrBegin ≤ addr ∧ addr < other.vmAddrEnd with
  | none => exact absurd (decide_eq_true_iff.mpr inRange) (List.find?_eq_none.mp found vmrange member)
  | some first =>
    have inFirst : first.Contains addr := by simpa [MachoVmrange.Contains] using List.find?_some found
    obtain ⟨j, atFirst⟩ := List.mem_iff_getElem?.mp (List.mem_of_find?_eq_some found)
    have same := table.unique atFirst atVmrange inFirst inRange
    rw [same, atVmrange] at atFirst
    exact atFirst.symm

/-- The pointer for an address in a range, and what the checks on it leave. -/
theorem symtabMachoGetPtr_ok {mem : Mem} {segs : List U32} {lib : LibraryInfo} {addr size p : U32}
    (table : VmrangeTable mem segs lib.machoVmranges) :
    symtabMachoGetPtr lib addr size = .ok p ↔
      ∃ vmrange ∈ lib.machoVmranges, vmrange.Contains addr ∧ vmrange.isMapped ∧ addr + size ≤ vmrange.vmAddrEnd ∧
        p = lib.map + (vmrange.mapOffBegin + (addr - vmrange.vmAddrBegin)) := by
  constructor
  · intro returned
    unfold symtabMachoGetPtr at returned
    split at returned
    · cases returned
    · rename_i vmrange found
      obtain ⟨_, isMapped, returned⟩ := bind_ok.mp returned
      obtain ⟨_, fits, returned⟩ := bind_ok.mp returned
      have inRange : vmrange.Contains addr := by simpa [MachoVmrange.Contains] using List.find?_some found
      exact ⟨vmrange, List.mem_of_find?_eq_some found, inRange, check_ok.mp isMapped,
        of_decide_eq_true (check_ok.mp fits), (pure_ok.mp returned).symm⟩
  · rintro ⟨vmrange, member, inRange, isMapped, fits, rfl⟩
    have found := table.find?_contains member inRange
    simp only [symtabMachoGetPtr, found, isMapped, decide_eq_true fits, check, if_true]
    rfl

/-- The pointer is the wrapped value of the exact one. -/
theorem ptr_toNat (lib result : LibraryInfo) {vmrange : MachoVmrange} {addr : U32}
    (above : vmrange.vmAddrBegin ≤ addr) :
    (result.map + (vmrange.mapOffBegin + (addr - vmrange.vmAddrBegin))).toNat =
      (sectionStart lib result vmrange + (addr.toNat - vmrange.vmAddrBegin.toNat)) % 2 ^ 32 := by
  have slice : result.map.toNat = (lib.map.toNat + sliceOffset lib result) % 2 ^ 32 := by
    have sum : result.map = lib.map + (result.map - lib.map) := by bv_omega
    rw [sliceOffset, ← BitVec.toNat_add, ← sum]
  have distance : (addr - vmrange.vmAddrBegin).toNat = addr.toNat - vmrange.vmAddrBegin.toNat :=
    BitVec.toNat_sub_of_le above
  simp only [BitVec.toNat_add, distance, slice, sectionStart]
  omega

section

variable {malloc : Malloc} {mem : Mem} {segs : List U32} {lib result : LibraryInfo}

theorem inFile_of_endsInFile (mapped : lib.map.toNat + lib.size.toNat ≤ 2 ^ 32)
    (table : VmrangeTable mem segs result.machoVmranges)
    (ends : ∀ vmrange ∈ result.machoVmranges, vmrange.isMapped → vmrange.vmAddrBegin < vmrange.vmAddrEnd →
      vmrange.EndsInFile lib result) {addr p : U32}
    (returned : symtabMachoGetPtr result addr sizeofClassTypeInfo = .ok p) : InFile mem lib result addr p := by
  obtain ⟨vmrange, member, inRange, isMapped, fits, rfl⟩ := (symtabMachoGetPtr_ok table).mp returned
  have inhabited : vmrange.vmAddrBegin < vmrange.vmAddrEnd := Nat.lt_of_le_of_lt inRange.1 inRange.2
  obtain ⟨below, inFile⟩ := ends vmrange member isMapped inhabited
  have exactEnd : addr.toNat + 8 ≤ vmrange.vmAddrEnd.toNat := by
    have before := inRange.2
    simp only [sizeofClassTypeInfo] at fits
    bv_omega
  have above : vmrange.vmAddrBegin.toNat ≤ addr.toNat := inRange.1
  have pointer := ptr_toNat lib result inRange.1
  have bound := inFile (by omega)
  simp only [sectionStart] at pointer
  refine ⟨by omega, ?_⟩
  intro other otherMember inOther
  have same : other = vmrange := by
    have first := table.find?_contains otherMember inOther
    rw [table.find?_contains member inRange] at first
    exact (Option.some.inj first).symm
  obtain ⟨size, read, exactSize⟩ := (table.located vmrange member).exact_size inhabited
  rw [same]
  refine ⟨size, read, ?_⟩
  simp only [sectionStart]
  omega

theorem endsInFile_of_inFile (table : VmrangeTable mem segs result.machoVmranges)
    (inFile : ∀ addr p, symtabMachoGetPtr result addr sizeofClassTypeInfo = .ok p → InFile mem lib result addr p)
    {vmrange : MachoVmrange} (member : vmrange ∈ result.machoVmranges) (isMapped : vmrange.isMapped)
    (inhabited : vmrange.vmAddrBegin < vmrange.vmAddrEnd) : vmrange.EndsInFile lib result := by
  obtain ⟨size, read, exactSize⟩ := (table.located vmrange member).exact_size inhabited
  have last (addr : U32) (inRange : vmrange.Contains addr) (fits : addr + sizeofClassTypeInfo ≤ vmrange.vmAddrEnd) :
      ∃ p : Nat, p = (sectionStart lib result vmrange + (addr.toNat - vmrange.vmAddrBegin.toNat)) % 2 ^ 32 ∧
        p + 8 ≤ lib.map.toNat + lib.size.toNat ∧ sectionStart lib result vmrange ≤ p ∧
        p + 8 ≤ sectionStart lib result vmrange + size.toNat := by
    have inside := inFile addr _ ((symtabMachoGetPtr_ok table).mpr ⟨vmrange, member, inRange, isMapped, fits, rfl⟩)
    obtain ⟨size', read', bounds⟩ := inside.content vmrange member inRange
    rw [read] at read'
    cases read'
    exact ⟨_, ptr_toNat lib result inRange.1, inside.mapping.2, bounds⟩
  have inhabitedNat : vmrange.vmAddrBegin.toNat < vmrange.vmAddrEnd.toNat := inhabited
  have small := vmrange.vmAddrEnd.isLt
  constructor
  · by_contra beyond
    have before : (vmrange.vmAddrEnd - 1).toNat = vmrange.vmAddrEnd.toNat - 1 := by bv_omega
    have inRange : vmrange.Contains (vmrange.vmAddrEnd - 1) := ⟨by bv_omega, by bv_omega⟩
    obtain ⟨p, pointer, _, lower, upper⟩ := last (vmrange.vmAddrEnd - 1) inRange (by
      simp only [sizeofClassTypeInfo]
      bv_omega)
    omega
  · intro room
    have before : (vmrange.vmAddrEnd - 8).toNat = vmrange.vmAddrEnd.toNat - 8 := by bv_omega
    have inRange : vmrange.Contains (vmrange.vmAddrEnd - 8) := ⟨by bv_omega, by bv_omega⟩
    obtain ⟨p, pointer, inMapping, lower, upper⟩ := last (vmrange.vmAddrEnd - 8) inRange (by
      simp only [sizeofClassTypeInfo]
      bv_omega)
    simp only [sectionStart] at pointer lower upper
    omega

/-- Every translated pointer stays in the file and in its section exactly if every mapped range
that is not empty ends in the file. -/
theorem getPtr_inFile_iff (mapped : lib.map.toNat + lib.size.toNat ≤ 2 ^ 32)
    (init : symtabMachoInit malloc mem lib = .ok result) :
    (∀ addr p, symtabMachoGetPtr result addr sizeofClassTypeInfo = .ok p → InFile mem lib result addr p) ↔
      ∀ vmrange ∈ result.machoVmranges, vmrange.isMapped → vmrange.vmAddrBegin < vmrange.vmAddrEnd →
        vmrange.EndsInFile lib result := by
  obtain ⟨st, parse, bound⟩ := bind_ok.mp init
  have table := ((machoParse_valid mem lib).of_ok parse).1.table
  rw [← ((machoBind_keeps malloc mem st).of_ok bound).vmranges] at table
  constructor
  · intro inFile vmrange member isMapped inhabited
    exact endsInFile_of_inFile table inFile member isMapped inhabited
  · intro ends addr p returned
    exact inFile_of_endsInFile mapped table ends returned

end

/-- A dynamic library with one segment, which is its only section: `size` bytes from 124 on. -/
def sectionImage (addr size : U32) : List U32 :=
  [mhMagic, cpuTypeI386, cpuSubtypeI386All, mhDylib, 1, 124, 0] ++
    [lcSegment, 124, 0, 0, 0, 0, addr, size, 124, size, 7, 7, 1, 0] ++
    [0, 0, 0, 0, 0, 0, 0, 0, addr, size, 124, 0, 0, 0, 0, 0, 0]

def sectionMem (addr size : U32) : Mem := .ofBytes 0x1000 (wordBytes (sectionImage addr size))

def sectionLib : LibraryInfo := { map := 0x1000, size := 152 }

/-- The position of the image and the table after a run of `symtab_macho_init`. -/
def initRanges (mem : Mem) (lib : LibraryInfo) : Except Fault (U32 × List MachoVmrange) := do
  let lib ← symtabMachoInit emptyHeap mem lib
  return (lib.map, lib.machoVmranges)

def sectionRange (addr size : U32) : MachoVmrange where
  isMapped := true
  vmAddrBegin := addr
  vmAddrEnd := addr + size
  mapOffBegin := 124
  mapOffEnd := 124 + size
  pSegment := 0x1000 + 28
  pSection := 0x1000 + 84
  segmentIdx := 0
  sectionIdx := 0

theorem initRanges_ok {mem : Mem} {lib : LibraryInfo} {map : U32} {vmranges : List MachoVmrange}
    (run : initRanges mem lib = .ok (map, vmranges)) :
    ∃ result, symtabMachoInit emptyHeap mem lib = .ok result ∧ result.map = map ∧ result.machoVmranges = vmranges := by
  obtain ⟨result, init, same⟩ := bind_ok.mp run
  cases pure_ok.mp same
  exact ⟨result, init, rfl, rfl⟩

/-- At the end of the address space the check on the end of an object wraps around. -/
theorem topSection_leavesFile :
    sectionLib.map.toNat + sectionLib.size.toNat ≤ 2 ^ 32 ∧
      ∃ result, symtabMachoInit emptyHeap (sectionMem 0xffffffe0 28) sectionLib = .ok result ∧
        ¬∀ addr p, symtabMachoGetPtr result addr sizeofClassTypeInfo = .ok p →
          InFile (sectionMem 0xffffffe0 28) sectionLib result addr p := by
  have run : initRanges (sectionMem 0xffffffe0 28) sectionLib = .ok (0x1000, [sectionRange 0xffffffe0 28]) := by
    decide +kernel
  obtain ⟨result, init, map, vmranges⟩ := initRanges_ok run
  refine ⟨by decide, result, init, ?_⟩
  intro inFile
  have returned : symtabMachoGetPtr result 0xfffffffa sizeofClassTypeInfo = .ok 0x1096 := by
    simp only [symtabMachoGetPtr, vmranges, map]
    decide
  exact absurd (inFile _ _ returned).mapping.2 (by decide)

theorem lowSection_inFile :
    ∃ result, symtabMachoInit emptyHeap (sectionMem 0x2000 28) sectionLib = .ok result ∧
      ∀ addr p, symtabMachoGetPtr result addr sizeofClassTypeInfo = .ok p →
        InFile (sectionMem 0x2000 28) sectionLib result addr p := by
  have run : initRanges (sectionMem 0x2000 28) sectionLib = .ok (0x1000, [sectionRange 0x2000 28]) := by
    decide +kernel
  obtain ⟨result, init, map, vmranges⟩ := initRanges_ok run
  refine ⟨result, init, (getPtr_inFile_iff (by decide) init).mpr ?_⟩
  rw [vmranges]
  intro vmrange member _ _
  cases List.mem_singleton.mp member
  simp only [MachoVmrange.EndsInFile, sliceOffset, map]
  decide

end Classgraph
