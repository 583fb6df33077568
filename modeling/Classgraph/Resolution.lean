import Classgraph.Symcache

namespace Classgraph
open Writes Machine

/-- Every visited library occupies addresses of its own, from its base on, and the
listed symbols lie among those of their library. -/
structure AbsRanges (libs : Libs) (syms : List Symbol) (extent : Slot → Nat) : Prop where
  fits : ∀ lib ∈ libWalk libs, (libs lib).baseaddr.toNat + extent lib ≤ 2 ^ 32
  disjoint : ∀ lib ∈ libWalk libs, ∀ other ∈ libWalk libs, lib ≠ other →
    (libs lib).baseaddr.toNat + extent lib ≤ (libs other).baseaddr.toNat ∨
      (libs other).baseaddr.toNat + extent other ≤ (libs lib).baseaddr.toNat
  within : ∀ sym ∈ syms, sym.addr.toNat < extent sym.lib

theorem sub_base_eq {base addr rel : U32} (above : base ≤ addr) :
    addr - base = rel ↔ base.toNat + rel.toNat = addr.toNat := by
  constructor
  · rintro rfl
    bv_omega
  · intro sum
    bv_omega

theorem AbsRanges.abs_toNat {libs : Libs} {syms : List Symbol} {extent : Slot → Nat}
    (ranges : AbsRanges libs syms extent) {sym : Symbol} (visited : sym.lib ∈ libWalk libs) (member : sym ∈ syms) :
    ((libs sym.lib).baseaddr + sym.addr).toNat = (libs sym.lib).baseaddr.toNat + sym.addr.toNat := by
  have fits := ranges.fits sym.lib visited
  have within := ranges.within sym member
  rw [BitVec.toNat_add]
  exact Nat.mod_eq_of_lt (by omega)

/-- Symbols at one absolute address belong to one library. -/
theorem AbsRanges.lib_unique {libs : Libs} {syms : List Symbol} {extent : Slot → Nat}
    (ranges : AbsRanges libs syms extent) {left right : Symbol} (leftVisited : left.lib ∈ libWalk libs)
    (rightVisited : right.lib ∈ libWalk libs) (leftMember : left ∈ syms) (rightMember : right ∈ syms)
    (same : (libs left.lib).baseaddr.toNat + left.addr.toNat = (libs right.lib).baseaddr.toNat + right.addr.toNat) :
    left.lib = right.lib := by
  by_contra different
  have leftWithin := ranges.within left leftMember
  have rightWithin := ranges.within right rightMember
  rcases ranges.disjoint left.lib leftVisited right.lib rightVisited different with below | above <;> omega

/-- A host without files, whose only mapping holds `bytes` from `base` on and whose demangler
knows no name. -/
def plainHost (base : U32) (bytes : List U8) (typeid : U32 → Typeid) : Env where
  mem := .ofBytes base bytes
  malloc := emptyHeap
  openFile _ := none
  fstat _ := none
  mmap _ := none
  dlopen _ := none
  dlinfo _ := none
  elfMemory _ _ := {}
  dynEntry := ⟨0, 0⟩
  loopBound := 0
  typeid := typeid
  reTypeinfo _ := none
  reFilter _ := some fun _ => true
  cplusDemangle _ := none

/-- A loaded ELF library with the given symbol table. -/
def elfTable (isPrimary : Bool) (baseaddr : U32) (symbols : List (U32 × String)) : LibraryInfo where
  isPrimary := isPrimary
  name := some "lib".toList
  isElf := true
  baseaddr := baseaddr
  elf := { strptr := fun _ offset => symbols[offset.toNat]?.map fun symbol => symbol.2.toList }
  elfSymtabData := some
    { ndx := 0
      shdr := {}
      getsym := fun i => symbols[i]?.map fun symbol => ⟨BitVec.ofNat 32 i, symbol.1.setWidth 64, 0⟩
      getdyn := fun _ => none }
  elfSymtabCount := symbols.length

/-- The table with the given libraries in its first slots. -/
def tableOf (entries : List LibraryInfo) : Libs := fun slot => entries[slot.val]?.getD {}

def namedAt (lib : Slot) (addr : U32) (name : String) : Symbol := ⟨lib, addr, 0, name.toList, name.toList⟩

def silentHost : Env := plainHost 0 [] fun _ => .classTypeInfo

/-- Two libraries that each have a symbol at the same distance from their base. -/
def clashingLibs : Libs :=
  tableOf [elfTable true 0x10000 [(0x100, "_ZTI1A")], elfTable false 0x20000 [(0x100, "_ZTI1B")]]

def clashingSyms : List Symbol := [namedAt 0 0x100 "_ZTI1A", namedAt 1 0x100 "_ZTI1B"]

/-- A library and a second one, where the relative address of a symbol of the second is an
absolute address of the first. -/
def overlaidLibs (baseaddr : U32) : Libs :=
  tableOf [elfTable true baseaddr [(0x100, "_ZTI1A")], elfTable false 0x20000 [(0x10100, "_ZTI1B")]]

def overlaidSyms : List Symbol := [namedAt 0 0x100 "_ZTI1A", namedAt 1 0x10100 "_ZTI1B"]

def sampleExtent (lib : Slot) : Nat := if lib = 0 then 0x1000 else 0x20000

theorem clashingRun : symtabForeach silentHost clashingLibs = ⟨clashingSyms, none⟩ := by decide

theorem clashingRanges : AbsRanges clashingLibs (keptSyms (fun _ => true) clashingSyms) sampleExtent := by
  have walk : libWalk clashingLibs = [0, 1] := by decide
  exact ⟨by rw [walk]; decide +kernel, by rw [walk]; decide +kernel, by decide⟩

theorem overlaidRun (baseaddr : U32) : symtabForeach silentHost (overlaidLibs baseaddr) = ⟨overlaidSyms, none⟩ := rfl

theorem overlaidRanges {baseaddr : U32} (small : baseaddr.toNat ≤ 0x10000) :
    AbsRanges (overlaidLibs baseaddr) (keptSyms (fun _ => true) overlaidSyms) sampleExtent := by
  have walk : libWalk (overlaidLibs baseaddr) = [0, 1] := rfl
  have first : (overlaidLibs baseaddr 0).baseaddr = baseaddr := rfl
  have second : (overlaidLibs baseaddr 1).baseaddr = 0x20000 := rfl
  have apart : (1 : Slot) ≠ 0 := by decide
  refine ⟨?_, ?_, by decide⟩
  · rw [walk]
    simp [first, second, sampleExtent, apart]
    omega
  · rw [walk]
    simp [first, second, sampleExtent, apart]
    omega

section

variable {env : Env} {libs : Libs} {lFilter : CStr → Bool} {syms : List Symbol} {extent : Slot → Nat}

/-- The symbol that the search over the libraries returns lies at the address it was asked for. -/
theorem symtabAddrAbs_addr {addr : U32} {entry : Symbol}
    (found : symtabAddrAbs libs (fillGlobals lFilter syms).symcache addr = some entry) :
    (libs entry.lib).baseaddr.toNat + entry.addr.toNat = addr.toNat := by
  obtain ⟨_, above, cached⟩ := symtabAddrAbs_sound found
  exact (sub_base_eq above).mp (symcache_mem cached).2.symm

/-- Where ranges are disjoint a cached symbol that is stored under its own distance from the
base of its library is what the search over the libraries returns. -/
theorem symtabAddrAbs_of_cached (run : symtabForeach env libs = ⟨syms, none⟩)
    (ranges : AbsRanges libs (keptSyms lFilter syms) extent) {addr : U32} {sym : Symbol}
    (above : (libs sym.lib).baseaddr ≤ addr)
    (cached : (fillGlobals lFilter syms).symcache[addr - (libs sym.lib).baseaddr]? = some sym) :
    symtabAddrAbs libs (fillGlobals lFilter syms).symcache addr = some sym := by
  obtain ⟨member, addrSame⟩ := symcache_mem cached
  have delivered : sym ∈ (symtabForeach env libs).events := by
    rw [run]
    exact keptSyms_mem member
  have visited := symtabForeach_visited delivered
  obtain ⟨entry, found⟩ := symtabAddrAbs_exists visited above cached
  obtain ⟨entryVisited, entryAbove, entryCached⟩ := symtabAddrAbs_sound found
  have entryMember := (symcache_mem entryCached).1
  have same : (libs entry.lib).baseaddr.toNat + entry.addr.toNat =
      (libs sym.lib).baseaddr.toNat + sym.addr.toNat :=
    (symtabAddrAbs_addr found).trans ((sub_base_eq above).mp addrSame.symm).symm
  have libSame := ranges.lib_unique entryVisited visited entryMember member same
  rw [libSame, cached] at entryCached
  rw [found, entryCached]

/-- The cached symbol belongs to the last library with a kept symbol at its address. -/
theorem symcache_last (run : symtabForeach env libs = ⟨syms, none⟩) {addr : U32} {last other : Symbol}
    (cached : (fillGlobals lFilter syms).symcache[addr]? = some last) (kept : other ∈ keptSyms lFilter syms)
    (addrSame : other.addr = addr) : other.lib ≤ last.lib := by
  have delivered := symtabForeach_ordered env libs
  rw [run] at delivered
  have ordered : (keptSyms lFilter syms).Pairwise fun left right => left.lib ≤ right.lib := delivered.filter _
  rw [fillGlobals_symcache] at cached
  exact lastWith_last (R := fun left right => left.lib ≤ right.lib) (fun _ => le_rfl) ordered cached kept addrSame

theorem symcache_exists {sym : Symbol} (kept : sym ∈ keptSyms lFilter syms) :
    ∃ last, (fillGlobals lFilter syms).symcache[sym.addr]? = some last := by
  rw [fillGlobals_symcache]
  exact lastWith_exists Symbol.addr kept

/-- The lookup by absolute address gives back the symbol's own library and address. -/
def Resolves (libs : Libs) (symcache : Symcache) (sym : Symbol) : Prop :=
  ∃ entry, symtabAddrAbs libs symcache ((libs sym.lib).baseaddr + sym.addr) = some entry ∧
    entry.lib = sym.lib ∧ entry.addr = sym.addr

/-- A kept symbol resolves exactly if no library loaded later has a kept symbol with the
same address relative to its own base. -/
theorem resolves_iff_not_overwritten (run : symtabForeach env libs = ⟨syms, none⟩)
    (ranges : AbsRanges libs (keptSyms lFilter syms) extent) {sym : Symbol} (kept : sym ∈ keptSyms lFilter syms) :
    Resolves libs (fillGlobals lFilter syms).symcache sym ↔
      ∀ other ∈ keptSyms lFilter syms, other.addr = sym.addr → other.lib ≤ sym.lib := by
  have delivered : sym ∈ (symtabForeach env libs).events := by
    rw [run]
    exact keptSyms_mem kept
  have visited := symtabForeach_visited delivered
  have absAddr := ranges.abs_toNat visited kept
  have above : (libs sym.lib).baseaddr ≤ (libs sym.lib).baseaddr + sym.addr := by
    rw [BitVec.le_def, absAddr]
    exact Nat.le_add_right ..
  have distance : (libs sym.lib).baseaddr + sym.addr - (libs sym.lib).baseaddr = sym.addr :=
    (sub_base_eq above).mpr absAddr.symm
  constructor
  · rintro ⟨entry, found, libSame, _⟩ other otherKept addrSame
    have cached := (symtabAddrAbs_sound found).2.2
    rw [libSame, distance] at cached
    rw [← libSame]
    exact symcache_last run cached otherKept addrSame
  · intro notLater
    obtain ⟨last, cached⟩ := symcache_exists kept
    obtain ⟨lastKept, lastAddr⟩ := symcache_mem cached
    have libSame : last.lib = sym.lib :=
      le_antisymm (notLater last lastKept lastAddr) (symcache_last run cached kept rfl)
    refine ⟨last, symtabAddrAbs_of_cached run ranges ?_ ?_, libSame, lastAddr⟩
    · rw [libSame]
      exact above
    · rw [libSame, distance]
      exact cached

/-- The later library's symbol takes the place of the earlier library's in the cache. -/
theorem clashing_unresolved :
    symtabForeach silentHost clashingLibs = ⟨clashingSyms, none⟩ ∧
      AbsRanges clashingLibs (keptSyms (fun _ => true) clashingSyms) sampleExtent ∧
      namedAt 0 0x100 "_ZTI1A" ∈ keptSyms (fun _ => true) clashingSyms ∧
      ¬Resolves clashingLibs (fillGlobals (fun _ => true) clashingSyms).symcache (namedAt 0 0x100 "_ZTI1A") := by
  have missed : symtabAddrAbs clashingLibs (fillGlobals (fun _ => true) clashingSyms).symcache 0x10100 = none := by
    decide
  refine ⟨clashingRun, clashingRanges, by decide, ?_⟩
  rintro ⟨entry, found, _⟩
  cases missed.symm.trans found

theorem clashing_resolved :
    Resolves clashingLibs (fillGlobals (fun _ => true) clashingSyms).symcache (namedAt 1 0x100 "_ZTI1B") :=
  (resolves_iff_not_overwritten clashingRun clashingRanges (by decide)).mpr (by decide)

/-- A hit of the direct search in the cache is what the search over the libraries returns. -/
def FastPathAgrees (libs : Libs) (symcache : Symcache) (baseType : U32) : Prop :=
  ∀ entry, symcache[baseType]? = some entry →
    symtabAddrAbs libs symcache baseType = some entry ∧
      (libs entry.lib).baseaddr.toNat + entry.addr.toNat = baseType.toNat

/-- The direct search is right for a pointer exactly if the last library with a kept symbol at
that address, taken as an address relative to its base, is loaded at base 0. -/
theorem fastPathAgrees_iff (run : symtabForeach env libs = ⟨syms, none⟩)
    (ranges : AbsRanges libs (keptSyms lFilter syms) extent) (baseType : U32) :
    FastPathAgrees libs (fillGlobals lFilter syms).symcache baseType ↔
      ∀ sym ∈ keptSyms lFilter syms, sym.addr = baseType →
        (∀ other ∈ keptSyms lFilter syms, other.addr = baseType → other.lib ≤ sym.lib) →
        (libs sym.lib).baseaddr = 0 := by
  constructor
  · intro agrees sym kept addrSame notLater
    obtain ⟨last, cached⟩ := symcache_exists kept
    obtain ⟨lastKept, lastAddr⟩ := symcache_mem cached
    rw [addrSame] at cached lastAddr
    have libSame : last.lib = sym.lib :=
      le_antisymm (notLater last lastKept lastAddr) (symcache_last run cached kept addrSame)
    have sum := (agrees last cached).2
    rw [lastAddr, libSame] at sum
    bv_omega
  · intro lastAtZero entry cached
    obtain ⟨kept, addrSame⟩ := symcache_mem cached
    have zero := lastAtZero entry kept addrSame fun other otherKept otherAddr =>
      symcache_last run cached otherKept otherAddr
    refine ⟨symtabAddrAbs_of_cached run ranges ?_ ?_, ?_⟩
    · rw [zero, BitVec.le_def]
      exact Nat.zero_le _
    · have distance : baseType - 0 = baseType := by bv_omega
      rw [zero, distance]
      exact cached
    · rw [zero, addrSame]
      exact Nat.zero_add _

/-- The direct search takes the pointer to the first library's class for a class of the second. -/
theorem overlaid_disagrees :
    symtabForeach silentHost (overlaidLibs 0x10000) = ⟨overlaidSyms, none⟩ ∧
      AbsRanges (overlaidLibs 0x10000) (keptSyms (fun _ => true) overlaidSyms) sampleExtent ∧
      ¬FastPathAgrees (overlaidLibs 0x10000) (fillGlobals (fun _ => true) overlaidSyms).symcache 0x10100 := by
  refine ⟨overlaidRun _, overlaidRanges (by decide), ?_⟩
  intro agrees
  have wrong := (agrees (namedAt 1 0x10100 "_ZTI1B") (by decide)).2
  exact absurd wrong (by decide)

theorem overlaid_agrees :
    FastPathAgrees (overlaidLibs 0) (fillGlobals (fun _ => true) overlaidSyms).symcache 0x100 :=
  (fastPathAgrees_iff (overlaidRun _) (overlaidRanges (by decide)) 0x100).mpr (by decide)

end

end Classgraph
