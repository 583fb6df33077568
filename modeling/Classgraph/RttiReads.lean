import Classgraph.Translation
import Classgraph.Unfolding

namespace Classgraph
open Run Machine

/-- The offsets that the rounds of the loop over `__base_info` read at, until one of them stops the program. -/
def vmiReads (env : Env) (rtti : U32) (round : Nat → Emits Fault Line) : Nat → Nat → List Nat
  | 0, _ => []
  | count + 1, i =>
    (16 + 8 * i + 4) ::
      match readWord env.mem (rtti + 16 + 8 * BitVec.ofNat 32 i + 4) with
      | .error _ => []
      | .ok _ => (16 + 8 * i) :: if (round i).stop = none then vmiReads env rtti round count (i + 1) else []

/-- The offsets of the words that a call reads through the pointer to the type information object. -/
def typeinfoReads (env : Env) (libs : Libs) (symcache : Symcache) (level : Nat) (head : TypeinfoHead)
    (recurse : Symbol → Emits Fault Line) : List Nat :=
  if head.typeChar = '+' then [8]
  else if head.typeChar = '#' then
    12 ::
      match readWord env.mem (head.rtti + 12) with
      | .error _ => []
      | .ok baseCount =>
        vmiReads env head.rtti (vmiBase env libs symcache level head.rtti recurse) baseCount.toNat 0
  else []

/-- The words at these offsets of an object at `addr` lie in the range. -/
def WordsInside (vmrange : MachoVmrange) (addr : U32) (offsets : List Nat) : Prop :=
  ∀ offset ∈ offsets, addr.toNat + offset + 4 ≤ vmrange.vmAddrEnd.toNat

/-- The range has room for what the kind that the relocations tell is read of: the base pointer of a class with one
base; the count of one with several bases, and every record that comes up before one of the earlier ones has stopped
the program. -/
structure ObjectFits (env : Env) (libs : Libs) (symcache : Symcache) (level : Nat) (head : TypeinfoHead)
    (recurse : Symbol → Emits Fault Line) (vmrange : MachoVmrange) (addr : U32) : Prop where
  si : head.typeChar = '+' → addr.toNat + 12 ≤ vmrange.vmAddrEnd.toNat
  count : head.typeChar = '#' → addr.toNat + 16 ≤ vmrange.vmAddrEnd.toNat
  records : head.typeChar = '#' → ∀ baseCount, readWord env.mem (head.rtti + 12) = .ok baseCount →
    ∀ i < baseCount.toNat, (∀ j < i, (vmiBase env libs symcache level head.rtti recurse j).stop = none) →
      addr.toNat + 16 + 8 * (i + 1) ≤ vmrange.vmAddrEnd.toNat

section

variable {env : Env} {libs : Libs} {symcache : Symcache} {level : Nat} {head : TypeinfoHead}
  {recurse : Symbol → Emits Fault Line}

/-- The word at an offset of the object, in another memory. -/
def SameWord (env : Env) (mem : Mem) (rtti : U32) (offset : Nat) : Prop :=
  readWord mem (rtti + BitVec.ofNat 32 offset) = readWord env.mem (rtti + BitVec.ofNat 32 offset)

theorem baseInfo_addr (rtti : U32) (i : Nat) :
    rtti + BitVec.ofNat 32 (16 + 8 * i) = rtti + 16 + 8 * BitVec.ofNat 32 i := by
  rw [BitVec.ofNat_add, BitVec.ofNat_mul, ← BitVec.add_assoc]
  rfl

theorem offsetFlags_addr (rtti : U32) (i : Nat) :
    rtti + BitVec.ofNat 32 (16 + 8 * i + 4) = rtti + 16 + 8 * BitVec.ofNat 32 i + 4 := by
  rw [BitVec.ofNat_add, ← BitVec.add_assoc, baseInfo_addr]
  rfl

theorem vmiBase_congr {mem : Mem} {rtti : U32} {count i : Nat}
    (same : ∀ offset ∈ vmiReads env rtti (vmiBase env libs symcache level rtti recurse) (count + 1) i,
      SameWord env mem rtti offset) :
    vmiBase { env with mem := mem } libs symcache level rtti recurse i =
      vmiBase env libs symcache level rtti recurse i := by
  have flags := same (16 + 8 * i + 4) (List.mem_cons_self ..)
  rw [SameWord, offsetFlags_addr] at flags
  simp only [vmiBase, flags]
  rw [vmiReads] at same
  cases read : readWord env.mem (rtti + 16 + 8 * BitVec.ofNat 32 i + 4) with
  | error fault => rfl
  | ok offsetFlags =>
    rw [read] at same
    have base := same (16 + 8 * i) (List.mem_cons_of_mem _ (List.mem_cons_self ..))
    rw [SameWord, baseInfo_addr] at base
    simp only [base]

theorem vmiBases_congr {mem : Mem} {rtti : U32} {count i : Nat}
    (same : ∀ offset ∈ vmiReads env rtti (vmiBase env libs symcache level rtti recurse) count i,
      SameWord env mem rtti offset) :
    Emits.flow ((List.range' i count).map (vmiBase { env with mem := mem } libs symcache level rtti recurse)) =
      Emits.flow ((List.range' i count).map (vmiBase env libs symcache level rtti recurse)) := by
  induction count generalizing i with
  | zero => rfl
  | succ count ih =>
    rw [List.range'_succ, List.map_cons, List.map_cons, Emits.flow_cons, Emits.flow_cons, vmiBase_congr same]
    cases stopped : (vmiBase env libs symcache level rtti recurse i).stop with
    | some fault => rw [Emits.append_of_stopped stopped, Emits.append_of_stopped stopped]
    | none =>
      obtain ⟨_, _, ⟨flags, read⟩, _⟩ := vmiBase_ended stopped
      rw [vmiReads, read, if_pos stopped] at same
      rw [ih fun offset member => same offset (List.mem_cons_of_mem _ (List.mem_cons_of_mem _ member))]

/-- A call learns nothing of the object but the words it is said to read. -/
theorem typeinfoBases_congr {mem : Mem}
    (same : ∀ offset ∈ typeinfoReads env libs symcache level head recurse, SameWord env mem head.rtti offset) :
    typeinfoBases { env with mem := mem } libs symcache level head recurse =
      typeinfoBases env libs symcache level head recurse := by
  unfold typeinfoBases
  rw [typeinfoReads] at same
  split
  · rename_i isSi
    rw [if_pos isSi] at same
    have base : readWord mem (head.rtti + 8) = readWord env.mem (head.rtti + 8) := same 8 (List.mem_singleton.mpr rfl)
    simp only [siBase, base]
  · rename_i notSi
    split
    · rename_i isVmi
      rw [if_neg notSi, if_pos isVmi] at same
      have count : readWord mem (head.rtti + 12) = readWord env.mem (head.rtti + 12) := same 12 (List.mem_cons_self ..)
      simp only [vmiBases, count]
      cases counted : readWord env.mem (head.rtti + 12) with
      | error fault => rfl
      | ok baseCount =>
        rw [counted] at same
        simp only [List.range_eq_range']
        exact vmiBases_congr fun offset member => same offset (List.mem_cons_of_mem _ member)
    · rfl

/-- What is read belongs to a record that is reached. -/
theorem vmiReads_reached {rtti : U32} {round : Nat → Emits Fault Line} {count i offset : Nat}
    (read : offset ∈ vmiReads env rtti round count i) :
    ∃ j < i + count, (∀ k, i ≤ k → k < j → (round k).stop = none) ∧ offset + 4 ≤ 16 + 8 * (j + 1) := by
  induction count generalizing i with
  | zero => cases read
  | succ count ih =>
    have here (bound : offset + 4 ≤ 16 + 8 * (i + 1)) :
        ∃ j < i + (count + 1), (∀ k, i ≤ k → k < j → (round k).stop = none) ∧ offset + 4 ≤ 16 + 8 * (j + 1) :=
      ⟨i, by omega, fun k after before => by omega, bound⟩
    rw [vmiReads, List.mem_cons] at read
    rcases read with rfl | read
    · exact here (by omega)
    · split at read
      · cases read
      · rw [List.mem_cons] at read
        rcases read with rfl | read
        · exact here (by omega)
        · split at read
          · rename_i ended
            obtain ⟨j, before, reached, bound⟩ := ih read
            refine ⟨j, by omega, ?_, bound⟩
            intro k after below
            rcases Nat.eq_or_lt_of_le after with rfl | later
            · exact ended
            · exact reached k later below
          · cases read

/-- Of a record that is reached, the flags are read. -/
theorem mem_vmiReads {rtti : U32} {count i j : Nat} (after : i ≤ j) (before : j < i + count)
    (reached : ∀ k, i ≤ k → k < j → (vmiBase env libs symcache level rtti recurse k).stop = none) :
    16 + 8 * j + 4 ∈ vmiReads env rtti (vmiBase env libs symcache level rtti recurse) count i := by
  induction count generalizing i with
  | zero => omega
  | succ count ih =>
    rcases Nat.eq_or_lt_of_le after with rfl | later
    · exact List.mem_cons_self ..
    · have here := reached i (Nat.le_refl i) later
      obtain ⟨_, _, ⟨flags, read⟩, _⟩ := vmiBase_ended here
      rw [vmiReads, read, if_pos here]
      refine List.mem_cons_of_mem _ (List.mem_cons_of_mem _ (ih later (by omega) ?_))
      exact fun k from_ below => reached k (by omega) below

theorem typeinfoReads_inside_iff {vmrange : MachoVmrange} {addr : U32} :
    WordsInside vmrange addr (typeinfoReads env libs symcache level head recurse) ↔
      ObjectFits env libs symcache level head recurse vmrange addr := by
  constructor
  · intro inside
    refine ⟨?_, ?_, ?_⟩
    · intro isSi
      rw [typeinfoReads, if_pos isSi] at inside
      exact inside 8 (List.mem_singleton.mpr rfl)
    · intro isVmi
      have notSi : head.typeChar ≠ '+' := by simp [isVmi]
      rw [typeinfoReads, if_neg notSi, if_pos isVmi] at inside
      exact inside 12 (List.mem_cons_self ..)
    · intro isVmi baseCount counted i bound reached
      have notSi : head.typeChar ≠ '+' := by simp [isVmi]
      rw [typeinfoReads, if_neg notSi, if_pos isVmi, counted] at inside
      have inLoop : i < 0 + baseCount.toNat := by omega
      have read := mem_vmiReads (Nat.zero_le i) inLoop fun k _ below => reached k below
      have room := inside _ (List.mem_cons_of_mem _ read)
      omega
  · intro fits offset read
    rw [typeinfoReads] at read
    split at read
    · rename_i isSi
      cases List.mem_singleton.mp read
      exact fits.si isSi
    · split at read
      · rename_i isVmi
        rcases List.mem_cons.mp read with rfl | read
        · exact fits.count isVmi
        · split at read
          · cases read
          · rename_i baseCount counted
            obtain ⟨j, before, reached, bound⟩ := vmiReads_reached read
            have room :=
              fits.records isVmi baseCount counted j (by omega) fun k below => reached k (Nat.zero_le k) below
            omega
      · cases read

/-- A call for a type information object of an accepted image, with any behaviour of the calls for its bases: it reads
nothing of the object but the words it is said to read, and these lie in the section of the object exactly if there is
room for the records that are reached. -/
theorem rttiReads_inside {lib : LibraryInfo} {sym : Symbol}
    (init : symtabMachoInit env.malloc env.mem lib = .ok (libs sym.lib)) (isMacho : (libs sym.lib).isMacho)
    (found : typeinfoHead env libs sym = .ok head) :
    (∀ mem, (∀ offset ∈ typeinfoReads env libs symcache level head recurse, SameWord env mem head.rtti offset) →
        typeinfoBases { env with mem := mem } libs symcache level head recurse =
          typeinfoBases env libs symcache level head recurse) ∧
      ∃ vmrange ∈ (libs sym.lib).machoVmranges, vmrange.Contains sym.addr ∧
        head.rtti = (libs sym.lib).map + (vmrange.mapOffBegin + (sym.addr - vmrange.vmAddrBegin)) ∧
        (WordsInside vmrange sym.addr (typeinfoReads env libs symcache level head recurse) ↔
          ObjectFits env libs symcache level head recurse vmrange sym.addr) := by
  obtain ⟨st, parse, bound⟩ := bind_ok.mp init
  have table := ((machoParse_valid env.mem lib).of_ok parse).1.table
  rw [← ((machoBind_keeps env.malloc env.mem st).of_ok bound).vmranges] at table
  rw [typeinfoHead, if_pos isMacho] at found
  obtain ⟨rtti, returned, found⟩ := bind_ok.mp found
  have isRtti : head.rtti = rtti := by
    obtain ⟨rsym, _, found⟩ := bind_ok.mp found
    split at found
    · cases pure_ok.mp found
      rfl
    · split at found
      · cases pure_ok.mp found
        rfl
      · obtain ⟨typeChar, _, found⟩ := bind_ok.mp found
        cases pure_ok.mp found
        rfl
  obtain ⟨vmrange, member, inRange, _, _, pointer⟩ := (symtabMachoGetPtr_ok table).mp returned
  refine ⟨fun mem same => typeinfoBases_congr same, vmrange, member, inRange, isRtti.trans pointer, ?_⟩
  exact typeinfoReads_inside_iff

end

/-- A dynamic library whose only section, of the given size, starts with the type information object of a class
with one base: the load commands, 16 bytes of data, a relocation entry, a symbol table and a string table. -/
def objectImage (size base : U32) : List U32 :=
  [mhMagic, cpuTypeI386, cpuSubtypeI386All, mhDylib, 3, 228, 0] ++
    [lcSegment, 124, 0, 0, 0, 0, 0x2000, size, 256, size, 7, 7, 1, 0] ++
    [0, 0, 0, 0, 0, 0, 0, 0, 0x2000, size, 256, 0, 0, 0, 0, 0, 0] ++
    [lcSymtab, 24, 280, 2, 304, 51] ++ [lcDysymtab, 80] ++ List.replicate 14 0 ++ [272, 1, 0, 0] ++
    [0, 0, base, 0] ++ [0x2000, 0x0c000000] ++ [1, 0x01, 0, 43, 0x0e, 0x2000]

def siVtable : CStr := "_ZTVN10__cxxabiv120__si_class_type_infoE".toList

def stringBytes (str : CStr) : List U8 := str.map (fun c => BitVec.ofNat 8 c.toNat) ++ [0]

def objectStrings : List U8 := 0 :: stringBytes ('_' :: siVtable) ++ stringBytes "__ZTI1A".toList

def objectHost (size base : U32) : Env :=
  { plainHost 0x1000 (wordBytes (objectImage size base) ++ objectStrings) fun _ => .classTypeInfo with
    reTypeinfo := fun name => if name = siVtable then some "si_class".toList else none }

def objectLib : LibraryInfo := { isPrimary := true, isMacho := true, map := 0x1000, size := 355 }

def objectSym : Symbol := namedAt 0 0x2000 "_ZTI1A"

/-- What the run of `symtab_macho_init` and the first part of `recurse_typeinfo` find. -/
def objectHead (env : Env) : Except Fault (TypeinfoHead × LibraryInfo) := do
  let result ← symtabMachoInit env.malloc env.mem objectLib
  return (← typeinfoHead env (fun _ => result) objectSym, result)

def objectRange (size : U32) : MachoVmrange where
  isMapped := true
  vmAddrBegin := 0x2000
  vmAddrEnd := 0x2000 + size
  mapOffBegin := 256
  mapOffEnd := 256 + size
  pSegment := 0x1000 + 28
  pSection := 0x1000 + 84
  segmentIdx := 0
  sectionIdx := 0

/-- The parts of this result that decide what is read. -/
def readsOf (found : TypeinfoHead × LibraryInfo) : Char × Bool × List MachoVmrange :=
  (found.1.typeChar, found.2.isMacho, found.2.machoVmranges)

theorem objectHead_ok {env : Env} {vmranges : List MachoVmrange}
    (run : (objectHead env).map readsOf = .ok ('+', true, vmranges)) :
    ∃ result head, symtabMachoInit env.malloc env.mem objectLib = .ok result ∧ result.isMacho ∧
      result.machoVmranges = vmranges ∧ typeinfoHead env (fun _ => result) objectSym = .ok head ∧
        head.typeChar = '+' := by
  cases found : objectHead env with
  | error fault =>
    rw [found] at run
    cases run
  | ok pair =>
    obtain ⟨result, init, rest⟩ := bind_ok.mp found
    obtain ⟨head, isHead, same⟩ := bind_ok.mp rest
    cases pure_ok.mp same
    rw [found] at run
    obtain ⟨isSi, isMacho, ranges⟩ :
        head.typeChar = '+' ∧ result.isMacho = true ∧ result.machoVmranges = vmranges := by
      simpa [readsOf] using Except.ok.inj run
    exact ⟨result, head, init, isMacho, ranges, isHead, isSi⟩

/-- The object takes the last 8 bytes of its section, but the pointer to its base is read behind them. -/
theorem lastObject_outside : ∃ result head, symtabMachoInit emptyHeap (objectHost 8 0).mem objectLib = .ok result ∧
    result.isMacho ∧ typeinfoHead (objectHost 8 0) (fun _ => result) objectSym = .ok head ∧
    ∀ vmrange ∈ result.machoVmranges, vmrange.Contains objectSym.addr →
      ¬WordsInside vmrange objectSym.addr (typeinfoReads (objectHost 8 0) (fun _ => result) {} 0 head
        (recurseTypeinfo (objectHost 8 0) (fun _ => result) {} 256 1)) := by
  have run : (objectHead (objectHost 8 0)).map readsOf = .ok ('+', true, [objectRange 8]) := by decide +kernel
  obtain ⟨result, head, init, isMacho, ranges, found, isSi⟩ := objectHead_ok run
  refine ⟨result, head, init, isMacho, found, ?_⟩
  rw [ranges]
  intro vmrange member _ inside
  cases List.mem_singleton.mp member
  rw [typeinfoReads, if_pos isSi] at inside
  exact absurd (inside 8 (List.mem_singleton.mpr rfl)) (by decide)

theorem roomyObject_inside : ∃ result head, symtabMachoInit emptyHeap (objectHost 12 0).mem objectLib = .ok result ∧
    typeinfoHead (objectHost 12 0) (fun _ => result) objectSym = .ok head ∧
    ∃ vmrange ∈ result.machoVmranges, WordsInside vmrange objectSym.addr
      (typeinfoReads (objectHost 12 0) (fun _ => result) {} 0 head
        (recurseTypeinfo (objectHost 12 0) (fun _ => result) {} 256 1)) := by
  have run : (objectHead (objectHost 12 0)).map readsOf = .ok ('+', true, [objectRange 12]) := by decide +kernel
  obtain ⟨result, head, init, isMacho, ranges, found, isSi⟩ := objectHead_ok run
  obtain ⟨_, vmrange, member, _, _, inside⟩ := rttiReads_inside init isMacho found
  refine ⟨result, head, init, found, vmrange, member, inside.mpr ⟨fun _ => ?_, ?_, ?_⟩⟩
  · rw [ranges] at member
    cases List.mem_singleton.mp member
    decide
  · intro isVmi
    rw [isSi] at isVmi
    exact absurd isVmi (by decide)
  · intro isVmi
    rw [isSi] at isVmi
    exact absurd isVmi (by decide)

end Classgraph
