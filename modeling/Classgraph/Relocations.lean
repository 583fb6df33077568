import Mathlib.Data.List.Nodup
import Mathlib.Data.List.Forall2
import Classgraph.Fixup
import Classgraph.Resolution

namespace Classgraph
open Run Machine

/-- A place of an image that refers to an entry of the symbol table, with the name that the
string table gives the entry. -/
structure MachoFixup where
  address : U32
  symbol : U32
  name : CStr

def nlistAt (lib : LibraryInfo) (index : U32) : U32 := lib.map + lib.machoSymtabOff + Nlist.sizeOf * index

/-- The entry is in the table, is not indirect and has the name. -/
structure MachoFixup.Named (mem : Mem) (lib : LibraryInfo) (fixup : MachoFixup) : Prop where
  inTable : fixup.symbol < lib.machoSymtabCount
  kind : ∃ type, Nlist.type mem (nlistAt lib fixup.symbol) = .ok type ∧
    (type &&& nStab ≠ 0 ∨ type &&& nType ∈ [nUndf, nPbud, nAbs, nSect])
  value : ∃ value, Nlist.value mem (nlistAt lib fixup.symbol) = .ok value
  string : ∃ strx, Nlist.strx mem (nlistAt lib fixup.symbol) = .ok strx ∧
    if strx = 0 then fixup.name = [] else readCStr mem (lib.map + lib.machoStrtabOff + strx) = .ok fixup.name

/-- A relocation entry for the fixup, by its distance from the address `start` of the first segment. -/
structure EncodesReloc (mem : Mem) (start reloc : U32) (fixup : MachoFixup) : Prop where
  address : RelocationInfo.rAddress mem reloc = .ok (fixup.address - start)
  fields : ∃ fields, RelocationInfo.fields mem reloc = .ok fields ∧ RelocationInfo.rSymbolnum fields = fixup.symbol ∧
    RelocationInfo.rExtern fields = 1 ∧ RelocationInfo.rType fields = rAbs ∧ RelocationInfo.rLength fields = 2

/-- A decoded record for the fixup, by its address. -/
structure EncodesBind (mem : Mem) (fixup : MachoFixup) (info : DyldBindInfo) : Prop where
  address : info.address = fixup.address.setWidth 64
  name : readCStr mem info.symbolname = .ok fixup.name

/-- The library with the relocation entries only. -/
def relocOnly (lib : LibraryInfo) (off count : U32) : LibraryInfo :=
  { lib with machoExtRelocOff := off, machoExtRelocCount := count, machoHasDyldInfo := false }

/-- The library with the decoded bind information only. -/
def bindOnly (lib : LibraryInfo) (dbi : List DyldBindInfo) : LibraryInfo :=
  { lib with machoExtRelocCount := 0, machoHasDyldInfo := true, machoDbi := dbi, machoNdbi := dbi.length }

/-- One set of fixups in both encodings, each in an order of its own. -/
structure Encodings (mem : Mem) (lib : LibraryInfo) (segs : List U32) (start off : U32) (relocs binds : List MachoFixup)
    (dbi : List DyldBindInfo) : Prop where
  notSplit : ∃ flags, MachHeader.flags mem lib.machoHdr = .ok flags ∧ flags &&& mhSplitSegs = 0
  firstSegment : ∃ seg, segs.head? = some seg ∧ SegmentCommand.vmaddr mem seg = .ok start
  same : relocs.Perm binds
  distinct : (relocs.map MachoFixup.address).Nodup
  named : ∀ fixup ∈ relocs, fixup.Named mem lib
  count : relocs.length < 2 ^ 32
  relocTable : ∀ i fixup, relocs[i]? = some fixup →
    EncodesReloc mem start (lib.map + off + RelocationInfo.sizeOf * BitVec.ofNat 32 i) fixup
  bindTable : List.Forall₂ (EncodesBind mem) binds dbi

/-- The name that a set of fixups gives an address. -/
def nameAt (fixups : List MachoFixup) (addr : U32) : Option CStr :=
  (fixups.find? fun fixup => fixup.address = addr).map fun fixup => stripUnderscore fixup.name

theorem nameAt_here {fixup : MachoFixup} {addr : U32} (here : fixup.address = addr) (fixups : List MachoFixup) :
    nameAt (fixup :: fixups) addr = some (stripUnderscore fixup.name) := by
  simp [nameAt, here]

theorem nameAt_elsewhere {fixup : MachoFixup} {addr : U32} (elsewhere : fixup.address ≠ addr)
    (fixups : List MachoFixup) : nameAt (fixup :: fixups) addr = nameAt fixups addr := by
  simp [nameAt, elsewhere]

/-- What the caller learns from a lookup: whether there is an entry, and its name. -/
def reportedName (found : Except Fault (Option Symbol)) : Except Fault (Option CStr) :=
  found.map (Option.map Symbol.name)

section

variable {mem : Mem} {sym : U32} {type : U8} (read : Nlist.type mem sym = .ok type)
include read

theorem machoGetSymAddr_zero (zero : type &&& nStab ≠ 0 ∨ type &&& nType = nUndf ∨ type &&& nType = nPbud) :
    machoGetSymAddr mem sym = .ok 0 := by
  refine bind_ok.mpr ⟨type, read, ?_⟩
  by_cases stab : type &&& nStab ≠ 0
  · exact if_pos stab
  · exact (if_neg stab).trans (if_pos (zero.resolve_left stab))

theorem machoGetSymAddr_value (notStab : type &&& nStab = 0)
    (valued : type &&& nType = nAbs ∨ type &&& nType = nSect) : machoGetSymAddr mem sym = Nlist.value mem sym := by
  have run : machoGetSymAddr mem sym = (Nlist.type mem sym >>= fun type => _) := rfl
  have defined : ¬(type &&& nType = nUndf ∨ type &&& nType = nPbud) := by
    rcases valued with isAbs | isSect
    · rw [isAbs]
      decide
    · rw [isSect]
      decide
  rw [read, ok_bind, if_neg (not_not_intro notStab), if_neg defined, if_pos valued] at run
  exact run

theorem machoGetSymAddr_total {value : U32} (valueRead : Nlist.value mem sym = .ok value)
    (kind : type &&& nStab ≠ 0 ∨ type &&& nType ∈ [nUndf, nPbud, nAbs, nSect]) :
    ∃ addr, machoGetSymAddr mem sym = .ok addr := by
  by_cases zero : type &&& nStab ≠ 0 ∨ type &&& nType = nUndf ∨ type &&& nType = nPbud
  · exact ⟨0, machoGetSymAddr_zero read zero⟩
  · have notStab : type &&& nStab = 0 := not_not.mp fun stab => zero (Or.inl stab)
    have valued : type &&& nType = nAbs ∨ type &&& nType = nSect := by
      have listed := kind.resolve_left (not_not_intro notStab)
      simp only [List.mem_cons, List.not_mem_nil, or_false] at listed
      tauto
    exact ⟨value, (machoGetSymAddr_value read notStab valued).trans valueRead⟩

end

theorem machoGetSymName_eq {mem : Mem} {lib : LibraryInfo} {sym strx : U32} {str : CStr}
    (read : Nlist.strx mem sym = .ok strx)
    (string : strx ≠ 0 → readCStr mem (lib.map + lib.machoStrtabOff + strx) = .ok str) :
    machoGetSymName mem lib sym = .ok (if strx = 0 then [] else stripUnderscore str) := by
  refine bind_ok.mpr ⟨strx, read, ?_⟩
  by_cases zero : strx = 0
  · rw [if_pos zero, if_pos zero]
    rfl
  · rw [if_neg zero, if_neg zero]
    exact bind_ok.mpr ⟨str, string zero, rfl⟩

section

variable {env : Env} {slot : Slot} {lib : LibraryInfo}

/-- Both encodings end in a symbol with the name of the fixup. -/
theorem MachoFixup.Named.symName {mem : Mem} {fixup : MachoFixup} (named : fixup.Named mem lib) :
    machoGetSymName mem lib (nlistAt lib fixup.symbol) = .ok (stripUnderscore fixup.name) := by
  obtain ⟨strx, read, string⟩ := named.string
  by_cases zero : strx = 0
  · have empty : machoGetSymName mem lib (nlistAt lib fixup.symbol) =
        .ok (if strx = 0 then [] else stripUnderscore []) := machoGetSymName_eq read fun nonzero => absurd zero nonzero
    rw [if_pos zero] at string
    rw [empty, if_pos zero, string]
    rfl
  · rw [if_neg zero] at string
    rw [machoGetSymName_eq read fun _ => string, if_neg zero]

theorem extRelocSymbol_name (slot : Slot) (off count : U32) {start reloc : U32} {fixup : MachoFixup}
    (encodes : EncodesReloc env.mem start reloc fixup) (named : fixup.Named env.mem lib) :
    ∃ sym, extRelocSymbol env slot (relocOnly lib off count) reloc = .ok sym ∧
      sym.name = stripUnderscore fixup.name := by
  obtain ⟨fields, fieldsRead, index, _⟩ := encodes.fields
  obtain ⟨type, typeRead, kind⟩ := named.kind
  obtain ⟨value, valueRead⟩ := named.value
  obtain ⟨addr, addrRun⟩ := machoGetSymAddr_total typeRead valueRead kind
  obtain ⟨demangled, demangle⟩ := tryDemangleNoprefix_total env (stripUnderscore fixup.name)
  have symRun : machoGetSymByIndex (relocOnly lib off count) (RelocationInfo.rSymbolnum fields) =
      .ok (nlistAt lib fixup.symbol) := by
    rw [index]
    refine bind_ok.mpr ⟨(), ?_, rfl⟩
    exact if_pos (decide_eq_true named.inTable)
  refine ⟨⟨slot, addr, 0, stripUnderscore fixup.name, demangled⟩, ?_, rfl⟩
  refine bind_ok.mpr ⟨fields, fieldsRead, bind_ok.mpr ⟨_, symRun, bind_ok.mpr ⟨addr, addrRun, ?_⟩⟩⟩
  exact bind_ok.mpr ⟨_, named.symName, bind_ok.mpr ⟨demangled, demangle, rfl⟩⟩

theorem extRelocMatches_eq (addr : U32) {mem : Mem} {start reloc : U32} {fixup : MachoFixup}
    (encodes : EncodesReloc mem start reloc fixup) :
    extRelocMatches mem reloc addr = .ok (decide (fixup.address = addr + start)) := by
  refine bind_ok.mpr ⟨_, encodes.address, ?_⟩
  by_cases here : fixup.address = addr + start
  · obtain ⟨fields, fieldsRead, _, isExtern, isAbs, length⟩ := encodes.fields
    have distance : fixup.address - start = addr := by
      rw [here]
      bv_omega
    rw [decide_eq_true here]
    refine (if_pos distance).trans (bind_ok.mpr ⟨fields, fieldsRead, ?_⟩)
    rw [isExtern, isAbs, length]
    rfl
  · have distance : fixup.address - start ≠ addr := by
      intro same
      refine here ?_
      rw [← same]
      bv_omega
    rw [decide_eq_false here]
    exact if_neg distance

theorem extRelocLoop_hit {addr reloc : U32} (accepted : extRelocMatches env.mem reloc addr = .ok true) (n : Nat) :
    extRelocLoop env slot lib addr (n + 1) reloc = (extRelocSymbol env slot lib reloc).map some := by
  rw [extRelocLoop, accepted]
  rfl

theorem extRelocLoop_miss {addr reloc : U32} (refused : extRelocMatches env.mem reloc addr = .ok false) (n : Nat) :
    extRelocLoop env slot lib addr (n + 1) reloc =
      extRelocLoop env slot lib addr n (reloc + RelocationInfo.sizeOf) := by
  rw [extRelocLoop, refused]
  rfl

/-- The loop over the relocation entries names the fixup that lies `start` behind the address asked for. -/
theorem extRelocLoop_name (slot : Slot) (off count addr : U32) {start : U32} {relocs : List MachoFixup} (reloc : U32)
    (encodes : ∀ i fixup, relocs[i]? = some fixup →
      EncodesReloc env.mem start (reloc + RelocationInfo.sizeOf * BitVec.ofNat 32 i) fixup)
    (named : ∀ fixup ∈ relocs, fixup.Named env.mem lib) :
    reportedName (extRelocLoop env slot (relocOnly lib off count) addr relocs.length reloc) =
      .ok (nameAt relocs (addr + start)) := by
  induction relocs generalizing reloc with
  | nil => rfl
  | cons fixup relocs ih =>
    have first := encodes 0 fixup rfl
    rw [entry_zero] at first
    have later (i : Nat) (other : MachoFixup) (atOther : relocs[i]? = some other) : EncodesReloc env.mem start
        (reloc + RelocationInfo.sizeOf + RelocationInfo.sizeOf * BitVec.ofNat 32 i) other := by
      have encoded := encodes (i + 1) other atOther
      rwa [entry_shift] at encoded
    have rest := ih _ later fun other member => named other (List.mem_cons_of_mem _ member)
    have step := extRelocMatches_eq addr first
    by_cases here : fixup.address = addr + start
    · obtain ⟨sym, symRun, name⟩ := extRelocSymbol_name slot off count first
        (named fixup (List.mem_cons_self ..))
      rw [decide_eq_true here] at step
      rw [List.length_cons, extRelocLoop_hit step, symRun, nameAt_here here, ← name]
      rfl
    · rw [decide_eq_false here] at step
      have run : extRelocLoop env slot (relocOnly lib off count) addr (fixup :: relocs).length reloc =
          extRelocLoop env slot (relocOnly lib off count) addr relocs.length (reloc + RelocationInfo.sizeOf) := by
        rw [List.length_cons, extRelocLoop, step]
        rfl
      rw [run, rest, nameAt_elsewhere here]

theorem bindInfoSymbol_name (slot : Slot) {fixup : MachoFixup} {info : DyldBindInfo}
    (encodes : EncodesBind env.mem fixup info) :
    ∃ sym, bindInfoSymbol env slot info = .ok sym ∧ sym.name = stripUnderscore fixup.name := by
  obtain ⟨demangled, demangle⟩ := tryDemangleNoprefix_total env (stripUnderscore fixup.name)
  exact ⟨_, bind_ok.mpr ⟨fixup.name, encodes.name, bind_ok.mpr ⟨demangled, demangle, rfl⟩⟩, rfl⟩

/-- The loop over the decoded records names the fixup that lies at the address asked for. -/
theorem bindInfoLoop_name (slot : Slot) (lib : LibraryInfo) (addr : U32) {binds : List MachoFixup}
    {dbi rest : List DyldBindInfo} (before : List DyldBindInfo)
    (encodes : List.Forall₂ (EncodesBind env.mem) binds rest) (split : dbi = before ++ rest) :
    reportedName (bindInfoLoop env slot (bindOnly lib dbi) addr rest.length before.length) =
      .ok (nameAt binds addr) := by
  induction encodes generalizing before with
  | nil => rfl
  | @cons fixup info binds rest first _ ih =>
    have atFirst : (bindOnly lib dbi).machoDbi[before.length]? = some info := by
      change dbi[before.length]? = some info
      rw [split, List.getElem?_append_right (Nat.le_refl _), Nat.sub_self]
      rfl
    have later := ih (before ++ [info]) (by rw [split, List.append_assoc]; rfl)
    rw [List.length_append, List.length_singleton] at later
    rw [List.length_cons, bindInfoLoop, atFirst]
    by_cases here : fixup.address = addr
    · obtain ⟨sym, symRun, name⟩ := bindInfoSymbol_name slot first
      have same : info.address = addr.setWidth 64 := by rw [first.address, here]
      rw [nameAt_here here, ← name]
      simp only [if_pos same, symRun]
      rfl
    · have different : info.address ≠ addr.setWidth 64 := by
        rw [first.address]
        intro same
        refine here ?_
        bv_omega
      rw [nameAt_elsewhere here]
      simp only [if_neg different]
      exact later

/-- A set of fixups with distinct addresses names the address of each of its members. -/
theorem nameAt_mem {fixups : List MachoFixup} (distinct : (fixups.map MachoFixup.address).Nodup) {fixup : MachoFixup}
    (member : fixup ∈ fixups) : nameAt fixups fixup.address = some (stripUnderscore fixup.name) := by
  induction fixups with
  | nil => cases member
  | cons first fixups ih =>
    rw [List.map_cons, List.nodup_cons] at distinct
    rcases List.mem_cons.mp member with rfl | later
    · exact nameAt_here rfl fixups
    · have elsewhere : first.address ≠ fixup.address := by
        intro same
        rw [same] at distinct
        exact distinct.1 (List.mem_map_of_mem later)
      rw [nameAt_elsewhere elsewhere, ih distinct.2 later]

theorem nameAt_none {fixups : List MachoFixup} {addr : U32} (absent : ∀ fixup ∈ fixups, fixup.address ≠ addr) :
    nameAt fixups addr = none := by
  have notFound : (fixups.find? fun fixup => fixup.address = addr) = none := by
    rw [List.find?_eq_none]
    intro fixup member
    simpa using absent fixup member
  rw [nameAt, notFound, Option.map_none]

theorem nameAt_perm {relocs binds : List MachoFixup} (same : relocs.Perm binds)
    (distinct : (relocs.map MachoFixup.address).Nodup) (addr : U32) : nameAt relocs addr = nameAt binds addr := by
  have distinctBinds : (binds.map MachoFixup.address).Nodup := ((same.map _).nodup_iff).mp distinct
  by_cases present : ∃ fixup ∈ relocs, fixup.address = addr
  · obtain ⟨fixup, member, rfl⟩ := present
    rw [nameAt_mem distinct member, nameAt_mem distinctBinds (same.mem_iff.mp member)]
  · have absent : ∀ fixup ∈ relocs, fixup.address ≠ addr := fun fixup member here => present ⟨fixup, member, here⟩
    rw [nameAt_none absent, nameAt_none fun fixup member => absent fixup (same.mem_iff.mpr member)]

theorem findReloc_relocOnly (off count addr : U32) :
    symtabMachoFindRelocSymForAddr env slot (relocOnly lib off count) addr =
      extRelocLoop env slot (relocOnly lib off count) addr count.toNat (lib.map + off) := by
  have unfolded : symtabMachoFindRelocSymForAddr env slot (relocOnly lib off count) addr =
      (extRelocLoop env slot (relocOnly lib off count) addr count.toNat (lib.map + off) >>= fun found => _) := rfl
  rw [unfolded]
  cases extRelocLoop env slot (relocOnly lib off count) addr count.toNat (lib.map + off) with
  | error fault => rfl
  | ok found =>
    cases found with
    | none => rfl
    | some sym => rfl

theorem findReloc_bindOnly (dbi : List DyldBindInfo) (addr : U32) :
    symtabMachoFindRelocSymForAddr env slot (bindOnly lib dbi) addr =
      bindInfoLoop env slot (bindOnly lib dbi) addr dbi.length 0 := rfl

/-- Both encodings of one set of fixups give every address the same name exactly if the set stays
the same when it is shifted by the address of the first segment. -/
theorem relocations_agree_iff {segs : List U32} {start off : U32} {relocs binds : List MachoFixup}
    {dbi : List DyldBindInfo} (encodings : Encodings env.mem lib segs start off relocs binds dbi) :
    (∀ addr,
      reportedName (symtabMachoFindRelocSymForAddr env slot (relocOnly lib off (BitVec.ofNat 32 relocs.length)) addr) =
        reportedName (symtabMachoFindRelocSymForAddr env slot (bindOnly lib dbi) addr)) ↔
      ∀ addr, nameAt relocs (addr + start) = nameAt relocs addr := by
  have count : (BitVec.ofNat 32 relocs.length).toNat = relocs.length := Nat.mod_eq_of_lt encodings.count
  have byRelocs (addr : U32) := extRelocLoop_name slot off (BitVec.ofNat 32 relocs.length) addr (lib.map + off)
    encodings.relocTable encodings.named
  have byBinds (addr : U32) : reportedName (bindInfoLoop env slot (bindOnly lib dbi) addr dbi.length 0) =
      .ok (nameAt binds addr) := bindInfoLoop_name slot lib addr [] encodings.bindTable rfl
  refine forall_congr' fun addr => ?_
  rw [findReloc_relocOnly, count, byRelocs, findReloc_bindOnly, byBinds,
    nameAt_perm encodings.same encodings.distinct addr, Except.ok.injEq]

end

/-- An image whose only segment starts at `start` and whose only relocation entry is for the place
16 bytes behind: a header, the segment, the entry, a symbol table and a string table. -/
def relocImage (start : U32) : List U32 :=
  [mhMagic, cpuTypeI386, cpuSubtypeI386All, mhDylib, 1, 56, 0] ++
    [lcSegment, 56, 0, 0, 0, 0, start, 0x1000, 0, 108, 7, 7, 0, 0] ++
    [0x10, 0x0c000000] ++ [1, 0x01, 0] ++ [0x00785f00]

def relocHost (start : U32) : Env := plainHost 0x1000 (wordBytes (relocImage start)) fun _ => .classTypeInfo

def relocLib : LibraryInfo :=
  { map := 0x1000, machoHdr := 0x1000, machoSymtabOff := 92, machoSymtabCount := 1, machoStrtabOff := 104 }

def relocFixup (start : U32) : MachoFixup := ⟨start + 0x10, 0, "_x".toList⟩

def relocDbi (start : U32) : List DyldBindInfo := [⟨(start + 0x10).setWidth 64, 0, 0x1069⟩]

theorem relocEncodings {start : U32} (vmaddr : SegmentCommand.vmaddr (relocHost start).mem 0x101c = .ok start)
    (string : readCStr (relocHost start).mem 0x1069 = .ok "_x".toList)
    (nlist : Nlist.strx (relocHost start).mem 0x105c = .ok 1 ∧ Nlist.type (relocHost start).mem 0x105c = .ok 0x01 ∧
      Nlist.value (relocHost start).mem 0x105c = .ok 0)
    (reloc : RelocationInfo.rAddress (relocHost start).mem 0x1054 = .ok 0x10 ∧
      RelocationInfo.fields (relocHost start).mem 0x1054 = .ok 0x0c000000) :
    Encodings (relocHost start).mem relocLib [0x101c] start 84 [relocFixup start] [relocFixup start]
      (relocDbi start) where
  notSplit := ⟨0, rfl, rfl⟩
  firstSegment := ⟨0x101c, rfl, vmaddr⟩
  same := .refl _
  distinct := List.nodup_singleton _
  named := by
    intro fixup member
    cases List.mem_singleton.mp member
    have inTable : (0 : U32) < relocLib.machoSymtabCount := by decide
    exact ⟨inTable, ⟨0x01, nlist.2.1, by decide⟩, ⟨0, nlist.2.2⟩, ⟨1, nlist.1, string⟩⟩
  count := Nat.one_lt_two_pow (by decide)
  relocTable := by
    intro i fixup atFixup
    obtain ⟨bound, rfl⟩ := List.getElem?_eq_some_iff.mp atFixup
    have first : i = 0 := by simpa using bound
    have distance : start + 0x10 - start = 0x10 := by bv_omega
    subst first
    have symbol : RelocationInfo.rSymbolnum 0x0c000000 = 0 := by decide
    refine ⟨?_, 0x0c000000, reloc.2, symbol, by decide, by decide, by decide⟩
    change _ = Except.ok (start + 0x10 - start)
    rw [distance]
    exact reloc.1
  bindTable := .cons ⟨rfl, string⟩ .nil

theorem highEncodings : Encodings (relocHost 0x2000).mem relocLib [0x101c] 0x2000 84 [relocFixup 0x2000]
    [relocFixup 0x2000] (relocDbi 0x2000) :=
  relocEncodings (by decide +kernel) (by decide +kernel) (by decide +kernel) (by decide +kernel)

theorem lowEncodings :
    Encodings (relocHost 0).mem relocLib [0x101c] 0 84 [relocFixup 0] [relocFixup 0] (relocDbi 0) :=
  relocEncodings (by decide +kernel) (by decide +kernel) (by decide +kernel) (by decide +kernel)

/-- In an image whose first segment does not start at 0, the relocation entry names another
address than the bind information does. -/
theorem relocations_disagree :
    Encodings (relocHost 0x2000).mem relocLib [0x101c] 0x2000 84 [relocFixup 0x2000] [relocFixup 0x2000]
        (relocDbi 0x2000) ∧
      reportedName (symtabMachoFindRelocSymForAddr (relocHost 0x2000) 0 (relocOnly relocLib 84 1) 0x2010) = .ok none ∧
      reportedName (symtabMachoFindRelocSymForAddr (relocHost 0x2000) 0 (bindOnly relocLib (relocDbi 0x2000)) 0x2010) =
        .ok (some "x".toList) :=
  ⟨highEncodings, by decide +kernel, by decide +kernel⟩

theorem relocations_agree :
    Encodings (relocHost 0).mem relocLib [0x101c] 0 84 [relocFixup 0] [relocFixup 0] (relocDbi 0) ∧
      ∀ addr, reportedName (symtabMachoFindRelocSymForAddr (relocHost 0) 0 (relocOnly relocLib 84 1) addr) =
        reportedName (symtabMachoFindRelocSymForAddr (relocHost 0) 0 (bindOnly relocLib (relocDbi 0)) addr) := by
  refine ⟨lowEncodings, (relocations_agree_iff lowEncodings).mpr ?_⟩
  intro addr
  have unchanged : addr + 0 = addr := by simp
  rw [unchanged]

end Classgraph
