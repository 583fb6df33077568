import Mathlib.Data.List.Forall2
import Classgraph.BindStream
import Classgraph.LoadCommands

namespace Classgraph
open Run Machine

/-- A string that a record of the bind information points to: a constant of the program or a place in the file. -/
inductive BindText
  | text (str : CStr)
  | mapped (p : U32)
  deriving DecidableEq, Repr

/-- `struct dyld_bind_info` with all of its fields. -/
structure DyldBindRecord extends DyldBindInfo where
  segname : BindText
  sectname : BindText
  bindType : U8
  dylibname : BindText
  weakImport : Bool
  deriving DecidableEq, Repr

def unknownName : BindText := .text "??".toList

/-- `dylibs` holds the names of the libraries; where it is empty, it is the null pointer. -/
def ordinalName (libraryOrdinal : U32) (dylibs : List U32) : Except Fault BindText :=
  if libraryOrdinal = 0 then .ok (.text "this-image".toList)
  else if libraryOrdinal = -1 then .ok (.text "main-executable".toList)
  else if libraryOrdinal = -2 then .ok (.text "flat-namespace".toList)
  else if libraryOrdinal.slt (-2) then .ok (.text "unknown special ordinal".toList)
  else if dylibs.length < libraryOrdinal.toNat then .ok (.text "libraryOrdinal out of range".toList)
  else
    match dylibs[libraryOrdinal.toNat - 1]? with
    | some name => .ok (.mapped name)
    | none => .error (.segv (4 * (libraryOrdinal - 1)))

/-- `segs[segIndex]->segname`; the field is at offset 8. -/
def segmentName (segIndex : U8) (segs : List U32) : BindText :=
  match segs[segIndex.toNat]? with
  | none => unknownName
  | some seg => .mapped (seg + 8)

/-- The search through the next `n` sections for one that holds the address. The name is the first field of a
section header, and its end is a 32-bit sum. -/
def sectionNameLoop (mem : Mem) (address : U64) : Nat → U32 → Except Fault BindText
  | 0, _ => .ok unknownName
  | n + 1, s => do
    if (← Section.addr mem s).setWidth 64 ≤ address then
      if address < ((← Section.addr mem s) + (← Section.size mem s)).setWidth 64 then return .mapped s
      else sectionNameLoop mem address n (s + Section.sizeOf)
    else sectionNameLoop mem address n (s + Section.sizeOf)

def sectionName (mem : Mem) (segIndex : U8) (address : U64) (segs : List U32) : Except Fault BindText :=
  match segs[segIndex.toNat]? with
  | none => .ok unknownName
  | some seg => do
    sectionNameLoop mem address (← SegmentCommand.nsects mem seg).toNat (seg + SegmentCommand.sizeOf)

/-- All variables of the decoder that a record or a later opcode depends on. -/
structure BindVars where
  type : U8 := 0
  segIndex : U8 := 0
  segOffset : U64 := 0
  symbolName : U32 := 0
  fromDylib : BindText := unknownName
  addend : U64 := 0
  segStartAddr : U64 := 0
  segName : BindText := unknownName
  weakImport : Bool := false
  done : Bool := false
  n : Nat := 0
  dbi : List DyldBindRecord := []

def BindVars.record (st : BindVars) (sectName : BindText) : DyldBindRecord where
  address := st.segStartAddr + st.segOffset
  addend := st.addend
  symbolname := st.symbolName
  segname := st.segName
  sectname := sectName
  bindType := st.type
  dylibname := st.fromDylib
  weakImport := st.weakImport

def recordStore (pass : BindPass) (sectName : BindText) (st : BindVars) : Except Fault BindVars :=
  match pass with
  | .count => .ok { st with n := st.n + 1 }
  | .store size =>
    if (st.n + 1) * sizeofDyldBindInfo ≤ size then .ok { st with n := st.n + 1, dbi := st.dbi ++ [st.record sectName] }
    else .error (.outOfBounds .bindInfo)

/-- The section name at the place of the next record. -/
def sectionNameHere (mem : Mem) (segs : List U32) (st : BindVars) : Except Fault BindText :=
  sectionName mem st.segIndex (st.segStartAddr + st.segOffset) segs

/-- The records of a repetition, all with the section name of the first. -/
def recordRepeat (pass : BindPass) (sectName : BindText) (skip : U32) : Nat → BindVars → Except Fault BindVars
  | 0, st => .ok st
  | count + 1, st => do
    let st ← recordStore pass sectName st
    recordRepeat pass sectName skip count { st with segOffset := st.segOffset + (skip + sizeofPointer).setWidth 64 }

/-- One opcode with everything that it does; compare `bindOpcode`. -/
def recordOpcode (mem : Mem) (segs dylibs : List U32) (stop : U32) (pass : BindPass) (opcode immediate : U8) (p : U32)
    (st : BindVars) : Except Fault (Option (U32 × BindVars)) :=
  match opcode.toNat with
  | 0x00 => return some (p, { st with done := true })
  | 0x10 => do
    let fromDylib ← ordinalName (immediate.setWidth 32) dylibs
    return some (p, { st with fromDylib := fromDylib })
  | 0x20 => do
    let (p, libraryOrdinal) ← readUleb128 mem p stop
    let fromDylib ← ordinalName (libraryOrdinal.setWidth 32) dylibs
    return some (p, { st with fromDylib := fromDylib })
  | 0x30 => do
    let libraryOrdinal := if immediate = 0 then 0 else (bindOpcodeMask ||| immediate).signExtend 32
    let fromDylib ← ordinalName libraryOrdinal dylibs
    return some (p, { st with fromDylib := fromDylib })
  | 0x40 => do
    let name ← readCStr mem p
    return some (p + BitVec.ofNat 32 name.length + 1,
      { st with symbolName := p, weakImport := immediate &&& 0x1 ≠ 0 })
  | 0x50 => return some (p, { st with type := immediate })
  | 0x60 => do
    let (p, addend) ← readSleb128 mem p stop
    return some (p, { st with addend := addend })
  | 0x70 => do
    let segStartAddr ← segStartAddress mem immediate segs
    let (p, segOffset) ← readUleb128 mem p stop
    return some (p, { st with
      segIndex := immediate
      segStartAddr := segStartAddr
      segName := segmentName immediate segs
      segOffset := segOffset })
  | 0x80 => do
    let (p, delta) ← readUleb128 mem p stop
    return some (p, { st with segOffset := st.segOffset + delta })
  | 0x90 => do
    let sectName ← sectionNameHere mem segs st
    let st ← recordStore pass sectName st
    return some (p, { st with segOffset := st.segOffset + sizeofPointer.setWidth 64 })
  | 0xa0 => do
    let sectName ← sectionNameHere mem segs st
    let st ← recordStore pass sectName st
    let (p, delta) ← readUleb128 mem p stop
    return some (p, { st with segOffset := st.segOffset + (delta + sizeofPointer.setWidth 64) })
  | 0xb0 => do
    let sectName ← sectionNameHere mem segs st
    let st ← recordStore pass sectName st
    let delta := immediate.setWidth 32 * sizeofPointer + sizeofPointer
    return some (p, { st with segOffset := st.segOffset + delta.setWidth 64 })
  | 0xc0 => do
    let (p, count) ← readUleb128 mem p stop
    let (p, skip) ← readUleb128 mem p stop
    let sectName ← sectionNameHere mem segs st
    let st ← recordRepeat pass sectName (skip.setWidth 32) (count.setWidth 32).toNat st
    return some (p, st)
  | _ => return none

def recordLoop (mem : Mem) (segs dylibs : List U32) (stop : U32) (pass : BindPass) :
    Nat → U32 → BindVars → Except Fault (Option BindVars)
  | 0, _, _ => .error .diverges
  | fuel + 1, p, st => do
    if st.done ∨ stop ≤ p then return some st
    let byte ← readByte mem p
    let opcode := byte &&& bindOpcodeMask
    match ← recordOpcode mem segs dylibs stop pass opcode (byte &&& bindImmediateMask) (p + 1) st with
    | none => return none
    | some (p, st) => recordLoop mem segs dylibs stop pass fuel p st

def recordRun (mem : Mem) (segs dylibs : List U32) (start stop : U32) (pass : BindPass) :
    Except Fault (Option BindVars) :=
  recordLoop mem segs dylibs stop pass ((stop - start).toNat + 1) start {}

/-- `get_dyld_bind_info` with all fields of its records; compare `getDyldBindInfo`. -/
def getDyldBindRecords (malloc : Malloc) (mem : Mem) (start stop : U32) (dylibs segs : List U32) :
    Except Fault (Option (List DyldBindRecord × Nat)) := do
  match ← recordRun mem segs dylibs start stop .count with
  | none => return none
  | some counted =>
    match ← recordRun mem segs dylibs start stop (allocate malloc (counted.n * sizeofDyldBindInfo % 2 ^ 32)) with
    | none => return some ([], counted.n)
    | some stored => return some (stored.dbi, counted.n)

/-- The index of a library is in the range of the array, even where that is the null pointer. -/
theorem ordinalName_returns (libraryOrdinal : U32) (dylibs : List U32) :
    Returns (ordinalName libraryOrdinal dylibs) fun _ => True := by
  unfold ordinalName
  split
  · trivial
  · rename_i nonzero
    have positive : 0 < libraryOrdinal.toNat := by bv_omega
    split
    · trivial
    · split
      · trivial
      · split
        · trivial
        · split
          · trivial
          · have inside : libraryOrdinal.toNat - 1 < dylibs.length := by omega
            rw [List.getElem?_eq_getElem inside]
            trivial

/-- Every section of the segments has an entry in the table. -/
def SectionsCovered (mem : Mem) (segs : List U32) (vmranges : List MachoVmrange) : Prop :=
  ∀ (i : Nat) (seg : U32), segs[i]? = some seg → ∃ nsects, SegmentCommand.nsects mem seg = .ok nsects ∧
    ∀ j < nsects.toNat, ∃ vmrange ∈ vmranges, vmrange.segmentIdx = i ∧ vmrange.sectionIdx = j

theorem machoSection_covers {mem : Mem} {segCmd : U32} {nsegs j : Nat} {sect : U32}
    {vmranges result : List MachoVmrange} (run : machoSection mem segCmd nsegs j sect vmranges = .ok result) :
    ∃ vmrange, vmrange.segmentIdx = nsegs ∧ vmrange.sectionIdx = j ∧ result = vmranges ++ [vmrange] := by
  obtain ⟨_, _, run⟩ := bind_ok.mp run
  obtain ⟨isMapped, _, run⟩ := bind_ok.mp run
  obtain ⟨range, _, run⟩ := bind_ok.mp run
  have stored {vmrange : U32 → MachoVmrange} {apart : Bool}
      (placed : ∀ offset, (vmrange offset).segmentIdx = nsegs ∧ (vmrange offset).sectionIdx = j)
      (run : (do
        let offset ← Section.offset mem sect
        check .noOverlap apart
        store .vmranges maxVmranges vmranges (vmrange offset)) = .ok result) :
      ∃ vmrange, vmrange.segmentIdx = nsegs ∧ vmrange.sectionIdx = j ∧ result = vmranges ++ [vmrange] := by
    obtain ⟨offset, _, run⟩ := bind_ok.mp run
    obtain ⟨_, _, run⟩ := bind_ok.mp run
    rw [store] at run
    split at run
    · cases run
      exact ⟨vmrange offset, (placed offset).1, (placed offset).2, rfl⟩
    · cases run
  dsimp only at run
  split at run
  · obtain ⟨_, _, run⟩ := bind_ok.mp run
    exact stored (fun _ => ⟨rfl, rfl⟩) run
  · exact stored (fun _ => ⟨rfl, rfl⟩) run

theorem machoSections_covers {mem : Mem} {segCmd : U32} {nsegs n j : Nat} {sect : U32}
    {vmranges result : List MachoVmrange} (run : machoSections mem segCmd nsegs n j sect vmranges = .ok result) :
    vmranges ⊆ result ∧ ∀ k, j ≤ k → k < j + n →
      ∃ vmrange ∈ result, vmrange.segmentIdx = nsegs ∧ vmrange.sectionIdx = k := by
  induction n generalizing j sect vmranges with
  | zero =>
    cases run
    exact ⟨List.Subset.refl _, fun k after before => by omega⟩
  | succ n ih =>
    obtain ⟨more, first, rest⟩ := bind_ok.mp run
    obtain ⟨vmrange, segment, section', rfl⟩ := machoSection_covers first
    obtain ⟨kept, covered⟩ := ih rest
    refine ⟨fun other member => kept (List.mem_append_left _ member), ?_⟩
    intro k after before
    by_cases here : k = j
    · exact ⟨vmrange, kept (List.mem_append_right _ (List.mem_singleton_self _)), segment, section'.trans here.symm⟩
    · exact covered k (by omega) (by omega)

theorem machoSegment_covers {mem : Mem} {segCmd : U32} {st result : MachoParse}
    (covered : SectionsCovered mem st.segs st.lib.machoVmranges) (run : machoSegment mem segCmd st = .ok result) :
    SectionsCovered mem result.segs result.lib.machoVmranges := by
  obtain ⟨_, _, run⟩ := bind_ok.mp run
  obtain ⟨_, _, run⟩ := bind_ok.mp run
  obtain ⟨_, _, run⟩ := bind_ok.mp run
  obtain ⟨nsects, counted, run⟩ := bind_ok.mp run
  obtain ⟨vmranges, sections, run⟩ := bind_ok.mp run
  obtain ⟨_, _, run⟩ := bind_ok.mp run
  obtain ⟨segs, stored, run⟩ := bind_ok.mp run
  cases pure_ok.mp run
  rw [store] at stored
  split at stored
  · cases stored
    obtain ⟨kept, new⟩ := machoSections_covers sections
    intro i seg atIndex
    by_cases old : i < st.segs.length
    · rw [List.getElem?_append_left old] at atIndex
      obtain ⟨nsects, counted, entries⟩ := covered i seg atIndex
      refine ⟨nsects, counted, fun j inside => ?_⟩
      obtain ⟨vmrange, member, place⟩ := entries j inside
      exact ⟨vmrange, kept member, place⟩
    · have last : i = st.segs.length := by
        have bound := (List.getElem?_eq_some_iff.mp atIndex).1
        rw [List.length_append, List.length_singleton] at bound
        omega
      rw [last, List.getElem?_concat_length] at atIndex
      cases atIndex
      exact ⟨nsects, counted, fun j inside => last ▸ new j (Nat.zero_le j) (by omega)⟩
  · cases stored

theorem machoCommands_covers {mem : Mem} {n : Nat} {cmd : U32} {st result : MachoParse}
    (covered : SectionsCovered mem st.segs st.lib.machoVmranges) (run : machoCommands mem n cmd st = .ok result) :
    SectionsCovered mem result.segs result.lib.machoVmranges := by
  induction n generalizing cmd st with
  | zero =>
    cases run
    exact covered
  | succ n ih =>
    obtain ⟨next, first, run⟩ := bind_ok.mp run
    obtain ⟨_, _, rest⟩ := bind_ok.mp run
    refine ih ?_ rest
    obtain ⟨kind, _, first⟩ := bind_ok.mp first
    have tables {read : Except Fault LibraryInfo} (keeps : Holds InBounds read (KeepsRanges st.lib))
        (run : (do return { st with lib := ← read } : Except Fault MachoParse) = .ok next) :
        SectionsCovered mem next.segs next.lib.machoVmranges := by
      obtain ⟨lib, returned, same⟩ := bind_ok.mp run
      cases pure_ok.mp same
      rw [(keeps.of_ok returned).vmranges]
      exact covered
    dsimp only at first
    split at first
    · exact machoSegment_covers covered first
    · split at first
      · exact tables (machoSymtab_keeps _ _ _) first
      · split at first
        · exact tables (machoDysymtab_keeps _ _ _) first
        · split at first
          · exact tables (machoDyldInfo_keeps _ _ _) first
          · cases pure_ok.mp first
            exact covered

theorem machoParse_covers {mem : Mem} {lib : LibraryInfo} {st : MachoParse} (parse : machoParse mem lib = .ok st) :
    SectionsCovered mem st.segs st.lib.machoVmranges := by
  obtain ⟨_, _, parse⟩ := bind_ok.mp parse
  obtain ⟨_, _, parse⟩ := bind_ok.mp parse
  obtain ⟨_, _, parse⟩ := bind_ok.mp parse
  exact machoCommands_covers (fun i seg atIndex => by cases atIndex) parse

/-- A 64-bit address in a range. -/
def MachoVmrange.Holds64 (vmrange : MachoVmrange) (address : U64) : Prop :=
  vmrange.vmAddrBegin.setWidth 64 ≤ address ∧ address < vmrange.vmAddrEnd.setWidth 64

/-- The section of the segment that the name belongs to. -/
def SectionOf (vmranges : List MachoVmrange) (segIndex : Nat) (address : U64) (name : BindText) : Prop :=
  (∃ vmrange ∈ vmranges, vmrange.segmentIdx = segIndex ∧ vmrange.Holds64 address ∧ name = .mapped vmrange.pSection) ∨
    name = unknownName ∧ ∀ vmrange ∈ vmranges, vmrange.segmentIdx = segIndex → ¬vmrange.Holds64 address

/-- Two entries for one section cover the same addresses. -/
theorem MachoVmrange.Located.same {mem : Mem} {segs : List U32} {vmrange other : MachoVmrange}
    (located : vmrange.Located mem segs) (otherLocated : other.Located mem segs)
    (segment : other.segmentIdx = vmrange.segmentIdx) (index : other.sectionIdx = vmrange.sectionIdx) {address : U64} :
    other.Holds64 address ↔ vmrange.Holds64 address := by
  have sameSegment : other.pSegment = vmrange.pSegment := by
    have atIndex := otherLocated.segment
    rw [segment, located.segment] at atIndex
    exact (Option.some.inj atIndex).symm
  have sameSection : other.pSection = vmrange.pSection := by
    rw [otherLocated.header, located.header, sameSegment, index]
  have sameBegin : other.vmAddrBegin = vmrange.vmAddrBegin := by
    have read := otherLocated.addr
    rw [sameSection, located.addr] at read
    exact (Except.ok.inj read).symm
  obtain ⟨size, sizeRead, ends, _⟩ := located.size
  obtain ⟨otherSize, otherRead, otherEnds, _⟩ := otherLocated.size
  rw [sameSection, sizeRead] at otherRead
  cases otherRead
  rw [Holds64, Holds64, otherEnds, ends, sameBegin]

section

variable {mem : Mem} {segs : List U32} {vmranges : List MachoVmrange} (table : VmrangeTable mem segs vmranges)
include table

/-- The search from section `j` on finds the section with the address, among those that are left. -/
theorem sectionNameLoop_named {i : Nat} {seg : U32} (atSeg : segs[i]? = some seg) {address : U64} {n j : Nat}
    {s : U32} (header : s = seg + SegmentCommand.sizeOf + Section.sizeOf * BitVec.ofNat 32 j)
    (entries : ∀ k, j ≤ k → k < j + n → ∃ vmrange ∈ vmranges, vmrange.segmentIdx = i ∧ vmrange.sectionIdx = k) :
    Returns (sectionNameLoop mem address n s) fun name =>
      (∃ vmrange ∈ vmranges, vmrange.segmentIdx = i ∧ vmrange.Holds64 address ∧ name = .mapped vmrange.pSection) ∨
        name = unknownName ∧ ∀ vmrange ∈ vmranges, vmrange.segmentIdx = i → j ≤ vmrange.sectionIdx →
          vmrange.sectionIdx < j + n → ¬vmrange.Holds64 address := by
  induction n generalizing j s with
  | zero => exact Or.inr ⟨rfl, fun vmrange _ _ after before => by omega⟩
  | succ n ih =>
    obtain ⟨vmrange, member, segment, index⟩ := entries j (Nat.le_refl j) (by omega)
    have located := table.located vmrange member
    have place : vmrange.pSection = s := by
      have atIndex := located.segment
      rw [segment, atSeg] at atIndex
      rw [located.header, header, index, Option.some.inj atIndex]
    obtain ⟨size, sizeRead, ends, _⟩ := located.size
    have addrRead := located.addr
    rw [place] at sizeRead addrRead
    have later (outside : ¬vmrange.Holds64 address) : Returns (sectionNameLoop mem address n (s + Section.sizeOf))
        fun name => (∃ vmrange ∈ vmranges, vmrange.segmentIdx = i ∧ vmrange.Holds64 address ∧
            name = .mapped vmrange.pSection) ∨
          name = unknownName ∧ ∀ vmrange ∈ vmranges, vmrange.segmentIdx = i → j ≤ vmrange.sectionIdx →
            vmrange.sectionIdx < j + (n + 1) → ¬vmrange.Holds64 address := by
      refine (ih (by rw [header, entry_succ]) fun k after before => entries k (by omega) (by omega)).imp ?_
      intro name named
      rcases named with found | ⟨unknown, rest⟩
      · exact Or.inl found
      · refine Or.inr ⟨unknown, fun other inTable inSegment after before => ?_⟩
        by_cases here : other.sectionIdx = j
        · rw [located.same (table.located other inTable) (inSegment.trans segment.symm) (here.trans index.symm)]
          exact outside
        · exact rest other inTable inSegment (by omega) (by omega)
    rw [sectionNameLoop, addrRead, sizeRead]
    simp only [ok_bind, ← ends]
    split
    · rename_i above
      split
      · rename_i below
        exact Or.inl ⟨vmrange, member, segment, ⟨above, below⟩, by rw [place]⟩
      · rename_i beyond
        exact later fun inside => beyond inside.2
    · rename_i before
      exact later fun inside => before inside.1

/-- On an image that was accepted the section name is that of the entry of the segment with the address. -/
theorem sectionName_named (covered : SectionsCovered mem segs vmranges) (segIndex : U8) (address : U64) :
    Returns (sectionName mem segIndex address segs) (SectionOf vmranges segIndex.toNat address) := by
  unfold sectionName
  cases atSeg : segs[segIndex.toNat]? with
  | none =>
    refine Or.inr ⟨rfl, fun vmrange member segment => ?_⟩
    have located := (table.located vmrange member).segment
    rw [segment, atSeg] at located
    cases located
  | some seg =>
    obtain ⟨nsects, counted, entries⟩ := covered _ seg atSeg
    have start : seg + SegmentCommand.sizeOf = seg + SegmentCommand.sizeOf + Section.sizeOf * BitVec.ofNat 32 0 := by
      simp
    simp only [counted, ok_bind]
    refine (sectionNameLoop_named table atSeg start fun k _ before => entries k (by omega)).imp ?_
    intro name named
    rcases named with found | ⟨unknown, rest⟩
    · exact Or.inl found
    · refine Or.inr ⟨unknown, fun vmrange member segment => rest vmrange member segment (Nat.zero_le _) ?_⟩
      obtain ⟨count, sameCount, inside⟩ := (table.located vmrange member).index
      have located := (table.located vmrange member).segment
      rw [segment, atSeg] at located
      rw [← Option.some.inj located, counted] at sameCount
      cases sameCount
      omega

end

/-- The variables and records that the decoder without the names has. -/
def BindVars.core (st : BindVars) : BindState where
  segStartAddr := st.segStartAddr
  segOffset := st.segOffset
  symbolName := st.symbolName
  addend := st.addend
  done := st.done
  n := st.n
  dbi := st.dbi.map DyldBindRecord.toDyldBindInfo

/-- What the opcodes have set, besides the place and the symbol of the next record. -/
structure BindLabels where
  segIndex : Option U8 := none
  type : U8 := 0
  libraryOrdinal : Option U32 := none
  weakImport : Bool := false

def BindOp.labels : BindOp → BindLabels → BindLabels
  | .setDylib libraryOrdinal, labels => { labels with libraryOrdinal := some libraryOrdinal }
  | .setSymbol _ weakImport, labels => { labels with weakImport := weakImport }
  | .setType type, labels => { labels with type := type }
  | .setSegment segIndex _ _, labels => { labels with segIndex := some segIndex }
  | _, labels => labels

/-- What a record is made of: place, addend and symbol, the address whose section it names, and the rest. -/
structure BindOrigin where
  info : DyldBindInfo
  sectionAt : U64
  labels : BindLabels

/-- The section of the first place goes into all records of a repetition. -/
def BindOp.origins (op : BindOp) (cursor : BindCursor) (labels : BindLabels) : List BindOrigin :=
  (op.records cursor).map fun info => ⟨info, cursor.record.address, labels⟩

/-- What the records of a stream of operations are made of. -/
def opsOrigins : List BindOp → BindCursor → BindLabels → List BindOrigin
  | [], _, _ => []
  | op :: rest, cursor, labels => op.origins cursor labels ++ opsOrigins rest (op.next cursor) (op.labels labels)

def BindLabels.segname (labels : BindLabels) (segs : List U32) : BindText :=
  labels.segIndex.elim unknownName fun segIndex => segmentName segIndex segs

/-- Sections are looked for in segment 0 as long as no segment has been set. -/
def BindLabels.sectionSegment (labels : BindLabels) : U8 := labels.segIndex.getD 0

def BindLabels.dylibname (labels : BindLabels) (dylibs : List U32) : Except Fault BindText :=
  labels.libraryOrdinal.elim (.ok unknownName) fun libraryOrdinal => ordinalName libraryOrdinal dylibs

/-- A record with all of its fields. -/
structure DyldBindRecord.Made (segs dylibs : List U32) (vmranges : List MachoVmrange) (origin : BindOrigin)
    (record : DyldBindRecord) : Prop where
  info : record.toDyldBindInfo = origin.info
  segname : record.segname = origin.labels.segname segs
  sectname : SectionOf vmranges origin.labels.sectionSegment.toNat origin.sectionAt record.sectname
  bindType : record.bindType = origin.labels.type
  dylibname : origin.labels.dylibname dylibs = .ok record.dylibname
  weakImport : record.weakImport = origin.labels.weakImport

/-- The variables hold what the opcodes have set. -/
structure BindVars.Labelled (segs dylibs : List U32) (st : BindVars) (labels : BindLabels) : Prop where
  segIndex : st.segIndex = labels.sectionSegment
  segName : st.segName = labels.segname segs
  type : st.type = labels.type
  fromDylib : labels.dylibname dylibs = .ok st.fromDylib
  weakImport : st.weakImport = labels.weakImport

/-- A part of a pass that makes records of these origins and leaves the variables so. -/
structure Makes (segs dylibs : List U32) (vmranges : List MachoVmrange) (pass : BindPass) (st st' : BindVars)
    (origins : List BindOrigin) (cursor : BindCursor) (labels : BindLabels) : Prop where
  cursor : st'.core.cursor = cursor
  labelled : st'.Labelled segs dylibs labels
  records : pass ≠ .count →
    ∃ more, st'.dbi = st.dbi ++ more ∧ List.Forall₂ (DyldBindRecord.Made segs dylibs vmranges) origins more

section

variable {mem : Mem} {segs dylibs : List U32} {vmranges : List MachoVmrange} {stop : U32} {pass : BindPass}
  {st st' st'' : BindVars} {labels labels' labels'' : BindLabels} {cursor cursor' : BindCursor}
  {origins origins' : List BindOrigin}

/-- A change of variables other than the records. -/
theorem Makes.quiet (sameRecords : st'.dbi = st.dbi) (atCursor : st'.core.cursor = cursor)
    (labelled : st'.Labelled segs dylibs labels) : Makes segs dylibs vmranges pass st st' [] cursor labels :=
  ⟨atCursor, labelled, fun _ => ⟨[], by rw [sameRecords, List.append_nil], .nil⟩⟩

theorem Makes.trans (first : Makes segs dylibs vmranges pass st st' origins cursor labels)
    (second : Makes segs dylibs vmranges pass st' st'' origins' cursor' labels') :
    Makes segs dylibs vmranges pass st st'' (origins ++ origins') cursor' labels' := by
  refine ⟨second.cursor, second.labelled, ?_⟩
  intro storing
  obtain ⟨more, here, made⟩ := first.records storing
  obtain ⟨rest, later, madeLater⟩ := second.records storing
  exact ⟨more ++ rest, by rw [later, here, List.append_assoc], List.rel_append made madeLater⟩

/-- Moving the cursor. -/
theorem Makes.advance (makes : Makes segs dylibs vmranges pass st st' origins cursor labels) (delta : U64) :
    Makes segs dylibs vmranges pass st { st' with segOffset := st'.segOffset + delta } origins (cursor.advance delta)
      labels := by
  obtain ⟨rfl, ⟨segIndex, segName, type, fromDylib, weakImport⟩, records⟩ := makes
  exact ⟨rfl, ⟨segIndex, segName, type, fromDylib, weakImport⟩, records⟩

theorem recordStore_makes {sectName : BindText} {sectionAt : U64} (labelled : st.Labelled segs dylibs labels)
    (sect : SectionOf vmranges labels.sectionSegment.toNat sectionAt sectName)
    (run : recordStore pass sectName st = .ok st') :
    Makes segs dylibs vmranges pass st st' [⟨st.core.cursor.record, sectionAt, labels⟩] st.core.cursor labels ∧
      st'.done = st.done := by
  obtain ⟨segIndex, segName, type, fromDylib, weakImport⟩ := labelled
  cases pass with
  | count =>
    cases run
    exact ⟨⟨rfl, ⟨segIndex, segName, type, fromDylib, weakImport⟩, fun counting => absurd rfl counting⟩, rfl⟩
  | store size =>
    rw [recordStore] at run
    split at run
    · cases run
      refine ⟨⟨rfl, ⟨segIndex, segName, type, fromDylib, weakImport⟩, fun _ => ⟨[st.record sectName], rfl, ?_⟩⟩, rfl⟩
      exact .cons ⟨rfl, segName, sect, type, fromDylib, weakImport⟩ .nil
    · cases run

theorem recordRepeat_makes {sectName : BindText} {sectionAt : U64} {skip : U32} {count : Nat}
    (labelled : st.Labelled segs dylibs labels)
    (sect : SectionOf vmranges labels.sectionSegment.toNat sectionAt sectName)
    (run : recordRepeat pass sectName skip count st = .ok st') :
    Makes segs dylibs vmranges pass st st'
        ((st.core.cursor.records ((skip + sizeofPointer).setWidth 64) count).map fun info => ⟨info, sectionAt, labels⟩)
        (st.core.cursor.advanceTimes ((skip + sizeofPointer).setWidth 64) count) labels ∧
      st'.done = st.done := by
  induction count generalizing st with
  | zero =>
    cases run
    exact ⟨.quiet rfl rfl labelled, rfl⟩
  | succ count ih =>
    obtain ⟨next, stored, rest⟩ := bind_ok.mp run
    obtain ⟨here, sameDone⟩ := recordStore_makes labelled sect stored
    have moved := here.advance ((skip + sizeofPointer).setWidth 64)
    obtain ⟨later, done⟩ := ih moved.labelled rest
    rw [moved.cursor] at later
    exact ⟨moved.trans later, done.trans sameDone⟩

/-- An opcode makes the records of its operation. -/
theorem recordOpcode_makes (opcode immediate : U8) (p : U32)
    (names : ∀ segIndex address, Returns (sectionName mem segIndex address segs)
      (SectionOf vmranges segIndex.toNat address))
    (labelled : st.Labelled segs dylibs labels) (running : st.done = false) :
    Refines (Option.Rel fun next op => next.1 = op.1 ∧ next.2.done = op.2.isDone ∧
        Makes segs dylibs vmranges pass st next.2 (op.2.origins st.core.cursor labels) (op.2.next st.core.cursor)
          (op.2.labels labels))
      (recordOpcode mem segs dylibs stop pass opcode immediate p st) (decodeOp mem segs stop opcode immediate p) := by
  obtain ⟨segIndex, segName, type, fromDylib, weakImport⟩ := labelled
  have labelled : st.Labelled segs dylibs labels := ⟨segIndex, segName, type, fromDylib, weakImport⟩
  have section_ {name : BindText} (isName : sectionNameHere mem segs st = .ok name) :
      SectionOf vmranges labels.sectionSegment.toNat st.core.cursor.record.address name := by
    rw [← segIndex]
    exact (names st.segIndex _).of_ok isName
  have one {name : BindText} {next : BindVars} (stride : U64) (isName : sectionNameHere mem segs st = .ok name)
      (stored : recordStore pass name st = .ok next) : next.done = false ∧
        Makes segs dylibs vmranges pass st { next with segOffset := next.segOffset + stride }
          ((BindOp.bind 1 stride).origins st.core.cursor labels) ((BindOp.bind 1 stride).next st.core.cursor)
          labels := by
    obtain ⟨makes, sameDone⟩ := recordStore_makes labelled (section_ isName) stored
    exact ⟨sameDone.trans running, makes.advance stride⟩
  unfold recordOpcode
  generalize isCode : opcode.toNat = code
  split
  all_goals rw [decodeOp, isCode]
  · exact .pure (.some ⟨rfl, rfl, .quiet rfl rfl ⟨segIndex, segName, type, fromDylib, weakImport⟩⟩)
  · refine .left_bind fun _ isName => .pure (.some ⟨rfl, running, .quiet rfl rfl ?_⟩)
    exact ⟨segIndex, segName, type, isName, weakImport⟩
  · refine .same_bind fun _ _ => .left_bind fun _ isName => .pure (.some ⟨rfl, running, .quiet rfl rfl ?_⟩)
    exact ⟨segIndex, segName, type, isName, weakImport⟩
  · refine .left_bind fun _ isName => .pure (.some ⟨rfl, running, .quiet rfl rfl ?_⟩)
    exact ⟨segIndex, segName, type, isName, weakImport⟩
  · refine .same_bind fun _ _ => .pure (.some ⟨rfl, running, .quiet rfl rfl ?_⟩)
    exact ⟨segIndex, segName, type, fromDylib, rfl⟩
  · exact .pure (.some ⟨rfl, running, .quiet rfl rfl ⟨segIndex, segName, rfl, fromDylib, weakImport⟩⟩)
  · refine .same_bind fun _ _ => .pure (.some ⟨rfl, running, .quiet rfl rfl ?_⟩)
    exact ⟨segIndex, segName, type, fromDylib, weakImport⟩
  · refine .same_bind fun _ _ => .same_bind fun _ _ => .pure (.some ⟨rfl, running, .quiet rfl rfl ?_⟩)
    exact ⟨rfl, rfl, type, fromDylib, weakImport⟩
  · refine .same_bind fun _ _ => .pure (.some ⟨rfl, running, .quiet rfl rfl ?_⟩)
    exact ⟨segIndex, segName, type, fromDylib, weakImport⟩
  · exact .left_bind fun _ isName => .left_bind fun _ stored => .pure (.some ⟨rfl, one _ isName stored⟩)
  · refine .left_bind fun _ isName => .left_bind fun _ stored => .same_bind fun _ _ => ?_
    exact .pure (.some ⟨rfl, one _ isName stored⟩)
  · exact .left_bind fun _ isName => .left_bind fun _ stored => .pure (.some ⟨rfl, one _ isName stored⟩)
  · refine .same_bind fun _ _ => .same_bind fun _ _ => .left_bind fun _ isName => .left_bind fun _ repeated => ?_
    obtain ⟨makes, sameDone⟩ := recordRepeat_makes labelled (section_ isName) repeated
    exact .pure (.some ⟨rfl, sameDone.trans running, makes⟩)
  · -- no other opcode has an operation
    split
    all_goals first | contradiction | exact .pure .none

theorem recordLoop_makes {fuel : Nat} {p : U32} {result : Option BindVars}
    (names : ∀ segIndex address, Returns (sectionName mem segIndex address segs)
      (SectionOf vmranges segIndex.toNat address))
    (labelled : st.Labelled segs dylibs labels) (running : st.done = false)
    (run : recordLoop mem segs dylibs stop pass fuel p st = .ok result) :
    ∃ decoded, decodeOps mem segs stop fuel p = .ok decoded ∧
      Option.Rel (fun st' ops => pass ≠ .count → ∃ more, st'.dbi = st.dbi ++ more ∧
        List.Forall₂ (DyldBindRecord.Made segs dylibs vmranges) (opsOrigins ops st.core.cursor labels) more)
        result decoded := by
  induction fuel generalizing p st labels with
  | zero => cases run
  | succ fuel ih =>
    rw [recordLoop] at run
    by_cases ended : stop ≤ p
    · have leaves : st.done ∨ stop ≤ p := Or.inr ended
      rw [if_pos leaves] at run
      cases run
      rw [decodeOps, if_pos ended]
      exact ⟨_, rfl, .some fun _ => ⟨[], (List.append_nil _).symm, .nil⟩⟩
    · have stays : ¬(st.done ∨ stop ≤ p) := by simp [running, ended]
      rw [if_neg stays] at run
      obtain ⟨byte, read, run⟩ := bind_ok.mp run
      obtain ⟨next, opcode, run⟩ := bind_ok.mp run
      obtain ⟨decoded, opRead, step⟩ := recordOpcode_makes _ _ _ names labelled running _ opcode
      cases step with
      | none =>
        cases run
        exact ⟨none, decodeOps_unknown ended read opRead, .none⟩
      | @some next op step =>
        obtain ⟨q, st'⟩ := next
        obtain ⟨q', op⟩ := op
        obtain ⟨rfl, done, makes⟩ := step
        have further : decodeOps mem segs stop (fuel + 1) p = _ := decodeOps_next ended read opRead
        rw [further]
        cases isDone : op.isDone with
        | true =>
          obtain rfl : op = .done := BindOp.eq_done isDone
          have leaves : st'.done ∨ stop ≤ q := Or.inl done
          cases fuel with
          | zero => cases run
          | succ fuel =>
            have last : recordLoop mem segs dylibs stop pass (fuel + 1) q st' = .ok result := run
            rw [recordLoop, if_pos leaves] at last
            cases last
            exact ⟨_, rfl, .some makes.records⟩
        | false =>
          obtain ⟨decoded, rest, later⟩ := ih makes.labelled (done.trans isDone) run
          refine ⟨decoded.map (op :: ·), bind_ok.mpr ⟨decoded, rest, rfl⟩, ?_⟩
          cases later with
          | none => exact .none
          | some later =>
            refine .some fun storing => ?_
            obtain ⟨more, here, made⟩ := makes.records storing
            obtain ⟨rest, there, madeLater⟩ := later storing
            rw [makes.cursor] at madeLater
            exact ⟨more ++ rest, by rw [there, here, List.append_assoc], List.rel_append made madeLater⟩

theorem recordRun_makes {start : U32} {result : Option BindVars}
    (names : ∀ segIndex address, Returns (sectionName mem segIndex address segs)
      (SectionOf vmranges segIndex.toNat address))
    (run : recordRun mem segs dylibs start stop pass = .ok result) :
    ∃ decoded, bindOps mem segs start stop = .ok decoded ∧
      Option.Rel (fun st ops => pass ≠ .count →
        List.Forall₂ (DyldBindRecord.Made segs dylibs vmranges) (opsOrigins ops {} {}) st.dbi) result decoded := by
  have labelled : BindVars.Labelled segs dylibs {} {} := ⟨rfl, rfl, rfl, rfl, rfl⟩
  obtain ⟨decoded, read, made⟩ := recordLoop_makes names labelled rfl run
  refine ⟨decoded, read, ?_⟩
  cases made with
  | none => exact .none
  | some made =>
    refine .some fun storing => ?_
    obtain ⟨more, all, made⟩ := made storing
    rw [all]
    exact made

end

section

variable {mem : Mem} {segs dylibs : List U32} {stop : U32}

theorem recordStore_core (pass : BindPass) (sectName : BindText) (st : BindVars) :
    Related (fun st' core => st'.core = core) (recordStore pass sectName st) (bindRecord pass st.core) := by
  cases pass with
  | count => exact rfl
  | store size =>
    rw [recordStore, bindRecord]
    by_cases room : (st.n + 1) * sizeofDyldBindInfo ≤ size
    · have coreRoom : (st.core.n + 1) * sizeofDyldBindInfo ≤ size := room
      rw [if_pos room, if_pos coreRoom]
      simp only [Related, BindVars.core, List.map_append]
      rfl
    · have coreRoom : ¬(st.core.n + 1) * sizeofDyldBindInfo ≤ size := room
      rw [if_neg room, if_neg coreRoom]
      exact rfl

theorem recordRepeat_core (pass : BindPass) (sectName : BindText) (skip : U32) (count : Nat) (st : BindVars) :
    Related (fun st' core => st'.core = core) (recordRepeat pass sectName skip count st)
      (bindRepeat pass skip count st.core) := by
  induction count generalizing st with
  | zero => exact rfl
  | succ count ih =>
    refine (recordStore_core pass sectName st).bind ?_
    rintro st' core rfl
    exact ih { st' with segOffset := st'.segOffset + (skip + sizeofPointer).setWidth 64 }

/-- The same place, and the same variables up to the names. -/
def SameNext : Option (U32 × BindVars) → Option (U32 × BindState) → Prop :=
  Option.Rel fun next core => next.1 = core.1 ∧ next.2.core = core.2

/-- One opcode in both decoders. -/
theorem recordOpcode_core
    (names : ∀ segIndex address, Returns (sectionName mem segIndex address segs) fun _ => True)
    (pass : BindPass) (opcode immediate : U8) (p : U32) (st : BindVars) :
    Related SameNext (recordOpcode mem segs dylibs stop pass opcode immediate p st)
      (bindOpcode mem segs stop pass opcode immediate p st.core) := by
  have ordinal (libraryOrdinal : U32) (q : U32) :
      Related SameNext (do
        let fromDylib ← ordinalName libraryOrdinal dylibs
        return some (q, { st with fromDylib := fromDylib })) (pure (some (q, st.core))) := by
    obtain ⟨name, isName, _⟩ := (ordinalName_returns libraryOrdinal dylibs).exists
    rw [isName]
    exact .some ⟨rfl, rfl⟩
  have stored {rest : BindVars → Except Fault (Option (U32 × BindVars))}
      {rest' : BindState → Except Fault (Option (U32 × BindState))}
      (tail : ∀ next : BindVars, Related SameNext (rest next) (rest' next.core)) :
      Related SameNext (do
        let sectName ← sectionNameHere mem segs st
        rest (← recordStore pass sectName st)) (bindRecord pass st.core >>= rest') := by
    obtain ⟨name, isName, _⟩ := (names st.segIndex (st.segStartAddr + st.segOffset)).exists
    rw [sectionNameHere, isName]
    refine (recordStore_core pass name st).bind ?_
    rintro next core rfl
    exact tail next
  unfold recordOpcode
  generalize isCode : opcode.toNat = code
  split
  all_goals rw [bindOpcode, isCode]
  · exact .some ⟨rfl, rfl⟩
  · exact ordinal _ _
  · exact Related.same_bind fun next _ => ordinal _ _
  · exact ordinal _ _
  · exact Related.same_bind fun name _ => .some ⟨rfl, rfl⟩
  · exact .some ⟨rfl, rfl⟩
  · exact Related.same_bind fun next _ => .some ⟨rfl, rfl⟩
  · exact Related.same_bind fun vmaddr _ => Related.same_bind fun next _ => .some ⟨rfl, rfl⟩
  · exact Related.same_bind fun next _ => .some ⟨rfl, rfl⟩
  · exact stored fun next => .some ⟨rfl, rfl⟩
  · exact stored fun next => Related.same_bind fun delta _ => .some ⟨rfl, rfl⟩
  · exact stored fun next => .some ⟨rfl, rfl⟩
  · refine Related.same_bind fun count _ => Related.same_bind fun skip _ => ?_
    obtain ⟨name, isName, _⟩ := (names st.segIndex (st.segStartAddr + st.segOffset)).exists
    rw [sectionNameHere, isName]
    refine (recordRepeat_core pass name _ _ st).bind ?_
    rintro next core rfl
    exact .some ⟨rfl, rfl⟩
  · -- no other opcode is known to either decoder
    have unknown : SameNext none none := .none
    split
    all_goals first | contradiction | exact unknown

theorem recordLoop_core
    (names : ∀ segIndex address, Returns (sectionName mem segIndex address segs) fun _ => True)
    (pass : BindPass) (fuel : Nat) (p : U32) (st : BindVars) :
    Related (Option.Rel fun st' core => st'.core = core) (recordLoop mem segs dylibs stop pass fuel p st)
      (bindLoop mem segs stop pass fuel p st.core) := by
  induction fuel generalizing p st with
  | zero => exact rfl
  | succ fuel ih =>
    have done : st.core.done = st.done := rfl
    rw [recordLoop, bindLoop, done]
    split
    · exact .some rfl
    · refine Related.same_bind fun byte _ => (recordOpcode_core names pass _ _ _ st).bind ?_
      intro next core more
      cases more with
      | none => exact .none
      | @some next core both =>
        obtain ⟨q, st'⟩ := next
        obtain ⟨q', core⟩ := core
        obtain ⟨rfl, rfl⟩ := both
        exact ih q st'

theorem recordRun_core
    (names : ∀ segIndex address, Returns (sectionName mem segIndex address segs) fun _ => True)
    (start : U32) (pass : BindPass) :
    Related (Option.Rel fun st core => st.core = core) (recordRun mem segs dylibs start stop pass)
      (bindRun mem segs start stop pass) := recordLoop_core names pass _ start {}

end

/-- On an image that was accepted, the decoder with all the names faults and returns exactly as the one without them,
also where it has no names of libraries. Its records are those that the opcodes make: the place and the symbol, the
segment, the section of this segment that has the address (of the first place in a repetition), and the type, the
library and the flag that were set last. -/
theorem getDyldBindRecords_erases {malloc : Malloc} {mem : Mem} {lib : LibraryInfo} {st : MachoParse}
    (parse : machoParse mem lib = .ok st) (dylibs : List U32) (start stop : U32) :
    Related (Option.Rel fun records core =>
        records.1.map DyldBindRecord.toDyldBindInfo = core.1 ∧ records.2 = core.2 ∧
          ∃ ops, bindOps mem st.segs start stop = .ok (some ops) ∧
            List.Forall₂ (DyldBindRecord.Made st.segs dylibs st.lib.machoVmranges) (opsOrigins ops {} {}) records.1)
      (getDyldBindRecords malloc mem start stop dylibs st.segs) (getDyldBindInfo malloc mem start stop st.segs) := by
  have table := ((machoParse_valid mem lib).of_ok parse).1.table
  have names (segIndex : U8) (address : U64) := sectionName_named table (machoParse_covers parse) segIndex address
  have returns (segIndex : U8) (address : U64) :
      Returns (sectionName mem segIndex address st.segs) fun _ => True :=
    (names segIndex address).imp fun _ _ => trivial
  refine (recordRun_core returns start .count).left_ok.bind ?_
  rintro counted core ⟨counting, same⟩
  obtain ⟨decoded, read, first⟩ := recordRun_makes names counting
  cases same with
  | none => exact .none
  | @some counted core same =>
    obtain rfl := same
    cases first with
    | @some _ ops _ =>
      refine (recordRun_core returns start (allocate malloc (counted.n * sizeofDyldBindInfo % 2 ^ 32))).left_ok.bind ?_
      rintro stored core ⟨storing, same⟩
      obtain ⟨decoded, readAgain, second⟩ := recordRun_makes names storing
      cases read.symm.trans readAgain
      cases second with
      | some made =>
        cases same with
        | some same =>
          obtain rfl := same
          exact .some ⟨rfl, rfl, ops, read, made nofun⟩

/-- An image that binds `a` at the only section, and again 20 bytes further, behind the section. -/
def repeatImage : Mem :=
  imageMem [dyldInfoCommand, segmentCommand, symtabCommand] [0x70006140, 0x1002c010, 0x00000000]

theorem repeatImage_names : ∃ st, machoParse repeatImage imageLib = .ok st ∧
    Related (Option.Rel fun records core =>
        records.1.map DyldBindRecord.toDyldBindInfo = core.1 ∧ records.2 = core.2 ∧
          ∃ ops, bindOps repeatImage st.segs 0x10e0 0x10e9 = .ok (some ops) ∧
            List.Forall₂ (DyldBindRecord.Made st.segs [] st.lib.machoVmranges) (opsOrigins ops {} {}) records.1)
      (getDyldBindRecords emptyHeap repeatImage 0x10e0 0x10e9 [] st.segs)
      (getDyldBindInfo emptyHeap repeatImage 0x10e0 0x10e9 st.segs) ∧
    (getDyldBindRecords emptyHeap repeatImage 0x10e0 0x10e9 [] st.segs).map (Option.map fun records =>
        records.1.map fun record => (record.address, record.segname, record.sectname)) =
      .ok (some [(0x2010, .mapped 0x1054, .mapped 0x1084), (0x2024, .mapped 0x1054, .mapped 0x1084)]) := by
  have segs : (machoParse repeatImage imageLib).map MachoParse.segs = .ok [0x104c] := by decide +kernel
  cases parse : machoParse repeatImage imageLib with
  | error fault =>
    rw [parse] at segs
    cases segs
  | ok st =>
    refine ⟨st, rfl, getDyldBindRecords_erases parse [] 0x10e0 0x10e9, ?_⟩
    rw [parse] at segs
    rw [Except.ok.inj segs]
    decide +kernel

end Classgraph
