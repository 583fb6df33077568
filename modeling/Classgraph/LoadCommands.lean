import Mathlib.Tactic.MkIffOfInductiveProp
import Classgraph.VmRanges

namespace Classgraph
open Run Machine

/-- The fields of `struct section` that are read. -/
structure SectionData where
  addr : U32
  size : U32
  offset : U32
  flags : U32

/-- The fields of `struct segment_command` that are read, and its section headers. -/
structure SegmentData where
  vmaddr : U32
  vmsize : U32
  fileoff : U32
  filesize : U32
  sections : List SectionData

structure SymtabData where
  symoff : U32
  nsyms : U32
  stroff : U32
  strsize : U32

structure DysymtabData where
  extreloff : U32
  nextrel : U32

structure DyldInfoData where
  rebaseOff : U32
  rebaseSize : U32
  bindOff : U32
  bindSize : U32
  weakBindOff : U32
  weakBindSize : U32
  lazyBindOff : U32
  lazyBindSize : U32
  exportOff : U32
  exportSize : U32

/-- What a load command holds behind its kind and its size. -/
inductive CommandBody
  | segment (data : SegmentData)
  | symtab (data : SymtabData)
  | dysymtab (data : DysymtabData)
  | dyldInfo (data : DyldInfoData)
  | other

/-- The size of the structure, for a segment with the section headers behind it. -/
def CommandBody.minSize : CommandBody → Nat
  | .segment data => SegmentCommand.sizeOf.toNat + Section.sizeOf.toNat * data.sections.length
  | .symtab _ => 24
  | .dysymtab _ => 80
  | .dyldInfo _ => 48
  | .other => 8

/-- The body is the one that a kind stands for, once `LC_REQ_DYLD` is masked out. -/
def CommandBody.HasKind (kind : U32) : CommandBody → Prop
  | .segment _ => kind = lcSegment
  | .symtab _ => kind = lcSymtab
  | .dysymtab _ => kind = lcDysymtab
  | .dyldInfo _ => kind = lcDyldInfo
  | .other => kind ≠ lcSegment ∧ kind ≠ lcSymtab ∧ kind ≠ lcDysymtab ∧ kind ≠ lcDyldInfo

/-- A load command that is well formed: `cmdsize` covers its structure. -/
structure Command where
  cmd : U32
  cmdsize : U32
  body : CommandBody
  kind : body.HasKind (cmd &&& ~~~lcReqDyld)
  size : body.minSize ≤ cmdsize.toNat

/-! Load commands in memory. -/

@[mk_iff]
structure SectionData.StoredAt (mem : Mem) (p : U32) (sect : SectionData) : Prop where
  addr : Section.addr mem p = .ok sect.addr
  size : Section.size mem p = .ok sect.size
  offset : Section.offset mem p = .ok sect.offset
  flags : Section.flags mem p = .ok sect.flags

def SectionsStored (mem : Mem) : U32 → List SectionData → Prop
  | _, [] => True
  | p, sect :: rest => sect.StoredAt mem p ∧ SectionsStored mem (p + Section.sizeOf) rest

@[mk_iff]
structure SegmentData.StoredAt (mem : Mem) (p : U32) (seg : SegmentData) : Prop where
  vmaddr : SegmentCommand.vmaddr mem p = .ok seg.vmaddr
  vmsize : SegmentCommand.vmsize mem p = .ok seg.vmsize
  fileoff : SegmentCommand.fileoff mem p = .ok seg.fileoff
  filesize : SegmentCommand.filesize mem p = .ok seg.filesize
  nsects : SegmentCommand.nsects mem p = .ok (BitVec.ofNat 32 seg.sections.length)
  sections : SectionsStored mem (p + SegmentCommand.sizeOf) seg.sections

@[mk_iff]
structure SymtabData.StoredAt (mem : Mem) (p : U32) (data : SymtabData) : Prop where
  symoff : SymtabCommand.symoff mem p = .ok data.symoff
  nsyms : SymtabCommand.nsyms mem p = .ok data.nsyms
  stroff : SymtabCommand.stroff mem p = .ok data.stroff
  strsize : SymtabCommand.strsize mem p = .ok data.strsize

@[mk_iff]
structure DysymtabData.StoredAt (mem : Mem) (p : U32) (data : DysymtabData) : Prop where
  extreloff : DysymtabCommand.extreloff mem p = .ok data.extreloff
  nextrel : DysymtabCommand.nextrel mem p = .ok data.nextrel

@[mk_iff]
structure DyldInfoData.StoredAt (mem : Mem) (p : U32) (data : DyldInfoData) : Prop where
  rebaseOff : DyldInfoCommand.rebaseOff mem p = .ok data.rebaseOff
  rebaseSize : DyldInfoCommand.rebaseSize mem p = .ok data.rebaseSize
  bindOff : DyldInfoCommand.bindOff mem p = .ok data.bindOff
  bindSize : DyldInfoCommand.bindSize mem p = .ok data.bindSize
  weakBindOff : DyldInfoCommand.weakBindOff mem p = .ok data.weakBindOff
  weakBindSize : DyldInfoCommand.weakBindSize mem p = .ok data.weakBindSize
  lazyBindOff : DyldInfoCommand.lazyBindOff mem p = .ok data.lazyBindOff
  lazyBindSize : DyldInfoCommand.lazyBindSize mem p = .ok data.lazyBindSize
  exportOff : DyldInfoCommand.exportOff mem p = .ok data.exportOff
  exportSize : DyldInfoCommand.exportSize mem p = .ok data.exportSize

def CommandBody.StoredAt (mem : Mem) (p : U32) : CommandBody → Prop
  | .segment data => data.StoredAt mem p
  | .symtab data => data.StoredAt mem p
  | .dysymtab data => data.StoredAt mem p
  | .dyldInfo data => data.StoredAt mem p
  | .other => True

@[mk_iff]
structure Command.StoredAt (mem : Mem) (p : U32) (command : Command) : Prop where
  cmd : LoadCommand.cmd mem p = .ok command.cmd
  cmdsize : LoadCommand.cmdsize mem p = .ok command.cmdsize
  body : command.body.StoredAt mem p

/-- The commands one behind the other, each as long as its `cmdsize`. -/
def CommandsStored (mem : Mem) : U32 → List Command → Prop
  | _, [] => True
  | p, command :: rest => command.StoredAt mem p ∧ CommandsStored mem (p + command.cmdsize) rest

section

variable (mem : Mem)

instance (p : U32) (sect : SectionData) : Decidable (sect.StoredAt mem p) :=
  decidable_of_iff' _ (SectionData.storedAt_iff mem p sect)

instance decidableSectionsStored (p : U32) : (sections : List SectionData) → Decidable (SectionsStored mem p sections)
  | [] => isTrue trivial
  | _ :: rest => @instDecidableAnd _ _ _ (decidableSectionsStored (p + Section.sizeOf) rest)

instance (p : U32) (seg : SegmentData) : Decidable (seg.StoredAt mem p) :=
  decidable_of_iff' _ (SegmentData.storedAt_iff mem p seg)

instance (p : U32) (data : SymtabData) : Decidable (data.StoredAt mem p) :=
  decidable_of_iff' _ (SymtabData.storedAt_iff mem p data)

instance (p : U32) (data : DysymtabData) : Decidable (data.StoredAt mem p) :=
  decidable_of_iff' _ (DysymtabData.storedAt_iff mem p data)

instance (p : U32) (data : DyldInfoData) : Decidable (data.StoredAt mem p) :=
  decidable_of_iff' _ (DyldInfoData.storedAt_iff mem p data)

instance (p : U32) : (body : CommandBody) → Decidable (body.StoredAt mem p)
  | .segment data => inferInstanceAs (Decidable (data.StoredAt mem p))
  | .symtab data => inferInstanceAs (Decidable (data.StoredAt mem p))
  | .dysymtab data => inferInstanceAs (Decidable (data.StoredAt mem p))
  | .dyldInfo data => inferInstanceAs (Decidable (data.StoredAt mem p))
  | .other => isTrue trivial

instance (p : U32) (command : Command) : Decidable (command.StoredAt mem p) :=
  decidable_of_iff' _ (Command.storedAt_iff mem p command)

instance decidableCommandsStored (p : U32) : (commands : List Command) → Decidable (CommandsStored mem p commands)
  | [] => isTrue trivial
  | command :: rest => @instDecidableAnd _ _ _ (decidableCommandsStored (p + command.cmdsize) rest)

end

/-- A mach header that announces so many commands. -/
structure HeaderStored (mem : Mem) (p : U32) (count : Nat) : Prop where
  magic : ∃ magic, MachHeader.magic mem p = .ok magic
  cputype : ∃ cputype, MachHeader.cputype mem p = .ok cputype
  cpusubtype : ∃ cpusubtype, MachHeader.cpusubtype mem p = .ok cpusubtype
  filetype : ∃ filetype, MachHeader.filetype mem p = .ok filetype
  ncmds : ∃ ncmds, MachHeader.ncmds mem p = .ok ncmds ∧ ncmds.toNat = count

/-! What a list of commands means. -/

/-- The commands with their addresses. -/
def placed : U32 → List Command → List (U32 × Command)
  | _, [] => []
  | p, command :: rest => (p, command) :: placed (p + command.cmdsize) rest

def SegmentData.isMapped (seg : SegmentData) (sect : SectionData) : Bool :=
  seg.filesize ≠ 0 ∧ sect.flags &&& sectionType ≠ sZerofill

/-- The entry of section `j` of the segment at `segCmd` with the number `i`. -/
def SegmentData.entry (seg : SegmentData) (segCmd : U32) (i j : Nat) (sect : SectionData) : MachoVmrange where
  isMapped := seg.isMapped sect
  vmAddrBegin := sect.addr
  vmAddrEnd := sect.addr + sect.size
  mapOffBegin := sect.offset
  mapOffEnd := sect.offset + sect.size
  pSegment := segCmd
  pSection := segCmd + SegmentCommand.sizeOf + Section.sizeOf * BitVec.ofNat 32 j
  segmentIdx := i
  sectionIdx := j

def SegmentData.entries (seg : SegmentData) (segCmd : U32) (i : Nat) : List MachoVmrange :=
  seg.sections.zipIdx.map fun place => seg.entry segCmd i place.2 place.1

def Command.segment? (command : Command) : Option SegmentData :=
  match command.body with
  | .segment data => some data
  | _ => none

def Command.symtab? (command : Command) : Option SymtabData :=
  match command.body with
  | .symtab data => some data
  | _ => none

def Command.dysymtab? (command : Command) : Option DysymtabData :=
  match command.body with
  | .dysymtab data => some data
  | _ => none

def Command.dyldInfo? (command : Command) : Option DyldInfoData :=
  match command.body with
  | .dyldInfo data => some data
  | _ => none

/-- The segments with their addresses. -/
def segments (p : U32) (commands : List Command) : List (U32 × SegmentData) :=
  (placed p commands).filterMap fun place => place.2.segment?.map fun data => (place.1, data)

/-- The entries of segments that are numbered from `i` on. -/
def segmentEntries (i : Nat) (segments : List (U32 × SegmentData)) : List MachoVmrange :=
  (segments.zipIdx i).flatMap fun place => place.1.2.entries place.1.1 place.2

/-- A library entry with the tables of the given commands, where there are such. -/
def LibraryInfo.withTables (lib : LibraryInfo) (symtab : Option SymtabData) (dysymtab : Option DysymtabData)
    (dyldInfo : Option DyldInfoData) : LibraryInfo :=
  { lib with
    machoSymtabOff := symtab.elim lib.machoSymtabOff SymtabData.symoff
    machoSymtabCount := symtab.elim lib.machoSymtabCount SymtabData.nsyms
    machoStrtabOff := symtab.elim lib.machoStrtabOff SymtabData.stroff
    machoStrtabSize := symtab.elim lib.machoStrtabSize SymtabData.strsize
    machoExtRelocOff := dysymtab.elim lib.machoExtRelocOff DysymtabData.extreloff
    machoExtRelocCount := dysymtab.elim lib.machoExtRelocCount DysymtabData.nextrel
    machoHasDyldInfo := dyldInfo.elim lib.machoHasDyldInfo fun _ => true
    machoRebaseOff := dyldInfo.elim lib.machoRebaseOff DyldInfoData.rebaseOff
    machoRebaseSize := dyldInfo.elim lib.machoRebaseSize DyldInfoData.rebaseSize
    machoBindOff := dyldInfo.elim lib.machoBindOff DyldInfoData.bindOff
    machoBindSize := dyldInfo.elim lib.machoBindSize DyldInfoData.bindSize
    machoWeakBindOff := dyldInfo.elim lib.machoWeakBindOff DyldInfoData.weakBindOff
    machoWeakBindSize := dyldInfo.elim lib.machoWeakBindSize DyldInfoData.weakBindSize
    machoLazyBindOff := dyldInfo.elim lib.machoLazyBindOff DyldInfoData.lazyBindOff
    machoLazyBindSize := dyldInfo.elim lib.machoLazyBindSize DyldInfoData.lazyBindSize
    machoExportOff := dyldInfo.elim lib.machoExportOff DyldInfoData.exportOff
    machoExportSize := dyldInfo.elim lib.machoExportSize DyldInfoData.exportSize }

/-- The state after the commands: the last table of each kind, and all segments in their order. -/
def commandsResult (p : U32) (commands : List Command) (st : MachoParse) : MachoParse where
  lib := { st.lib.withTables (commands.filterMap Command.symtab?).getLast?
      (commands.filterMap Command.dysymtab?).getLast? (commands.filterMap Command.dyldInfo?).getLast? with
    machoVmranges := st.lib.machoVmranges ++ segmentEntries st.segs.length (segments p commands) }
  segs := st.segs ++ (segments p commands).map Prod.fst

/-- The state of the command loop before the first command. -/
def parseStart (slice : LibraryInfo) : MachoParse := { lib := { slice with machoVmranges := [] }, segs := [] }

/-- The state after the commands behind the mach header. -/
abbrev parseResult (slice : LibraryInfo) (commands : List Command) : MachoParse :=
  commandsResult (slice.map + MachHeader.sizeOf) commands (parseStart slice)

/-! What the assertions ask for. -/

def IsAssertion (fault : Fault) : Prop := ∃ site, fault = .assertion site

structure SegmentData.SectionFits (seg : SegmentData) (sect : SectionData) : Prop where
  aboveSegment : seg.vmaddr ≤ sect.addr
  belowSegment : sect.addr ≤ seg.vmaddr + seg.vmsize
  endsInSegment : sect.addr + sect.size ≤ seg.vmaddr + seg.vmsize
  offsets : seg.isMapped sect = true → seg.fileoff ≤ sect.offset ∧ sect.offset ≤ seg.fileoff + seg.filesize ∧
    sect.offset + sect.size ≤ seg.fileoff + seg.filesize

/-- What is asked of a command by itself. -/
def Command.Fits (size : U32) (command : Command) : Prop :=
  ∀ seg, command.segment? = some seg → seg.fileoff + seg.filesize ≤ size ∧ ∀ sect ∈ seg.sections, seg.SectionFits sect

def MachoVmrange.Apart (left right : MachoVmrange) : Prop :=
  left.vmAddrEnd ≤ right.vmAddrBegin ∨ right.vmAddrEnd ≤ left.vmAddrBegin

instance (left right : MachoVmrange) : Decidable (left.Apart right) := inferInstanceAs (Decidable (_ ∨ _))

/-- What is asked of the tables as a whole. -/
structure VmrangesFit (vmranges : List MachoVmrange) : Prop where
  count : vmranges.length ≤ maxVmranges
  apart : vmranges.Pairwise MachoVmrange.Apart

structure MachoParse.Fits (st : MachoParse) : Prop where
  vmranges : VmrangesFit st.lib.machoVmranges
  segs : st.segs.length ≤ maxSegs

theorem MachoVmrange.Apart.symm {left right : MachoVmrange} (apart : left.Apart right) : right.Apart left :=
  Or.symm apart

/-- Entries fit only if the first ones of them do. -/
theorem VmrangesFit.of_append {vmranges more : List MachoVmrange} (fit : VmrangesFit (vmranges ++ more)) :
    VmrangesFit vmranges := by
  have count := fit.count
  rw [List.length_append] at count
  exact ⟨by omega, (List.pairwise_append.mp fit.apart).1⟩

theorem VmrangesFit.append_iff {vmranges : List MachoVmrange} {vmrange : MachoVmrange} (fit : VmrangesFit vmranges) :
    VmrangesFit (vmranges ++ [vmrange]) ↔ vmranges.length < maxVmranges ∧ ∀ other ∈ vmranges, vmrange.Apart other := by
  constructor
  · intro both
    have count := both.count
    rw [List.length_append, List.length_singleton] at count
    refine ⟨count, ?_⟩
    intro other member
    exact ((List.pairwise_append.mp both.apart).2.2 other member vmrange (List.mem_singleton_self _)).symm
  · intro room
    refine ⟨?_, ?_⟩
    · rw [List.length_append, List.length_singleton]
      exact room.1
    · refine List.pairwise_append.mpr ⟨fit.apart, List.pairwise_singleton _ _, ?_⟩
      intro other member new isNew
      rw [List.mem_singleton.mp isNew]
      exact (room.2 other member).symm

theorem check_decides (site : Assertion) {condition : Prop} [Decidable condition] :
    Decides IsAssertion condition (check site (decide condition)) () := by
  refine ⟨?_, ?_⟩
  · intro holds
    exact if_pos (decide_eq_true holds)
  · intro refused
    exact ⟨_, if_neg fun holds => refused (of_decide_eq_true holds), site, rfl⟩

section

variable {mem : Mem} {segCmd p : U32} {seg : SegmentData} {sect : SectionData}

theorem sectionIsMapped_eq (stored : seg.StoredAt mem segCmd) (sectStored : sect.StoredAt mem p) :
    sectionIsMapped mem segCmd p = .ok (seg.isMapped sect) := by
  rw [sectionIsMapped, stored.filesize]
  simp only [bind, Except.bind, sectStored.flags]
  by_cases empty : seg.filesize = 0
  · simp [SegmentData.isMapped, empty, pure, Except.pure]
  · rw [if_pos empty, SegmentData.isMapped]
    simp only [ne_eq, empty, not_false_iff, true_and]
    rfl

theorem sectionAddrs_decides (stored : seg.StoredAt mem segCmd) (sectStored : sect.StoredAt mem p) :
    Decides IsAssertion (seg.vmaddr ≤ sect.addr ∧ sect.addr ≤ seg.vmaddr + seg.vmsize ∧
      sect.addr + sect.size ≤ seg.vmaddr + seg.vmsize) (sectionAddrs mem segCmd p) (sect.addr, sect.size) := by
  refine Decides.after sectStored.addr (Decides.after stored.vmaddr ?_)
  refine (check_decides _).bind fun _ => Decides.after stored.vmsize ?_
  refine (check_decides _).bind fun _ => Decides.after sectStored.size ?_
  exact (check_decides _).andThen rfl

theorem sectionOffsets_decides (stored : seg.StoredAt mem segCmd) (sectStored : sect.StoredAt mem p) :
    Decides IsAssertion (seg.fileoff ≤ sect.offset ∧ sect.offset ≤ seg.fileoff + seg.filesize ∧
      sect.offset + sect.size ≤ seg.fileoff + seg.filesize) (sectionOffsets mem segCmd p) () := by
  refine Decides.after sectStored.offset (Decides.after stored.fileoff ?_)
  refine (check_decides _).bind fun _ => Decides.after stored.filesize ?_
  exact (check_decides _).bind fun _ => Decides.after sectStored.size (check_decides _)

/-- A section that fits adds its entry to the table. -/
theorem machoSection_decides {i j : Nat} {vmranges : List MachoVmrange} (stored : seg.StoredAt mem segCmd)
    (sectStored : sect.StoredAt mem p) (fit : VmrangesFit vmranges)
    (place : p = segCmd + SegmentCommand.sizeOf + Section.sizeOf * BitVec.ofNat 32 j) :
    Decides IsAssertion (seg.SectionFits sect ∧ VmrangesFit (vmranges ++ [seg.entry segCmd i j sect]))
      (machoSection mem segCmd i j p vmranges) (vmranges ++ [seg.entry segCmd i j sect]) := by
  have isEntry : ({
      isMapped := seg.isMapped sect
      vmAddrBegin := sect.addr
      vmAddrEnd := sect.addr + sect.size
      mapOffBegin := sect.offset
      mapOffEnd := sect.offset + sect.size
      pSegment := segCmd
      pSection := p
      segmentIdx := i
      sectionIdx := j } : MachoVmrange) = seg.entry segCmd i j sect := by
    rw [place]
    rfl
  have overlap : (vmranges.all fun other => sect.addr + sect.size ≤ other.vmAddrBegin ∨ other.vmAddrEnd ≤ sect.addr) =
      decide (∀ other ∈ vmranges, (seg.entry segCmd i j sect).Apart other) := by
    rw [Bool.eq_iff_iff, List.all_eq_true, decide_eq_true_iff]
    simp only [decide_eq_true_iff]
    rfl
  have last (room : vmranges.length < maxVmranges) :
      Decides IsAssertion (∀ other ∈ vmranges, (seg.entry segCmd i j sect).Apart other) (do
        let offset ← Section.offset mem p
        check .noOverlap (vmranges.all fun other =>
          sect.addr + sect.size ≤ other.vmAddrBegin ∨ other.vmAddrEnd ≤ sect.addr)
        store .vmranges maxVmranges vmranges
          { isMapped := seg.isMapped sect
            vmAddrBegin := sect.addr
            vmAddrEnd := sect.addr + sect.size
            mapOffBegin := offset
            mapOffEnd := offset + sect.size
            pSegment := segCmd
            pSection := p
            segmentIdx := i
            sectionIdx := j }) (vmranges ++ [seg.entry segCmd i j sect]) := by
    have stores : store .vmranges maxVmranges vmranges (seg.entry segCmd i j sect) =
        .ok (vmranges ++ [seg.entry segCmd i j sect]) := if_pos room
    refine Decides.after sectStored.offset ?_
    rw [overlap, isEntry]
    exact (check_decides _).andThen stores
  have run : Decides IsAssertion (vmranges.length < maxVmranges ∧
      (seg.vmaddr ≤ sect.addr ∧ sect.addr ≤ seg.vmaddr + seg.vmsize ∧
        sect.addr + sect.size ≤ seg.vmaddr + seg.vmsize) ∧
      (seg.isMapped sect = true → seg.fileoff ≤ sect.offset ∧ sect.offset ≤ seg.fileoff + seg.filesize ∧
        sect.offset + sect.size ≤ seg.fileoff + seg.filesize) ∧
      ∀ other ∈ vmranges, (seg.entry segCmd i j sect).Apart other)
      (machoSection mem segCmd i j p vmranges) (vmranges ++ [seg.entry segCmd i j sect]) := by
    refine (check_decides _).bind fun room => Decides.after (sectionIsMapped_eq stored sectStored) ?_
    refine (sectionAddrs_decides stored sectStored).bind fun _ => ?_
    have last := last room
    dsimp only
    cases isMapped : seg.isMapped sect with
    | true =>
      rw [isMapped] at last
      exact ((sectionOffsets_decides stored sectStored).bind fun _ => last).congr (by simp)
    | false =>
      rw [isMapped] at last
      exact last.congr (by simp)
  refine run.congr ?_
  rw [fit.append_iff]
  constructor
  · intro accepted
    obtain ⟨room, addrs, offsets, apart⟩ := accepted
    exact ⟨⟨addrs.1, addrs.2.1, addrs.2.2, offsets⟩, room, apart⟩
  · intro both
    obtain ⟨fits, room, apart⟩ := both
    exact ⟨room, ⟨fits.aboveSegment, fits.belowSegment, fits.endsInSegment⟩, fits.offsets, apart⟩

/-- The section loop, from section `j` on. -/
theorem machoSections_decides {i j : Nat} {sections : List SectionData} {vmranges : List MachoVmrange}
    (stored : seg.StoredAt mem segCmd) (sectionsStored : SectionsStored mem p sections) (fit : VmrangesFit vmranges)
    (place : p = segCmd + SegmentCommand.sizeOf + Section.sizeOf * BitVec.ofNat 32 j) :
    Decides IsAssertion ((∀ sect ∈ sections, seg.SectionFits sect) ∧
        VmrangesFit (vmranges ++ (sections.zipIdx j).map fun place => seg.entry segCmd i place.2 place.1))
      (machoSections mem segCmd i sections.length j p vmranges)
      (vmranges ++ (sections.zipIdx j).map fun place => seg.entry segCmd i place.2 place.1) := by
  induction sections generalizing j p vmranges with
  | nil =>
    rw [List.zipIdx_nil, List.map_nil, List.append_nil]
    exact (Decides.of_ok rfl).congr (iff_of_true trivial ⟨List.forall_mem_nil _, fit⟩)
  | cons sect rest ih =>
    obtain ⟨sectStored, restStored⟩ := sectionsStored
    have next : p + Section.sizeOf = segCmd + SegmentCommand.sizeOf + Section.sizeOf * BitVec.ofNat 32 (j + 1) := by
      rw [place, entry_succ]
    rw [List.zipIdx_cons, List.map_cons, List.append_cons]
    refine Decides.congr ((machoSection_decides stored sectStored fit place).bind fun accepted =>
      ih restStored accepted.2 next) ?_
    rw [List.forall_mem_cons]
    constructor
    · intro both
      exact ⟨⟨both.1.1, both.2.1⟩, both.2.2⟩
    · intro both
      exact ⟨⟨both.1.1, both.2.of_append⟩, both.1.2, both.2⟩

end

theorem elim_or {α β : Type} (last first : Option α) (default : β) (value : α → β) :
    (last.or first).elim default value = last.elim (first.elim default value) value := by
  cases last with
  | none => rfl
  | some data => rfl

/-- Later tables take the place of earlier ones. -/
theorem withTables_withTables (lib : LibraryInfo) (symtab symtab' : Option SymtabData)
    (dysymtab dysymtab' : Option DysymtabData) (dyldInfo dyldInfo' : Option DyldInfoData) :
    (lib.withTables symtab dysymtab dyldInfo).withTables symtab' dysymtab' dyldInfo' =
      lib.withTables (symtab'.or symtab) (dysymtab'.or dysymtab) (dyldInfo'.or dyldInfo) := by
  simp only [LibraryInfo.withTables, elim_or]

theorem segments_cons (p : U32) (command : Command) (rest : List Command) :
    segments p (command :: rest) = segments p [command] ++ segments (p + command.cmdsize) rest :=
  List.filterMap_append (l := [(p, command)])

theorem segmentEntries_append (i : Nat) (first rest : List (U32 × SegmentData)) :
    segmentEntries i (first ++ rest) = segmentEntries i first ++ segmentEntries (i + first.length) rest := by
  rw [segmentEntries, List.zipIdx_append, List.flatMap_append]
  rfl

theorem filterMap_getLast? {α : Type} (select : Command → Option α) (command : Command) (rest : List Command) :
    ((command :: rest).filterMap select).getLast? =
      (rest.filterMap select).getLast?.or ([command].filterMap select).getLast? := by
  rw [← List.singleton_append, List.filterMap_append, List.getLast?_append]

/-- The commands one after the other. -/
theorem commandsResult_cons (p : U32) (command : Command) (rest : List Command) (st : MachoParse) :
    commandsResult p (command :: rest) st =
      commandsResult (p + command.cmdsize) rest (commandsResult p [command] st) := by
  have lib : (commandsResult p (command :: rest) st).lib =
      (commandsResult (p + command.cmdsize) rest (commandsResult p [command] st)).lib := by
    simp only [commandsResult, filterMap_getLast? _ command rest, segments_cons p command rest, segmentEntries_append,
      ← withTables_withTables, List.length_append, List.length_map, List.append_assoc]
    rfl
  have segs : (commandsResult p (command :: rest) st).segs =
      (commandsResult (p + command.cmdsize) rest (commandsResult p [command] st)).segs := by
    simp only [commandsResult, segments_cons p command rest, List.map_append, List.append_assoc]
  exact congrArg₂ MachoParse.mk lib segs

/-- The tables fit only if those before the last commands do. -/
theorem MachoParse.Fits.of_commandsResult {p : U32} {commands : List Command} {st : MachoParse}
    (fit : (commandsResult p commands st).Fits) : st.Fits := by
  have count := fit.segs
  rw [commandsResult, List.length_append] at count
  exact ⟨fit.vmranges.of_append, by omega⟩

section

variable {mem : Mem} {p : U32} {st : MachoParse}

theorem machoSegment_decides {seg : SegmentData} (stored : seg.StoredAt mem p)
    (counted : seg.sections.length < 2 ^ 32) (fit : st.Fits) :
    Decides IsAssertion
      ((seg.fileoff + seg.filesize ≤ st.lib.size ∧ ∀ sect ∈ seg.sections, seg.SectionFits sect) ∧
        VmrangesFit (st.lib.machoVmranges ++ seg.entries p st.segs.length) ∧ (st.segs ++ [p]).length ≤ maxSegs)
      (machoSegment mem p st)
      { lib := { st.lib with machoVmranges := st.lib.machoVmranges ++ seg.entries p st.segs.length },
        segs := st.segs ++ [p] } := by
  have count : (BitVec.ofNat 32 seg.sections.length).toNat = seg.sections.length := Nat.mod_eq_of_lt counted
  have start : p + SegmentCommand.sizeOf =
      p + SegmentCommand.sizeOf + Section.sizeOf * BitVec.ofNat 32 0 := by simp
  have run : Decides IsAssertion (seg.fileoff + seg.filesize ≤ st.lib.size ∧
      ((∀ sect ∈ seg.sections, seg.SectionFits sect) ∧
        VmrangesFit (st.lib.machoVmranges ++ seg.entries p st.segs.length)) ∧ st.segs.length < maxSegs)
      (machoSegment mem p st)
      { lib := { st.lib with machoVmranges := st.lib.machoVmranges ++ seg.entries p st.segs.length },
        segs := st.segs ++ [p] } := by
    refine Decides.after stored.fileoff (Decides.after stored.filesize ?_)
    refine (check_decides _).bind fun _ => Decides.after stored.nsects ?_
    rw [count]
    refine (machoSections_decides stored stored.sections fit.vmranges start).bind fun _ => ?_
    refine (Decides.bind (check_decides _) fun room => ?_).congr (and_iff_left trivial)
    have stores : store .segs maxSegs st.segs p = .ok (st.segs ++ [p]) := if_pos room
    exact Decides.after stores (.of_ok rfl)
  refine run.congr ?_
  rw [List.length_append, List.length_singleton]
  tauto

/-- A command that is no segment fills in fields of the library entry. -/
theorem commandsResult_tables {command : Command} (other : command.segment? = none) :
    commandsResult p [command] st =
      { st with lib := st.lib.withTables command.symtab? command.dysymtab? command.dyldInfo? } := by
  have noSegments : segments p [command] = [] := by simp [segments, placed, other]
  have only {α : Type} (select : Command → Option α) : ([command].filterMap select).getLast? = select command := by
    cases selected : select command <;> simp [selected]
  simp only [commandsResult, noSegments, only, segmentEntries, List.zipIdx_nil, List.flatMap_nil, List.map_nil,
    List.append_nil]
  rfl

theorem tables_decides {command : Command} {run : Except Fault MachoParse} (other : command.segment? = none)
    (fit : st.Fits) (returned : run =
      .ok { st with lib := st.lib.withTables command.symtab? command.dysymtab? command.dyldInfo? }) :
    Decides IsAssertion (command.Fits st.lib.size ∧ (commandsResult p [command] st).Fits) run
      (commandsResult p [command] st) := by
  rw [commandsResult_tables other]
  refine (Decides.of_ok returned).congr (iff_of_true trivial ⟨?_, ?_⟩)
  · intro seg isSegment
    rw [other] at isSegment
    cases isSegment
  · exact ⟨fit.vmranges, fit.segs⟩

/-- With `LC_REQ_DYLD` masked out no kind is `LC_DYLD_INFO_ONLY`. -/
theorem masked_ne_dyldInfoOnly (cmd : U32) : cmd &&& ~~~lcReqDyld ≠ lcDyldInfoOnly := by
  intro same
  have bit := congrArg (fun kind : U32 => kind.getLsbD 31) same
  simp [lcReqDyld, lcDyldInfoOnly] at bit

theorem machoSymtab_eq {data : SymtabData} (stored : data.StoredAt mem p) (lib : LibraryInfo) :
    machoSymtab mem p lib = .ok (lib.withTables (some data) none none) := by
  rw [machoSymtab, stored.symoff, stored.nsyms, stored.stroff, stored.strsize]
  rfl

theorem machoDysymtab_eq {data : DysymtabData} (stored : data.StoredAt mem p) (lib : LibraryInfo) :
    machoDysymtab mem p lib = .ok (lib.withTables none (some data) none) := by
  rw [machoDysymtab, stored.extreloff, stored.nextrel]
  rfl

theorem machoDyldInfo_eq {data : DyldInfoData} (stored : data.StoredAt mem p) (lib : LibraryInfo) :
    machoDyldInfo mem p lib = .ok (lib.withTables none none (some data)) := by
  rw [machoDyldInfo, stored.rebaseOff, stored.rebaseSize, stored.bindOff, stored.bindSize, stored.weakBindOff,
    stored.weakBindSize, stored.lazyBindOff, stored.lazyBindSize, stored.exportOff, stored.exportSize]
  rfl

/-- One command, by its kind. -/
theorem machoCommand_decides {command : Command} (stored : command.StoredAt mem p) (fit : st.Fits) :
    Decides IsAssertion (command.Fits st.lib.size ∧ (commandsResult p [command] st).Fits) (machoCommand mem p st)
      (commandsResult p [command] st) := by
  obtain ⟨cmd, cmdsize, body, kind, size⟩ := command
  obtain ⟨cmdRead, _, bodyStored⟩ := stored
  refine Decides.after cmdRead ?_
  dsimp only
  cases body with
  | segment seg =>
    have isSegment : cmd &&& ~~~lcReqDyld = lcSegment := kind
    have covered : 56 + 68 * seg.sections.length ≤ cmdsize.toNat := size
    rw [if_pos isSegment]
    have run := machoSegment_decides bodyStored (by omega) fit
    have result : commandsResult p [⟨cmd, cmdsize, .segment seg, kind, size⟩] st =
        { lib := { st.lib with machoVmranges := st.lib.machoVmranges ++ seg.entries p st.segs.length },
          segs := st.segs ++ [p] } := by
      simp [commandsResult, segments, placed, Command.segment?, Command.symtab?, Command.dysymtab?, Command.dyldInfo?,
        segmentEntries, LibraryInfo.withTables]
    rw [result]
    refine run.congr ?_
    constructor
    · intro accepted
      refine ⟨?_, accepted.2.1, accepted.2.2⟩
      intro seg' isSeg
      cases isSeg
      exact accepted.1
    · intro accepted
      exact ⟨accepted.1 seg rfl, accepted.2.vmranges, accepted.2.segs⟩
  | symtab data =>
    have isSymtab : cmd &&& ~~~lcReqDyld = lcSymtab := kind
    rw [isSymtab, machoSymtab_eq bodyStored]
    exact tables_decides rfl fit rfl
  | dysymtab data =>
    have isDysymtab : cmd &&& ~~~lcReqDyld = lcDysymtab := kind
    rw [isDysymtab, machoDysymtab_eq bodyStored]
    exact tables_decides rfl fit rfl
  | dyldInfo data =>
    have isDyldInfo : cmd &&& ~~~lcReqDyld = lcDyldInfo := kind
    rw [isDyldInfo, machoDyldInfo_eq bodyStored]
    exact tables_decides rfl fit rfl
  | other =>
    obtain ⟨noSegment, noSymtab, noDysymtab, noDyldInfo⟩ := kind
    have noInfo : ¬(cmd &&& ~~~lcReqDyld = lcDyldInfo ∨ cmd &&& ~~~lcReqDyld = lcDyldInfoOnly) := by
      rintro (isDyldInfo | isOnly)
      · exact noDyldInfo isDyldInfo
      · exact masked_ne_dyldInfoOnly cmd isOnly
    rw [if_neg noSegment, if_neg noSymtab, if_neg noDysymtab, if_neg noInfo]
    exact tables_decides rfl fit rfl

/-- The command loop accepts the commands exactly if each of them fits and the tables at the end do, and returns the
state that the commands mean. -/
theorem machoCommands_decides {commands : List Command} (stored : CommandsStored mem p commands) (fit : st.Fits) :
    Decides IsAssertion ((∀ command ∈ commands, command.Fits st.lib.size) ∧ (commandsResult p commands st).Fits)
      (machoCommands mem commands.length p st) (commandsResult p commands st) := by
  induction commands generalizing p st with
  | nil =>
    have result : commandsResult p [] st = st := by
      simp [commandsResult, segments, placed, segmentEntries, LibraryInfo.withTables]
    rw [result]
    exact (Decides.of_ok rfl).congr (iff_of_true trivial ⟨List.forall_mem_nil _, fit⟩)
  | cons command rest ih =>
    obtain ⟨first, restStored⟩ := stored
    rw [commandsResult_cons]
    refine Decides.congr ((machoCommand_decides first fit).bind fun accepted =>
      Decides.after first.cmdsize (ih restStored accepted.2)) ?_
    rw [List.forall_mem_cons]
    constructor
    · intro both
      exact ⟨⟨both.1.1, both.2.1⟩, both.2.2⟩
    · intro both
      exact ⟨⟨both.1.1, both.2.of_commandsResult⟩, both.1.2, both.2⟩

end

/-- The addresses of the commands. -/
def commandAddrs (p : U32) (commands : List Command) : List U32 := (placed p commands).map Prod.fst

/-- The command loop visits the commands and nothing else. -/
theorem machoCommands_visits {mem : Mem} {p : U32} {commands : List Command} (stored : CommandsStored mem p commands)
    (st : MachoParse) :
    machoCommands mem commands.length p st =
      (commandAddrs p commands).foldlM (fun st cmd => machoCommand mem cmd st) st := by
  induction commands generalizing p st with
  | nil => rfl
  | cons command rest ih =>
    obtain ⟨first, restStored⟩ := stored
    rw [commandAddrs, placed, List.map_cons, List.foldlM_cons, List.length_cons, machoCommands]
    refine bind_congr fun next => ?_
    rw [first.cmdsize]
    exact ih restStored next

/-- The load commands behind the mach header. -/
structure Layout (mem : Mem) (slice : LibraryInfo) (commands : List Command) : Prop where
  header : HeaderStored mem slice.machoHdr commands.length
  commands : CommandsStored mem (slice.map + MachHeader.sizeOf) commands

section

variable {mem : Mem} {lib slice : LibraryInfo} {commands : List Command}

theorem check_stops (site : Assertion) (condition : Bool) :
    Holds IsAssertion (check site condition) fun _ => condition = true := check_result ⟨site, rfl⟩ condition

theorem machoHeader_stops {count : Nat} (header : HeaderStored mem lib.machoHdr count) :
    Holds IsAssertion (machoHeader mem lib) fun _ => True := by
  obtain ⟨magic, magicRead⟩ := header.magic
  obtain ⟨cputype, cputypeRead⟩ := header.cputype
  obtain ⟨cpusubtype, cpusubtypeRead⟩ := header.cpusubtype
  obtain ⟨filetype, filetypeRead⟩ := header.filetype
  rw [machoHeader, magicRead, cputypeRead, cpusubtypeRead, filetypeRead]
  refine (check_stops _ _).bind fun _ _ => (check_stops _ _).bind fun _ _ => ?_
  exact (check_stops _ _).bind fun _ _ => (check_stops _ _).imp fun _ _ => trivial

/-- Behind a header that passes its assertions, the parse is the command loop over the announced commands. -/
theorem machoParse_eq (sliced : machoSlice mem lib = .ok slice) (layout : Layout mem slice commands) :
    machoParse mem lib = machoHeader mem slice >>= fun _ =>
      machoCommands mem commands.length (slice.map + MachHeader.sizeOf) (parseStart slice) := by
  obtain ⟨ncmds, ncmdsRead, count⟩ := layout.header.ncmds
  rw [machoParse, sliced]
  simp only [bind, Except.bind, ncmdsRead, count]
  rfl

theorem parseStart_fits (slice : LibraryInfo) : (parseStart slice).Fits :=
  ⟨⟨Nat.zero_le _, List.Pairwise.nil⟩, Nat.zero_le _⟩

/-- The parse of a serialised list of load commands: exactly its commands are visited, in their order, and unless an
assertion fails the state behind the command loop is the one that the list means. -/
theorem machoParse_commands (sliced : machoSlice mem lib = .ok slice) (layout : Layout mem slice commands) :
    (machoParse mem lib = machoHeader mem slice >>= fun _ =>
      (commandAddrs (slice.map + MachHeader.sizeOf) commands).foldlM (fun st cmd => machoCommand mem cmd st)
        (parseStart slice)) ∧
      Holds IsAssertion (machoParse mem lib) fun st => st = parseResult slice commands := by
  have parse := machoParse_eq sliced layout
  refine ⟨?_, ?_⟩
  · rw [parse, machoCommands_visits layout.commands]
  · rw [parse]
    refine (machoHeader_stops layout.header).bind fun _ _ => ?_
    exact (machoCommands_decides layout.commands (parseStart_fits slice)).holds.imp fun _ both => both.2

end

/-- The words of a command that ends with its structure. Fields that are not read are zero. -/
def Command.words (command : Command) : List U32 :=
  command.cmd :: command.cmdsize ::
    match command.body with
    | .segment seg =>
      [0, 0, 0, 0, seg.vmaddr, seg.vmsize, seg.fileoff, seg.filesize, 0, 0, BitVec.ofNat 32 seg.sections.length, 0] ++
        seg.sections.flatMap fun sect =>
          [0, 0, 0, 0, 0, 0, 0, 0, sect.addr, sect.size, sect.offset, 0, 0, 0, sect.flags, 0, 0]
    | .symtab data => [data.symoff, data.nsyms, data.stroff, data.strsize]
    | .dysymtab data => List.replicate 14 0 ++ [data.extreloff, data.nextrel, 0, 0]
    | .dyldInfo data =>
      [data.rebaseOff, data.rebaseSize, data.bindOff, data.bindSize, data.weakBindOff, data.weakBindSize,
        data.lazyBindOff, data.lazyBindSize, data.exportOff, data.exportSize]
    | .other => []

def headerWords (count : Nat) : List U32 :=
  [mhMagic, cpuTypeI386, cpuSubtypeI386All, mhDylib, BitVec.ofNat 32 count, 0, 0]

/-- A dynamic library with the given commands, and the given words behind them. -/
def imageMem (commands : List Command) (tables : List U32) : Mem :=
  .ofBytes 0x1000 (wordBytes (headerWords commands.length ++ commands.flatMap Command.words ++ tables))

def imageLib : LibraryInfo := { isMacho := true, map := 0x1000, size := 0x400 }

def imageSlice : LibraryInfo := { imageLib with machoHdr := 0x1000 }

/-- One section of 16 bytes in a segment at 0x2000. -/
def segmentCommand : Command where
  cmd := lcSegment
  cmdsize := 124
  body := .segment ⟨0x2000, 0x100, 0, 0x400, [⟨0x2010, 16, 0x300, 0⟩]⟩
  kind := rfl
  size := by decide

def symtabCommand : Command where
  cmd := lcSymtab
  cmdsize := 24
  body := .symtab ⟨0x200, 0, 0x200, 0⟩
  kind := rfl
  size := by decide

/-- The bind information that lies behind the three commands. -/
def dyldInfoCommand : Command where
  cmd := lcDyldInfoOnly
  cmdsize := 48
  body := .dyldInfo ⟨0, 0, 224, 7, 0, 0, 0, 0, 0, 0⟩
  kind := rfl
  size := by decide

/-- A file that starts with a mach header is its own slice. -/
theorem machoSlice_thin {mem : Mem} {lib : LibraryInfo} (magic : MachHeader.magic mem lib.map = .ok mhMagic) :
    machoSlice mem lib = .ok { lib with machoHdr := lib.map } := by
  have notFat : ¬swap32 mhMagic = fatMagic := by decide
  unfold machoSlice
  simp only [bind, Except.bind, magic]
  exact if_neg notFat

theorem imageLayout {commands : List Command} {tables : List U32} (count : commands.length = 3)
    (header : MachHeader.magic (imageMem commands tables) 0x1000 = .ok mhMagic ∧
      MachHeader.cputype (imageMem commands tables) 0x1000 = .ok cpuTypeI386 ∧
      MachHeader.cpusubtype (imageMem commands tables) 0x1000 = .ok cpuSubtypeI386All ∧
      MachHeader.filetype (imageMem commands tables) 0x1000 = .ok mhDylib ∧
      MachHeader.ncmds (imageMem commands tables) 0x1000 = .ok 3)
    (stored : CommandsStored (imageMem commands tables) 0x101c commands) :
    machoSlice (imageMem commands tables) imageLib = .ok imageSlice ∧
      Layout (imageMem commands tables) imageSlice commands := by
  obtain ⟨magic, cputype, cpusubtype, filetype, ncmds⟩ := header
  have header : HeaderStored (imageMem commands tables) 0x1000 commands.length :=
    ⟨⟨_, magic⟩, ⟨_, cputype⟩, ⟨_, cpusubtype⟩, ⟨_, filetype⟩, ⟨_, ncmds, count.symm⟩⟩
  exact ⟨machoSlice_thin magic, header, stored⟩

def sampleImage : Mem := imageMem [dyldInfoCommand, segmentCommand, symtabCommand] []

theorem sampleImage_parse : ∃ st, machoParse sampleImage imageLib = .ok st ∧
    st = parseResult imageSlice [dyldInfoCommand, segmentCommand, symtabCommand] := by
  have image : machoSlice sampleImage imageLib = .ok imageSlice ∧
      Layout sampleImage imageSlice [dyldInfoCommand, segmentCommand, symtabCommand] :=
    imageLayout rfl (by decide +kernel) (by decide +kernel)
  have run : (machoParse sampleImage imageLib).map MachoParse.segs = .ok [0x104c] := by decide +kernel
  cases parse : machoParse sampleImage imageLib with
  | error fault =>
    rw [parse] at run
    cases run
  | ok st => exact ⟨st, rfl, (machoParse_commands image.1 image.2).2.of_ok parse⟩

end Classgraph
