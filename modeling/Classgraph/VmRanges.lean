import Classgraph.General.Run
import Classgraph.SymtabMacho

namespace Classgraph
open Run Machine

theorem readByte_segv {mem : Mem} {p : U32} {fault : Fault} (stopped : readByte mem p = .error fault) :
    fault = .segv p := by
  unfold readByte at stopped
  split at stopped
  · cases stopped
  · cases stopped
    rfl

theorem readWord_segv {mem : Mem} {p : U32} {fault : Fault} (stopped : readWord mem p = .error fault) :
    fault = .segv p := by
  unfold readWord at stopped
  split at stopped
  · cases stopped
  · cases stopped
    rfl

theorem readCStr_segv {mem : Mem} {p : U32} {fault : Fault} (stopped : readCStr mem p = .error fault) :
    fault = .segv p := by
  unfold readCStr at stopped
  split at stopped
  · cases stopped
  · cases stopped
    rfl

/-- An assertion guarantees its condition, or stops the program as a failure of just this assertion. -/
theorem check_result {fail : Fault → Prop} {site : Assertion} (assertion : fail (.assertion site)) (condition : Bool) :
    Holds fail (check site condition) fun _ => condition = true := by
  cases condition with
  | false => exact assertion
  | true => rfl

/-- The faults other than a store behind the end of `macho_vmranges` or `segs`. -/
def InBounds (fault : Fault) : Prop := fault ≠ .outOfBounds .vmranges ∧ fault ≠ .outOfBounds .segs

theorem InBounds.segv (p : U32) : InBounds (.segv p) := ⟨nofun, nofun⟩

theorem InBounds.assertion (site : Assertion) : InBounds (.assertion site) := ⟨nofun, nofun⟩

theorem readWord_holds (mem : Mem) (p : U32) : Holds InBounds (readWord mem p) fun x => readWord mem p = .ok x :=
  .result fun _ stopped => readWord_segv stopped ▸ .segv p

theorem check_holds (site : Assertion) (condition : Bool) :
    Holds InBounds (check site condition) fun _ => condition = true := check_result (.assertion site) condition

theorem check_ok {site : Assertion} {condition : Bool} {result : Unit} :
    check site condition = .ok result ↔ condition = true := by
  cases condition with
  | false => exact ⟨nofun, nofun⟩
  | true => exact ⟨fun _ => rfl, fun _ => rfl⟩

/-- The addresses that a range covers. -/
def MachoVmrange.Contains (vmrange : MachoVmrange) (addr : U32) : Prop :=
  vmrange.vmAddrBegin ≤ addr ∧ addr < vmrange.vmAddrEnd

instance (vmrange : MachoVmrange) (addr : U32) : Decidable (vmrange.Contains addr) :=
  inferInstanceAs (Decidable (_ ∧ _))

/-- The entry of a section: its position in the numbering of the segments, and its header. -/
structure MachoVmrange.Located (mem : Mem) (segs : List U32) (vmrange : MachoVmrange) : Prop where
  segment : segs[vmrange.segmentIdx]? = some vmrange.pSegment
  index : ∃ nsects, SegmentCommand.nsects mem vmrange.pSegment = .ok nsects ∧ vmrange.sectionIdx < nsects.toNat
  header : vmrange.pSection =
    vmrange.pSegment + SegmentCommand.sizeOf + Section.sizeOf * BitVec.ofNat 32 vmrange.sectionIdx
  addr : Section.addr mem vmrange.pSection = .ok vmrange.vmAddrBegin
  size : ∃ size, Section.size mem vmrange.pSection = .ok size ∧ vmrange.vmAddrEnd = vmrange.vmAddrBegin + size ∧
    vmrange.mapOffEnd = vmrange.mapOffBegin + size
  offset : Section.offset mem vmrange.pSection = .ok vmrange.mapOffBegin

/-- The invariant of the table while the load commands are read. -/
structure VmrangeTable (mem : Mem) (segs : List U32) (vmranges : List MachoVmrange) : Prop where
  disjoint : vmranges.Pairwise fun left right => ∀ addr, left.Contains addr → ¬right.Contains addr
  count : vmranges.length ≤ maxVmranges
  located : ∀ vmrange ∈ vmranges, vmrange.Located mem segs

/-- The overlap test compares wrapped ends, but an address in both ranges would lie below one of
them and not below it at once. -/
theorem disjoint_of_noOverlap {left right : MachoVmrange}
    (apart : right.vmAddrEnd ≤ left.vmAddrBegin ∨ left.vmAddrEnd ≤ right.vmAddrBegin) (addr : U32)
    (inLeft : left.Contains addr) : ¬right.Contains addr := by
  intro inRight
  obtain ⟨leftBegin, leftEnd⟩ := inLeft
  obtain ⟨rightBegin, rightEnd⟩ := inRight
  rcases apart with below | above
  · bv_omega
  · bv_omega

theorem sectionIsMapped_holds (mem : Mem) (segCmd sect : U32) :
    Holds InBounds (sectionIsMapped mem segCmd sect) fun _ => True := by
  refine (readWord_holds _ _).bind ?_
  intro filesize _
  split
  · exact (readWord_holds _ _).bind fun _ _ => trivial
  · trivial

theorem sectionAddrs_holds (mem : Mem) (segCmd sect : U32) :
    Holds InBounds (sectionAddrs mem segCmd sect) fun pair =>
      Section.addr mem sect = .ok pair.1 ∧ Section.size mem sect = .ok pair.2 := by
  refine (readWord_holds _ _).bind ?_
  intro addr addrRead
  refine (readWord_holds _ _).bind fun vmaddr _ => (check_holds _ _).bind fun _ _ => ?_
  refine (readWord_holds _ _).bind fun vmsize _ => (check_holds _ _).bind fun _ _ => ?_
  refine (readWord_holds _ _).bind ?_
  intro size sizeRead
  exact (check_holds _ _).bind fun _ _ => ⟨addrRead, sizeRead⟩

theorem sectionOffsets_holds (mem : Mem) (segCmd sect : U32) :
    Holds InBounds (sectionOffsets mem segCmd sect) fun _ => True := by
  refine (readWord_holds _ _).bind fun offset _ => (readWord_holds _ _).bind fun fileoff _ => ?_
  refine (check_holds _ _).bind fun _ _ => (readWord_holds _ _).bind fun filesize _ => ?_
  refine (check_holds _ _).bind fun _ _ => (readWord_holds _ _).bind fun size _ => ?_
  exact (check_holds _ _).imp fun _ _ => trivial

theorem VmrangeTable.append {mem : Mem} {segs : List U32} {vmranges : List MachoVmrange} {vmrange : MachoVmrange}
    (table : VmrangeTable mem segs vmranges) (room : vmranges.length < maxVmranges)
    (apart : ∀ other ∈ vmranges,
      vmrange.vmAddrEnd ≤ other.vmAddrBegin ∨ other.vmAddrEnd ≤ vmrange.vmAddrBegin)
    (located : vmrange.Located mem segs) : VmrangeTable mem segs (vmranges ++ [vmrange]) := by
  refine ⟨?_, ?_, ?_⟩
  · rw [List.pairwise_append]
    refine ⟨table.disjoint, List.pairwise_singleton _ _, ?_⟩
    intro left leftMember right rightMember
    cases List.mem_singleton.mp rightMember
    exact disjoint_of_noOverlap (apart left leftMember)
  · rw [List.length_append, List.length_singleton]
    exact room
  · intro other member
    rcases List.mem_append.mp member with old | new
    · exact table.located other old
    · cases List.mem_singleton.mp new
      exact located

/-- One section: its entry is stored in bounds, and covers no address of another entry. -/
theorem machoSection_table {mem : Mem} {segCmd nsects sect : U32} {segs : List U32} {j : Nat}
    {vmranges : List MachoVmrange} (table : VmrangeTable mem (segs ++ [segCmd]) vmranges)
    (counted : SegmentCommand.nsects mem segCmd = .ok nsects) (index : j < nsects.toNat)
    (header : sect = segCmd + SegmentCommand.sizeOf + Section.sizeOf * BitVec.ofNat 32 j) :
    Holds InBounds (machoSection mem segCmd segs.length j sect vmranges) (VmrangeTable mem (segs ++ [segCmd])) := by
  refine (check_holds _ _).bind ?_
  intro _ room
  refine (sectionIsMapped_holds _ _ _).bind ?_
  intro isMapped _
  refine (sectionAddrs_holds _ _ _).bind ?_
  rintro ⟨addr, size⟩ ⟨addrRead, sizeRead⟩
  have stored : Holds InBounds (do
      let offset ← Section.offset mem sect
      check .noOverlap (vmranges.all fun other => addr + size ≤ other.vmAddrBegin ∨ other.vmAddrEnd ≤ addr)
      store .vmranges maxVmranges vmranges
        { isMapped := isMapped
          vmAddrBegin := addr
          vmAddrEnd := addr + size
          mapOffBegin := offset
          mapOffEnd := offset + size
          pSegment := segCmd
          pSection := sect
          segmentIdx := segs.length
          sectionIdx := j })
      (VmrangeTable mem (segs ++ [segCmd])) := by
    refine (readWord_holds _ _).bind ?_
    intro offset offsetRead
    refine (check_holds _ _).bind ?_
    intro _ apart
    have bound : vmranges.length < maxVmranges := of_decide_eq_true room
    rw [store, if_pos bound]
    refine table.append bound ?_ ?_
    · intro other member
      exact of_decide_eq_true (List.all_eq_true.mp apart other member)
    · refine ⟨?_, ⟨nsects, counted, index⟩, header, addrRead, ⟨size, sizeRead, rfl, rfl⟩, offsetRead⟩
      simp
  dsimp only
  split
  · exact (sectionOffsets_holds _ _ _).bind fun _ _ => stored
  · exact stored

theorem VmrangeTable.unique {mem : Mem} {segs : List U32} {vmranges : List MachoVmrange}
    (table : VmrangeTable mem segs vmranges) {addr : U32} {i j : Nat} {left right : MachoVmrange}
    (atLeft : vmranges[i]? = some left) (atRight : vmranges[j]? = some right) (inLeft : left.Contains addr)
    (inRight : right.Contains addr) : i = j := by
  obtain ⟨leftBound, rfl⟩ := List.getElem?_eq_some_iff.mp atLeft
  obtain ⟨rightBound, rfl⟩ := List.getElem?_eq_some_iff.mp atRight
  have apart := List.pairwise_iff_getElem.mp table.disjoint
  rcases Nat.lt_trichotomy i j with before | same | after
  · exact absurd inRight (apart i j leftBound rightBound before addr inLeft)
  · exact same
  · exact absurd inLeft (apart j i rightBound leftBound after addr inRight)

theorem VmrangeTable.segment {mem : Mem} {segs : List U32} {vmranges : List MachoVmrange}
    (table : VmrangeTable mem segs vmranges) (segCmd : U32) : VmrangeTable mem (segs ++ [segCmd]) vmranges := by
  refine ⟨table.disjoint, table.count, ?_⟩
  intro vmrange member
  have located := table.located vmrange member
  obtain ⟨bound, _⟩ := List.getElem?_eq_some_iff.mp located.segment
  exact { located with segment := (List.getElem?_append_left bound).trans located.segment }

/-- The section loop, from section `j` on. -/
theorem machoSections_table {mem : Mem} {segCmd nsects : U32} {segs : List U32}
    (counted : SegmentCommand.nsects mem segCmd = .ok nsects) {n j : Nat} {sect : U32} {vmranges : List MachoVmrange}
    (table : VmrangeTable mem (segs ++ [segCmd]) vmranges) (left : j + n = nsects.toNat)
    (header : sect = segCmd + SegmentCommand.sizeOf + Section.sizeOf * BitVec.ofNat 32 j) :
    Holds InBounds (machoSections mem segCmd segs.length n j sect vmranges) (VmrangeTable mem (segs ++ [segCmd])) := by
  induction n generalizing j sect vmranges with
  | zero => exact table
  | succ n ih =>
    refine (machoSection_table table counted (by omega) header).bind ?_
    intro vmranges table
    refine ih table (by omega) ?_
    rw [header, entry_succ]

/-- What identifies the entry in the table of libraries. -/
structure SameEntry (lib lib' : LibraryInfo) : Prop where
  isPrimary : lib'.isPrimary = lib.isPrimary
  name : lib'.name = lib.name

theorem SameEntry.trans {first second third : LibraryInfo} (left : SameEntry first second)
    (right : SameEntry second third) : SameEntry first third :=
  ⟨right.isPrimary.trans left.isPrimary, right.name.trans left.name⟩

/-- What the load commands leave alone. -/
structure Frame (lib lib' : LibraryInfo) : Prop extends SameEntry lib lib' where
  map : lib'.map = lib.map

theorem Frame.refl (lib : LibraryInfo) : Frame lib lib := ⟨⟨rfl, rfl⟩, rfl⟩

theorem Frame.trans {first second third : LibraryInfo} (left : Frame first second) (right : Frame second third) :
    Frame first third := ⟨left.toSameEntry.trans right.toSameEntry, right.map.trans left.map⟩

/-- What holds before every load command. -/
structure MachoParse.Valid (mem : Mem) (st : MachoParse) : Prop where
  segCount : st.segs.length ≤ maxSegs
  table : VmrangeTable mem st.segs st.lib.machoVmranges

theorem machoSegment_valid {mem : Mem} {segCmd : U32} {st : MachoParse} (valid : st.Valid mem) :
    Holds InBounds (machoSegment mem segCmd st) fun st' => st'.Valid mem ∧ Frame st.lib st'.lib := by
  refine (readWord_holds _ _).bind fun fileoff _ => (readWord_holds _ _).bind fun filesize _ => ?_
  refine (check_holds _ _).bind fun _ _ => (readWord_holds _ _).bind ?_
  intro nsects counted
  have start : segCmd + SegmentCommand.sizeOf =
      segCmd + SegmentCommand.sizeOf + Section.sizeOf * BitVec.ofNat 32 0 := by simp
  refine (machoSections_table counted (valid.table.segment segCmd) (Nat.zero_add _) start).bind ?_
  intro vmranges table
  refine (check_holds _ _).bind ?_
  intro _ room
  have bound : st.segs.length < maxSegs := of_decide_eq_true room
  rw [store, if_pos bound]
  refine ⟨⟨?_, table⟩, ⟨rfl, rfl⟩, rfl⟩
  rw [List.length_append, List.length_singleton]
  exact bound

/-- The commands that only fill in fields of the library. -/
structure KeepsRanges (lib lib' : LibraryInfo) : Prop extends Frame lib lib' where
  vmranges : lib'.machoVmranges = lib.machoVmranges

theorem machoSymtab_keeps (mem : Mem) (cmd : U32) (lib : LibraryInfo) :
    Holds InBounds (machoSymtab mem cmd lib) (KeepsRanges lib) := by
  refine (readWord_holds _ _).bind fun symoff _ => (readWord_holds _ _).bind fun nsyms _ => ?_
  exact (readWord_holds _ _).bind fun stroff _ => (readWord_holds _ _).bind fun strsize _ => ⟨⟨⟨rfl, rfl⟩, rfl⟩, rfl⟩

theorem machoDysymtab_keeps (mem : Mem) (cmd : U32) (lib : LibraryInfo) :
    Holds InBounds (machoDysymtab mem cmd lib) (KeepsRanges lib) :=
  (readWord_holds _ _).bind fun _ _ => (readWord_holds _ _).bind fun _ _ => ⟨⟨⟨rfl, rfl⟩, rfl⟩, rfl⟩

theorem machoDyldInfo_keeps (mem : Mem) (cmd : U32) (lib : LibraryInfo) :
    Holds InBounds (machoDyldInfo mem cmd lib) (KeepsRanges lib) := by
  refine (readWord_holds _ _).bind fun rebaseOff _ => (readWord_holds _ _).bind fun rebaseSize _ => ?_
  refine (readWord_holds _ _).bind fun bindOff _ => (readWord_holds _ _).bind fun bindSize _ => ?_
  refine (readWord_holds _ _).bind fun weakBindOff _ => (readWord_holds _ _).bind fun weakBindSize _ => ?_
  refine (readWord_holds _ _).bind fun lazyBindOff _ => (readWord_holds _ _).bind fun lazyBindSize _ => ?_
  refine (readWord_holds _ _).bind fun exportOff _ => (readWord_holds _ _).bind fun exportSize _ => ?_
  exact ⟨⟨⟨rfl, rfl⟩, rfl⟩, rfl⟩

theorem MachoParse.Valid.keep {mem : Mem} {st : MachoParse} (valid : st.Valid mem) {lib : LibraryInfo}
    (keeps : KeepsRanges st.lib lib) : ({ st with lib := lib } : MachoParse).Valid mem :=
  ⟨valid.segCount, by rw [keeps.vmranges]; exact valid.table⟩

theorem machoCommand_valid {mem : Mem} {cmd : U32} {st : MachoParse} (valid : st.Valid mem) :
    Holds InBounds (machoCommand mem cmd st) fun st' => st'.Valid mem ∧ Frame st.lib st'.lib := by
  refine (readWord_holds _ _).bind ?_
  intro kind _
  dsimp only
  split
  · exact machoSegment_valid valid
  · split
    · exact (machoSymtab_keeps _ _ _).bind fun lib keeps => ⟨valid.keep keeps, keeps.toFrame⟩
    · split
      · exact (machoDysymtab_keeps _ _ _).bind fun lib keeps => ⟨valid.keep keeps, keeps.toFrame⟩
      · split
        · exact (machoDyldInfo_keeps _ _ _).bind fun lib keeps => ⟨valid.keep keeps, keeps.toFrame⟩
        · exact ⟨valid, .refl _⟩

theorem machoCommands_valid {mem : Mem} {n : Nat} {cmd : U32} {st : MachoParse} (valid : st.Valid mem) :
    Holds InBounds (machoCommands mem n cmd st) fun st' => st'.Valid mem ∧ Frame st.lib st'.lib := by
  induction n generalizing cmd st with
  | zero => exact ⟨valid, .refl _⟩
  | succ n ih =>
    refine (machoCommand_valid valid).bind ?_
    intro next kept
    refine (readWord_holds _ _).bind ?_
    intro cmdsize _
    refine (ih kept.1).imp ?_
    intro last lastKept
    exact ⟨lastKept.1, kept.2.trans lastKept.2⟩

theorem fatArchMatches_holds (mem : Mem) (arch : U32) :
    Holds InBounds (fatArchMatches mem arch) fun _ => True := by
  refine (readWord_holds _ _).bind ?_
  intro cputype _
  split
  · exact (readWord_holds _ _).bind fun _ _ => trivial
  · trivial

theorem fatArchLoop_holds (mem : Mem) (n : Nat) (arch : U32) :
    Holds InBounds (fatArchLoop mem n arch) fun _ => True := by
  induction n generalizing arch with
  | zero => trivial
  | succ n ih =>
    refine (fatArchMatches_holds mem arch).bind ?_
    intro isMatch _
    split
    · trivial
    · exact ih _

theorem machoSlice_entry (mem : Mem) (lib : LibraryInfo) : Holds InBounds (machoSlice mem lib) (SameEntry lib) := by
  refine (readWord_holds _ _).bind ?_
  intro magic _
  split
  · refine (readWord_holds _ _).bind ?_
    intro nfatArch _
    refine (fatArchLoop_holds _ _ _).bind ?_
    intro found _
    cases found with
    | none => exact ⟨nofun, nofun⟩
    | some arch => exact (readWord_holds _ _).bind fun _ _ => (readWord_holds _ _).bind fun _ _ => ⟨rfl, rfl⟩
  · exact ⟨rfl, rfl⟩

theorem machoHeader_holds (mem : Mem) (lib : LibraryInfo) : Holds InBounds (machoHeader mem lib) fun _ => True := by
  refine (readWord_holds _ _).bind fun magic _ => (check_holds _ _).bind fun _ _ => ?_
  refine (readWord_holds _ _).bind fun cputype _ => (check_holds _ _).bind fun _ _ => ?_
  refine (readWord_holds _ _).bind fun cpusubtype _ => (check_holds _ _).bind fun _ _ => ?_
  exact (readWord_holds _ _).bind fun filetype _ => (check_holds _ _).imp fun _ _ => trivial

/-- The state after the last load command. -/
theorem machoParse_valid (mem : Mem) (lib : LibraryInfo) :
    Holds InBounds (machoParse mem lib) fun st =>
      st.Valid mem ∧ ∃ slice, machoSlice mem lib = .ok slice ∧ Frame slice st.lib := by
  refine (machoSlice_entry mem lib).and_ok.bind ?_
  intro slice sliced
  refine (machoHeader_holds _ _).bind fun _ _ => (readWord_holds _ _).bind ?_
  intro ncmds _
  have start : ({ lib := { slice with machoVmranges := [] }, segs := [] } : MachoParse).Valid mem :=
    ⟨Nat.zero_le _, .nil, Nat.zero_le _, fun _ member => absurd member List.not_mem_nil⟩
  refine (machoCommands_valid start).imp ?_
  intro st kept
  exact ⟨kept.1, slice, sliced.1, ⟨⟨kept.2.isPrimary, kept.2.name⟩, kept.2.map⟩⟩

theorem readByte_holds (mem : Mem) (p : U32) : Holds InBounds (readByte mem p) fun b => readByte mem p = .ok b :=
  .result fun _ stopped => readByte_segv stopped ▸ .segv p

theorem readCStr_holds (mem : Mem) (p : U32) : Holds InBounds (readCStr mem p) fun str => readCStr mem p = .ok str :=
  .result fun _ stopped => readCStr_segv stopped ▸ .segv p

theorem segStartAddress_holds (mem : Mem) (segIndex : U8) (segs : List U32) :
    Holds InBounds (segStartAddress mem segIndex segs) fun _ => True := by
  unfold segStartAddress
  split
  · trivial
  · exact (readWord_holds _ _).bind fun _ _ => trivial

theorem uleb128Loop_holds (mem : Mem) (stop : U32) (n : Nat) (p : U32) (bit : Nat) (result : U64) :
    Holds InBounds (uleb128Loop mem stop n p bit result) fun _ => True := by
  induction n generalizing p bit result with
  | zero => exact ⟨nofun, nofun⟩
  | succ n ih =>
    rw [uleb128Loop]
    split
    · trivial
    · refine (readByte_holds _ _).bind ?_
      intro byte _
      dsimp only
      split
      · trivial
      · split
        · exact ih _ _ _
        · trivial

theorem sleb128Loop_holds (mem : Mem) (stop : U32) (n : Nat) (p : U32) (bit : Nat) (result : U64) :
    Holds InBounds (sleb128Loop mem stop n p bit result) fun _ => True := by
  induction n generalizing p bit result with
  | zero => exact ⟨nofun, nofun⟩
  | succ n ih =>
    rw [sleb128Loop]
    split
    · trivial
    · refine (readByte_holds _ _).bind ?_
      intro byte _
      dsimp only
      split
      · exact ih _ _ _
      · split
        · trivial
        · trivial

theorem bindRecord_holds (pass : BindPass) (st : BindState) : Holds InBounds (bindRecord pass st) fun _ => True := by
  unfold bindRecord
  split
  · trivial
  · split
    · trivial
    · exact ⟨nofun, nofun⟩

theorem bindRepeat_holds (pass : BindPass) (skip : U32) (count : Nat) (st : BindState) :
    Holds InBounds (bindRepeat pass skip count st) fun _ => True := by
  induction count generalizing st with
  | zero => trivial
  | succ count ih => exact (bindRecord_holds pass st).bind fun st _ => ih _

theorem bindOpcode_holds (mem : Mem) (segs : List U32) (stop : U32) (pass : BindPass) (opcode immediate : U8) (p : U32)
    (st : BindState) : Holds InBounds (bindOpcode mem segs stop pass opcode immediate p st) fun _ => True := by
  have uleb (p : U32) : Holds InBounds (readUleb128 mem p stop) fun _ => True := uleb128Loop_holds _ _ _ _ _ _
  have sleb (p : U32) : Holds InBounds (readSleb128 mem p stop) fun _ => True := sleb128Loop_holds _ _ _ _ _ _
  unfold bindOpcode
  split
  · trivial
  · trivial
  · exact (uleb _).bind fun _ _ => trivial
  · trivial
  · exact (readCStr_holds _ _).bind fun _ _ => trivial
  · trivial
  · exact (sleb _).bind fun _ _ => trivial
  · exact (segStartAddress_holds _ _ _).bind fun _ _ => (uleb _).bind fun _ _ => trivial
  · exact (uleb _).bind fun _ _ => trivial
  · exact (bindRecord_holds _ _).bind fun _ _ => trivial
  · exact (bindRecord_holds _ _).bind fun _ _ => (uleb _).bind fun _ _ => trivial
  · exact (bindRecord_holds _ _).bind fun _ _ => trivial
  · exact (uleb _).bind fun _ _ => (uleb _).bind fun _ _ => (bindRepeat_holds _ _ _ _).bind fun _ _ => trivial
  · trivial

theorem bindLoop_holds (mem : Mem) (segs : List U32) (stop : U32) (pass : BindPass) (fuel : Nat) (p : U32)
    (st : BindState) : Holds InBounds (bindLoop mem segs stop pass fuel p st) fun _ => True := by
  induction fuel generalizing p st with
  | zero => exact ⟨nofun, nofun⟩
  | succ fuel ih =>
    rw [bindLoop]
    split
    · trivial
    · refine (readByte_holds _ _).bind fun byte _ => (bindOpcode_holds _ _ _ _ _ _ _ _).bind ?_
      intro next _
      cases next with
      | none => trivial
      | some next => exact ih _ _

theorem getDyldBindInfo_holds (malloc : Malloc) (mem : Mem) (start stop : U32) (segs : List U32) :
    Holds InBounds (getDyldBindInfo malloc mem start stop segs) fun _ => True := by
  refine (bindLoop_holds _ _ _ _ _ _ _).bind ?_
  intro counted _
  cases counted with
  | none => trivial
  | some counted =>
    refine (bindLoop_holds _ _ _ _ _ _ _).bind ?_
    intro stored _
    cases stored with
    | none => trivial
    | some stored => trivial

theorem machoBind_keeps (malloc : Malloc) (mem : Mem) (st : MachoParse) :
    Holds InBounds (machoBind malloc mem st) (KeepsRanges st.lib) := by
  unfold machoBind
  split
  · refine (getDyldBindInfo_holds _ _ _ _ _).bind ?_
    intro info _
    cases info with
    | none => exact ⟨.refl _, rfl⟩
    | some info => exact ⟨⟨⟨rfl, rfl⟩, rfl⟩, rfl⟩
  · exact ⟨.refl _, rfl⟩

/-- The program never stores behind the end of `macho_vmranges` or `segs`, and once it has read
the load commands no address lies in two ranges, and every range is that of the section header
its numbers point to, in the numbering of the segments that the bind information is decoded with. -/
theorem symtabMachoInit_vmranges (malloc : Malloc) (mem : Mem) (lib : LibraryInfo) :
    (∀ fault, symtabMachoInit malloc mem lib = .error fault → InBounds fault) ∧
      ∀ result, symtabMachoInit malloc mem lib = .ok result →
        ∃ st, machoParse mem lib = .ok st ∧ machoBind malloc mem st = .ok result ∧
          st.segs.length ≤ maxSegs ∧ result.machoVmranges.length ≤ maxVmranges ∧
          (∀ (addr : U32) (i j : Nat) (left right : MachoVmrange), result.machoVmranges[i]? = some left →
            result.machoVmranges[j]? = some right → left.Contains addr → right.Contains addr → i = j) ∧
          ∀ vmrange ∈ result.machoVmranges, vmrange.Located mem st.segs := by
  have parsed := (machoParse_valid mem lib).and_ok
  refine ⟨?_, ?_⟩
  · intro fault stopped
    rcases bind_error.mp stopped with inParse | ⟨st, _, inBind⟩
    · exact parsed.of_error inParse
    · exact (machoBind_keeps malloc mem st).of_error inBind
  · intro result returned
    obtain ⟨st, parse, bound⟩ := bind_ok.mp returned
    have valid := ((machoParse_valid mem lib).of_ok parse).1
    have ranges := ((machoBind_keeps malloc mem st).of_ok bound).vmranges
    rw [ranges]
    exact ⟨st, parse, bound, valid.segCount, valid.table.count, fun _ _ _ _ _ => valid.table.unique,
      valid.table.located⟩

theorem symtabMachoInit_entry {malloc : Malloc} {mem : Mem} {lib result : LibraryInfo}
    (returned : symtabMachoInit malloc mem lib = .ok result) :
    SameEntry lib result := by
  obtain ⟨st, parse, bound⟩ := bind_ok.mp returned
  obtain ⟨_, slice, sliced, frame⟩ := (machoParse_valid mem lib).of_ok parse
  have entry := (machoSlice_entry mem lib).of_ok sliced
  exact (entry.trans frame.toSameEntry).trans ((machoBind_keeps malloc mem st).of_ok bound).toSameEntry

/-- The loop over the relocation entries depends neither on the ranges nor on the bind information. -/
theorem extRelocLoop_frame {env : Env} {slot : Slot} (lib : LibraryInfo) (vmranges : List MachoVmrange)
    (dbi : List DyldBindInfo) (ndbi : Nat) (addr : U32) (n : Nat) (reloc : U32) :
    extRelocLoop env slot { lib with machoVmranges := vmranges, machoDbi := dbi, machoNdbi := ndbi } addr n reloc =
      extRelocLoop env slot lib addr n reloc := by
  induction n generalizing reloc with
  | zero => rfl
  | succ n ih =>
    rw [extRelocLoop, extRelocLoop]
    refine bind_congr fun isMatch => ?_
    split
    · rfl
    · exact ih _

end Classgraph
