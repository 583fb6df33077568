import Classgraph.LoadCommands
import Classgraph.TwoFiles
import Classgraph.Resolution

namespace Classgraph
open Run Machine

theorem eq_of_perm_short {α : Type} {xs ys : List α} (perm : xs.Perm ys) (short : xs.length ≤ 1) : xs = ys := by
  cases xs with
  | nil => exact (List.nil_perm.mp perm).symm
  | cons x rest =>
    have noRest : rest = [] := List.length_eq_zero_iff.mp (Nat.le_zero.mp (Nat.le_of_succ_le_succ short))
    subst noRest
    exact (List.singleton_perm.mp perm)

/-- A search does not depend on the order if at most one element is a match. -/
theorem find?_perm {α : Type} {found : α → Bool} {xs ys : List α} (perm : xs.Perm ys)
    (single : xs.Pairwise fun x y => ¬(found x = true ∧ found y = true)) : xs.find? found = ys.find? found := by
  have short : (xs.filter found).length ≤ 1 := by
    have matches' := List.Pairwise.filter found single
    cases filtered : xs.filter found with
    | nil => exact Nat.zero_le 1
    | cons x rest =>
      cases rest with
      | nil => exact Nat.le_refl 1
      | cons y more =>
        rw [filtered] at matches'
        have xFound : x ∈ xs.filter found := by simp [filtered]
        have yFound : y ∈ xs.filter found := by simp [filtered]
        have apart := (List.pairwise_cons.mp matches').1 y (List.mem_cons_self ..)
        exact absurd ⟨(List.mem_filter.mp xFound).2, (List.mem_filter.mp yFound).2⟩ apart
  rw [← List.head?_filter, ← List.head?_filter, eq_of_perm_short (perm.filter found) short]

/-- What a range says apart from where its section header is. -/
def MachoVmrange.data (vmrange : MachoVmrange) : MachoVmrange :=
  { vmrange with pSegment := 0, pSection := 0, segmentIdx := 0, sectionIdx := 0 }

/-- The ranges of a segment, wherever it is. -/
def SegmentData.ranges (seg : SegmentData) : List MachoVmrange :=
  seg.sections.map fun sect => (seg.entry 0 0 0 sect).data

theorem segmentEntries_data (i : Nat) (segs : List (U32 × SegmentData)) :
    (segmentEntries i segs).map MachoVmrange.data = (segs.map Prod.snd).flatMap SegmentData.ranges := by
  induction segs generalizing i with
  | nil => rfl
  | cons first rest ih =>
    have here : (first.2.entries first.1 i).map MachoVmrange.data = first.2.ranges := by
      have sections := congrArg (List.map fun sect => (first.2.entry 0 0 0 sect).data)
        (List.zipIdx_map_fst 0 first.2.sections)
      rw [List.map_map] at sections
      rw [SegmentData.entries, List.map_map]
      exact sections
    rw [← List.singleton_append, segmentEntries_append, List.map_append, List.map_append, List.flatMap_append, ih]
    simp [segmentEntries, here]

theorem segments_data (p : U32) (commands : List Command) :
    (segments p commands).map Prod.snd = commands.filterMap Command.segment? := by
  induction commands generalizing p with
  | nil => rfl
  | cons command rest ih =>
    rw [segments_cons, List.map_append, ih]
    cases isSegment : command.segment? with
    | none => simp [segments, placed, isSegment]
    | some seg => simp [segments, placed, isSegment]

/-- The ranges of the sections are those of the segments, one after the other. -/
theorem commandsResult_data (p : U32) (commands : List Command) (slice : LibraryInfo) :
    (commandsResult p commands (parseStart slice)).lib.machoVmranges.map MachoVmrange.data =
      (commands.filterMap Command.segment?).flatMap SegmentData.ranges := by
  rw [← segments_data p commands, ← segmentEntries_data 0]
  rfl

theorem vmrangesFit_perm {vmranges vmranges' : List MachoVmrange}
    (perm : (vmranges.map MachoVmrange.data).Perm (vmranges'.map MachoVmrange.data)) :
    VmrangesFit vmranges ↔ VmrangesFit vmranges' := by
  have fit_iff (vmranges : List MachoVmrange) : VmrangesFit vmranges ↔
      (vmranges.map MachoVmrange.data).length ≤ maxVmranges ∧
        (vmranges.map MachoVmrange.data).Pairwise MachoVmrange.Apart := by
    rw [List.length_map, List.pairwise_map]
    exact ⟨fun fit => ⟨fit.count, fit.apart⟩, fun both => ⟨both.1, both.2⟩⟩
  rw [fit_iff, fit_iff, perm.length_eq, perm.pairwise_iff MachoVmrange.Apart.symm]

section

variable {commands commands' : List Command} (perm : commands.Perm commands')
include perm

theorem commandsData_perm (p p' : U32) (slice : LibraryInfo) :
    ((commandsResult p commands (parseStart slice)).lib.machoVmranges.map MachoVmrange.data).Perm
      ((commandsResult p' commands' (parseStart slice)).lib.machoVmranges.map MachoVmrange.data) := by
  rw [commandsResult_data, commandsResult_data]
  exact (perm.filterMap _).flatMap_right _

/-- The assertions on commands and tables do not depend on the order. -/
theorem accepted_perm (p p' : U32) (slice : LibraryInfo) :
    ((∀ command ∈ commands, command.Fits slice.size) ∧ (commandsResult p commands (parseStart slice)).Fits) ↔
      (∀ command ∈ commands', command.Fits slice.size) ∧ (commandsResult p' commands' (parseStart slice)).Fits := by
  have vmranges := vmrangesFit_perm (commandsData_perm perm p p' slice)
  have segs : (commandsResult p commands (parseStart slice)).segs.length =
      (commandsResult p' commands' (parseStart slice)).segs.length := by
    have count := (perm.filterMap Command.segment?).length_eq
    rw [← segments_data p, ← segments_data p', List.length_map, List.length_map] at count
    simp only [commandsResult, parseStart, List.nil_append, List.length_map, count]
  have members : (∀ command ∈ commands, command.Fits slice.size) ↔ ∀ command ∈ commands', command.Fits slice.size :=
    forall_congr' fun command => imp_congr_left perm.mem_iff
  constructor
  · intro accepted
    exact ⟨members.mp accepted.1, vmranges.mp accepted.2.vmranges, segs ▸ accepted.2.segs⟩
  · intro accepted
    exact ⟨members.mpr accepted.1, vmranges.mpr accepted.2.vmranges, segs ▸ accepted.2.segs⟩

end

/-- The range that a pointer is looked up in. -/
def rangeOf (vmranges : List MachoVmrange) (addr : U32) : Option MachoVmrange :=
  vmranges.find? fun vmrange => vmrange.vmAddrBegin ≤ addr ∧ addr < vmrange.vmAddrEnd

/-- A pointer depends on the base of the mapping and on the range that is found. -/
theorem getPtr_eq {lib lib' : LibraryInfo} {addr : U32} (map : lib'.map = lib.map)
    (found : rangeOf (lib.machoVmranges.map MachoVmrange.data) addr =
      rangeOf (lib'.machoVmranges.map MachoVmrange.data) addr) (size : U32) :
    symtabMachoGetPtr lib addr size = symtabMachoGetPtr lib' addr size := by
  rw [rangeOf, rangeOf, List.find?_map, List.find?_map] at found
  have same : (rangeOf lib.machoVmranges addr).map MachoVmrange.data =
      (rangeOf lib'.machoVmranges addr).map MachoVmrange.data := found
  rw [symtabMachoGetPtr, symtabMachoGetPtr, map, ← rangeOf, ← rangeOf]
  cases left : rangeOf lib.machoVmranges addr with
  | none =>
    rw [left, Option.map_none] at same
    rw [Option.map_eq_none_iff.mp same.symm]
  | some vmrange =>
    rw [left, Option.map_some] at same
    obtain ⟨other, right, sameData⟩ := Option.map_eq_some_iff.mp same.symm
    rw [right]
    have isMapped := congrArg MachoVmrange.isMapped sameData
    have vmAddrBegin := congrArg MachoVmrange.vmAddrBegin sameData
    have vmAddrEnd := congrArg MachoVmrange.vmAddrEnd sameData
    have mapOffBegin := congrArg MachoVmrange.mapOffBegin sameData
    simp only [MachoVmrange.data] at isMapped vmAddrBegin vmAddrEnd mapOffBegin
    simp only [isMapped, vmAddrBegin, vmAddrEnd, mapOffBegin]

/-- Among ranges that are apart, at most one has an address. -/
theorem getPtr_perm {lib lib' : LibraryInfo} (map : lib'.map = lib.map) (fit : VmrangesFit lib.machoVmranges)
    (perm : (lib.machoVmranges.map MachoVmrange.data).Perm (lib'.machoVmranges.map MachoVmrange.data))
    (addr size : U32) : symtabMachoGetPtr lib addr size = symtabMachoGetPtr lib' addr size := by
  refine getPtr_eq map (find?_perm perm ?_) size
  refine List.pairwise_map.mpr (fit.apart.imp ?_)
  intro left right apart both
  exact disjoint_of_noOverlap apart.symm addr (of_decide_eq_true both.1) (of_decide_eq_true both.2)

theorem segments_stored {mem : Mem} {p : U32} {commands : List Command} (stored : CommandsStored mem p commands)
    {place : U32 × SegmentData} (member : place ∈ segments p commands) :
    SegmentCommand.vmaddr mem place.1 = .ok place.2.vmaddr := by
  induction commands generalizing p with
  | nil => cases member
  | cons command rest ih =>
    rw [segments_cons] at member
    rcases List.mem_append.mp member with first | later
    · obtain ⟨seg, isSegment, rfl⟩ : ∃ seg, command.segment? = some seg ∧ (p, seg) = place := by
        simpa [segments, placed] using first
      have body := stored.1.body
      rw [Command.segment?] at isSegment
      split at isSegment
      · rename_i data isBody
        cases isSegment
        rw [isBody] at body
        exact SegmentData.StoredAt.vmaddr body
      · cases isSegment
    · exact ih stored.2 later

/-- What an index finds among the segments of a list of commands. -/
theorem segStartAddress_eq {mem : Mem} {p : U32} {commands : List Command} (stored : CommandsStored mem p commands)
    (segIndex : U8) : segStartAddress mem segIndex ((segments p commands).map Prod.fst) =
      .ok ((commands.filterMap Command.segment?)[segIndex.toNat]?.elim 0 fun seg => seg.vmaddr.setWidth 64) := by
  rw [← segments_data p, segStartAddress, List.getElem?_map, List.getElem?_map]
  cases found : (segments p commands)[segIndex.toNat]? with
  | none => rfl
  | some place =>
    have read := segments_stored stored (List.mem_of_getElem? found)
    simp only [Option.map_some, read]
    rfl

def commandsSize : List Command → Nat
  | [] => 0
  | command :: rest => command.cmdsize.toNat + commandsSize rest

/-- The addresses that the load commands take up. -/
def commandArea (slice : LibraryInfo) (commands : List Command) (p : U32) : Prop :=
  (p - (slice.map + MachHeader.sizeOf)).toNat < commandsSize commands

/-- The segments come in the same order. -/
abbrev SameSegments (commands commands' : List Command) : Prop :=
  commands.filterMap Command.segment? = commands'.filterMap Command.segment?

/-- Two files that hold the same load commands in another order, with at most one table of each kind. Everything else
is the same, and lies outside the command area as far as it is looked at. -/
structure Reordered (mem mem' : Mem) (slice : LibraryInfo) (commands commands' : List Command) : Prop where
  perm : commands.Perm commands'
  layout : Layout mem slice commands
  layout' : Layout mem' slice commands'
  oneSymtab : (commands.filterMap Command.symtab?).length ≤ 1
  oneDysymtab : (commands.filterMap Command.dysymtab?).length ≤ 1
  oneDyldInfo : (commands.filterMap Command.dyldInfo?).length ≤ 1
  agree : AgreeOutside (commandArea slice commands) mem mem'
  header : Outside (commandArea slice commands) slice.machoHdr 28
  tables : TablesOutside mem (commandArea slice commands)
    (parseResult slice commands).lib

section

variable {env : Env} {mem' : Mem} {lib slice : LibraryInfo} {commands commands' : List Command}
  (files : Reordered env.mem mem' slice commands commands')
include files

theorem Reordered.machoHeader_same : machoHeader mem' slice = machoHeader env.mem slice := by
  have magic := readWord_agree files.agree (files.header.mono (Nat.le_add_left 4 24))
  have cputype : readWord mem' (slice.machoHdr + 4) = readWord env.mem (slice.machoHdr + 4) :=
    readWord_agree files.agree (files.header.part (Nat.le_add_left 8 20))
  have cpusubtype : readWord mem' (slice.machoHdr + 8) = readWord env.mem (slice.machoHdr + 8) :=
    readWord_agree files.agree (files.header.part (Nat.le_add_left 12 16))
  have filetype : readWord mem' (slice.machoHdr + 12) = readWord env.mem (slice.machoHdr + 12) :=
    readWord_agree files.agree (files.header.part (Nat.le_add_left 16 12))
  simp only [machoHeader, MachHeader.magic, MachHeader.cputype, MachHeader.cpusubtype, MachHeader.filetype, magic,
    cputype, cpusubtype, filetype]

/-- The state after the commands of either file. -/
theorem Reordered.alikeLibs (fresh : slice.machoDbi = []) (ordered : Prop) :
    AlikeLibs env.mem mem' ordered (parseResult slice commands).lib
      (parseResult slice commands').lib := by
  have symtab := eq_of_perm_short (files.perm.filterMap Command.symtab?) files.oneSymtab
  have dysymtab := eq_of_perm_short (files.perm.filterMap Command.dysymtab?) files.oneDysymtab
  have dyldInfo := eq_of_perm_short (files.perm.filterMap Command.dyldInfo?) files.oneDyldInfo
  refine ⟨⟨(parseResult slice commands').lib.machoVmranges,
    slice.machoDbi, ?_⟩, fun _ => rfl, ?_⟩
  · simp only [commandsResult, symtab, dysymtab, dyldInfo]
    rfl
  · intro info member
    have inSlice : info ∈ slice.machoDbi := member
    rw [fresh] at inSlice
    cases inSlice

theorem Reordered.alikeSegs :
    AlikeSegs env.mem mem' (SameSegments commands commands')
      (parseResult slice commands).segs
      (parseResult slice commands').segs := by
  intro segIndex
  have left := segStartAddress_eq files.layout.commands segIndex
  have right := segStartAddress_eq files.layout'.commands segIndex
  simp only [commandsResult, parseStart, List.nil_append]
  rw [left, right]
  intro ordered
  rw [ordered]

/-- Both parses return the states that the commands mean, or both fail an assertion. -/
theorem Reordered.machoParse_both (sliced : machoSlice env.mem lib = .ok slice)
    (sliced' : machoSlice mem' lib = .ok slice) :
    (machoParse env.mem lib = .ok (parseResult slice commands) ∧
      machoParse mem' lib = .ok (parseResult slice commands') ∧
      VmrangesFit (parseResult slice commands).lib.machoVmranges) ∨
    ((∃ fault, machoParse env.mem lib = .error fault ∧ IsAssertion fault) ∧
      ∃ fault, machoParse mem' lib = .error fault ∧ IsAssertion fault) := by
  have accepted := accepted_perm files.perm (slice.map + MachHeader.sizeOf) (slice.map + MachHeader.sizeOf) slice
  have left := machoCommands_decides files.layout.commands (parseStart_fits slice)
  have right := machoCommands_decides files.layout'.commands (parseStart_fits slice)
  rw [machoParse_eq sliced files.layout, machoParse_eq sliced' files.layout', files.machoHeader_same]
  have header := machoHeader_stops files.layout.header
  cases run : machoHeader env.mem slice with
  | error fault =>
    rw [run] at header
    exact Or.inr ⟨⟨fault, rfl, header⟩, fault, rfl, header⟩
  | ok _ =>
    by_cases fits : (∀ command ∈ commands, command.Fits slice.size) ∧
        (parseResult slice commands).Fits
    · exact Or.inl ⟨left.returns fits, right.returns (accepted.mp fits), fits.2.vmranges⟩
    · exact Or.inr ⟨left.stops fits, right.stops fun fits' => fits (accepted.mpr fits')⟩

/-- The two ends of the initialisation, once the commands are read. -/
theorem Reordered.machoBind_both (fresh : slice.machoDbi = []) :
    Related (AlikeLibs env.mem mem' (SameSegments commands commands'))
      (machoBind env.malloc env.mem (parseResult slice commands))
      (machoBind env.malloc mem' (parseResult slice commands')) :=
  machoBind_related env.malloc (files.alikeLibs fresh _) files.alikeSegs (files.tables.sameBind files.agree)

end

theorem machoBind_result {malloc : Malloc} {mem : Mem} {st : MachoParse} {result : LibraryInfo}
    (run : machoBind malloc mem st = .ok result) :
    ∃ dbi ndbi, result = { st.lib with machoDbi := dbi, machoNdbi := ndbi } := by
  unfold machoBind at run
  split at run
  · obtain ⟨info, _, rest⟩ := bind_ok.mp run
    cases info with
    | none =>
      cases rest
      exact ⟨st.lib.machoDbi, st.lib.machoNdbi, rfl⟩
    | some pair =>
      cases rest
      exact ⟨pair.1, pair.2, rfl⟩
  · cases run
    exact ⟨st.lib.machoDbi, st.lib.machoNdbi, rfl⟩

/-- Two runs that both fail an assertion, or both stop with another fault, or both return results with a common
property. -/
structure SameOutcome {α : Type} (left right : Except Fault α) (common : α → α → Prop) : Prop where
  asserts : (∃ site, left = .error (.assertion site)) ↔ ∃ site, right = .error (.assertion site)
  returns : (∃ result, left = .ok result) ↔ ∃ result, right = .ok result
  results : ∀ result result', left = .ok result → right = .ok result' → common result result'

theorem SameOutcome.of_related {α : Type} {left right : Except Fault α} {common : α → α → Prop}
    (related : Related common left right) : SameOutcome left right common := by
  cases left with
  | error fault =>
    cases right with
    | error fault' =>
      cases related
      exact ⟨Iff.rfl, Iff.rfl, nofun⟩
    | ok result' => exact False.elim related
  | ok result =>
    cases right with
    | error fault' => exact False.elim related
    | ok result' =>
      refine ⟨iff_of_false nofun nofun, iff_of_true ⟨result, rfl⟩ ⟨result', rfl⟩, ?_⟩
      intro value value' isLeft isRight
      cases isLeft
      cases isRight
      exact related

theorem SameOutcome.of_asserts {α : Type} {left right : Except Fault α} {common : α → α → Prop}
    (refused : ∃ fault, left = .error fault ∧ IsAssertion fault)
    (refused' : ∃ fault, right = .error fault ∧ IsAssertion fault) : SameOutcome left right common := by
  obtain ⟨_, rfl, site, rfl⟩ := refused
  obtain ⟨_, rfl, site', rfl⟩ := refused'
  exact ⟨iff_of_true ⟨site, rfl⟩ ⟨site', rfl⟩, iff_of_false nofun nofun, nofun⟩

/-- What two parsed files have in common: every pointer, and if the segments keep their order every relocation. -/
structure SameLookups (env : Env) (mem' : Mem) (ordered : Prop) (result result' : LibraryInfo) : Prop where
  getPtr : ∀ addr size, symtabMachoGetPtr result addr size = symtabMachoGetPtr result' addr size
  findReloc : ordered → ∀ slot addr, symtabMachoFindRelocSymForAddr env slot result addr =
    symtabMachoFindRelocSymForAddr { env with mem := mem' } slot result' addr

section

variable {env : Env} {mem' : Mem} {lib slice : LibraryInfo} {commands commands' : List Command}
  (files : Reordered env.mem mem' slice commands commands')
include files

theorem Reordered.sameLookups {result result' : LibraryInfo}
    (fit : VmrangesFit (parseResult slice commands).lib.machoVmranges)
    (bound : machoBind env.malloc env.mem (parseResult slice commands) = .ok result)
    (bound' : machoBind env.malloc mem' (parseResult slice commands') = .ok result')
    (libs : AlikeLibs env.mem mem' (SameSegments commands commands')
      result result') :
    SameLookups env mem' (SameSegments commands commands') result result' := by
  obtain ⟨dbi, ndbi, isResult⟩ := machoBind_result bound
  obtain ⟨dbi', ndbi', isResult'⟩ := machoBind_result bound'
  refine ⟨?_, ?_⟩
  · intro addr size
    have perm := commandsData_perm files.perm (slice.map + MachHeader.sizeOf) (slice.map + MachHeader.sizeOf) slice
    have map : result'.map = result.map := by rw [isResult, isResult']; rfl
    have fitResult : VmrangesFit result.machoVmranges := by rw [isResult]; exact fit
    have permResult : (result.machoVmranges.map MachoVmrange.data).Perm
        (result'.machoVmranges.map MachoVmrange.data) := by
      rw [isResult, isResult']
      exact perm
    exact getPtr_perm map fitResult permResult addr size
  · intro ordered slot addr
    have tables : TablesOutside env.mem (commandArea slice commands) result := by
      obtain ⟨symbols, names, relocs, bind, bindNames⟩ := files.tables
      rw [isResult]
      exact ⟨symbols, names, relocs, bind, bindNames⟩
    exact (findReloc_agree files.agree tables ⟨libs.shape, fun _ => libs.same ordered, libs.names⟩ addr).symm

end

/-- The order of the load commands has no effect on whether the initialisation fails an assertion or returns, nor on
any pointer, and none on a lookup of a relocation if the segments keep their order. -/
theorem symtabMachoInit_reordered {env : Env} {mem' : Mem} {lib slice : LibraryInfo} {commands commands' : List Command}
    (files : Reordered env.mem mem' slice commands commands') (sliced : machoSlice env.mem lib = .ok slice)
    (sliced' : machoSlice mem' lib = .ok slice) (fresh : slice.machoDbi = []) :
    SameOutcome (symtabMachoInit env.malloc env.mem lib) (symtabMachoInit env.malloc mem' lib)
      (SameLookups env mem' (SameSegments commands commands')) := by
  rcases files.machoParse_both sliced sliced' with accepted | refused
  · obtain ⟨parse, parse', fit⟩ := accepted
    have libs := SameOutcome.of_related (files.machoBind_both fresh)
    rw [symtabMachoInit, symtabMachoInit, parse, parse', ok_bind, ok_bind]
    refine ⟨libs.asserts, libs.returns, ?_⟩
    intro result result' bound bound'
    exact files.sameLookups fit bound bound' (libs.results result result' bound bound')
  · obtain ⟨⟨fault, parse, asserts⟩, fault', parse', asserts'⟩ := refused
    rw [symtabMachoInit, symtabMachoInit, parse, parse', error_bind, error_bind]
    exact .of_asserts ⟨fault, rfl, asserts⟩ ⟨fault', rfl, asserts'⟩

theorem wordBytes_append (first rest : List U32) : wordBytes (first ++ rest) = wordBytes first ++ wordBytes rest :=
  List.flatMap_append

theorem wordBytes_length (words : List U32) : (wordBytes words).length = 4 * words.length := by
  induction words with
  | nil => rfl
  | cons word rest ih =>
    rw [← List.singleton_append, wordBytes_append, List.length_append, ih, List.length_append]
    have one : (wordBytes [word]).length = 4 := rfl
    rw [one, List.length_singleton]
    omega

theorem getElem?_middle {α : Type} {before middle middle' after : List α} {i : Nat}
    (same : middle.length = middle'.length) (outside : i < before.length ∨ before.length + middle.length ≤ i) :
    (before ++ middle ++ after)[i]? = (before ++ middle' ++ after)[i]? := by
  rcases outside with less | beyond
  · rw [List.append_assoc, List.append_assoc, List.getElem?_append_left less, List.getElem?_append_left less]
  · have total : (before ++ middle).length ≤ i := by rwa [List.length_append]
    have total' : (before ++ middle').length ≤ i := by rwa [List.length_append, ← same]
    rw [List.getElem?_append_right total, List.getElem?_append_right total', List.length_append, List.length_append,
      same]

/-- Images with as many and as long commands agree outside of them. -/
theorem imageMem_agree {commands commands' : List Command} {tables : List U32}
    (count : commands.length = commands'.length)
    (words : (commands.flatMap Command.words).length = (commands'.flatMap Command.words).length)
    (size : commandsSize commands = 4 * (commands.flatMap Command.words).length) :
    AgreeOutside (commandArea imageSlice commands) (imageMem commands tables) (imageMem commands' tables) := by
  intro p outside
  rw [commandArea, size] at outside
  have start : imageSlice.map + MachHeader.sizeOf = 0x101c := rfl
  rw [start] at outside
  simp only [imageMem, Mem.ofBytes, wordBytes_append, count]
  split
  · rfl
  · refine getElem?_middle ?_ ?_
    · rw [wordBytes_length, wordBytes_length, words]
    · rw [wordBytes_length, wordBytes_length]
      have header : (headerWords commands'.length).length = 7 := rfl
      rw [header]
      bv_omega

/-- A stream that binds a place in the first segment. -/
def bindWords : List U32 := [0x00785f40, 0x00901070]

def forwardHost : Env :=
  { silentHost with mem := imageMem [dyldInfoCommand, segmentCommand, symtabCommand] bindWords }

def backwardMem : Mem := imageMem [symtabCommand, segmentCommand, dyldInfoCommand] bindWords

theorem reorderedImages : Reordered forwardHost.mem backwardMem imageSlice
    [dyldInfoCommand, segmentCommand, symtabCommand] [symtabCommand, segmentCommand, dyldInfoCommand] := by
  have area : ∀ p : U32, 0x10e0 ≤ p →
      ¬commandArea imageSlice [dyldInfoCommand, segmentCommand, symtabCommand] p := by
    intro p after inside
    have close : (p - 0x101c).toNat < 196 := inside
    bv_omega
  refine ⟨(List.reverse_perm _).symm, (imageLayout rfl (by decide +kernel) (by decide +kernel)).2,
    (imageLayout rfl (by decide +kernel) (by decide +kernel)).2, by decide, by decide, by decide,
    imageMem_agree rfl rfl rfl, ?_, nofun, nofun, nofun, ?_, ?_⟩
  · intro k before inside
    have close : ((0x1000 : U32) + BitVec.ofNat 32 k - 0x101c).toNat < 196 := inside
    bv_omega
  · intro p after _
    exact area p after
  · intro p b after before _ _
    have start : (0x10e0 : U32) ≤ p := after
    have stop : p < (0x10e7 : U32) := before
    have nul : forwardHost.mem.byte 0x10e7 = some 0 := by decide +kernel
    refine .of_nul (by bv_omega) nul ?_
    intro q later _
    exact area q (by bv_omega)

theorem reorderedImages_same :
    SameOutcome (symtabMachoInit forwardHost.malloc forwardHost.mem imageLib)
        (symtabMachoInit forwardHost.malloc backwardMem imageLib)
        (SameLookups forwardHost backwardMem
          (SameSegments [dyldInfoCommand, segmentCommand, symtabCommand]
            [symtabCommand, segmentCommand, dyldInfoCommand])) ∧
      (symtabMachoInit forwardHost.malloc forwardHost.mem imageLib).map LibraryInfo.machoDbi =
        .ok [⟨0x2010, 0, 0x10e1⟩] := by
  have magic : MachHeader.magic forwardHost.mem imageLib.map = .ok mhMagic := by decide +kernel
  have magic' : MachHeader.magic backwardMem imageLib.map = .ok mhMagic := by decide +kernel
  refine ⟨symtabMachoInit_reordered reorderedImages (machoSlice_thin magic) (machoSlice_thin magic') rfl, ?_⟩
  decide +kernel

end Classgraph
