import Classgraph.General.Run
import Classgraph.Main

namespace Classgraph
open Run Machine

/-- A read where nothing is mapped. -/
def IsSegv (fault : Fault) : Prop := ∃ address, fault = .segv address

section

variable {m whole : Mem} (within : m.Within whole)
include within

theorem readByte_follows (p : U32) : Follows IsSegv (readByte m p) (readByte whole p) := by
  unfold readByte
  cases read : m.byte p with
  | none => exact .stops ⟨p, rfl⟩ _
  | some b =>
    rw [within p b read]
    exact .refl _

theorem readHalf_follows (p : U32) : Follows IsSegv (readHalf m p) (readHalf whole p) := by
  unfold readHalf
  cases read : m.half p with
  | none => exact .stops ⟨p, rfl⟩ _
  | some x =>
    rw [within.half read]
    exact .refl _

theorem readWord_follows (p : U32) : Follows IsSegv (readWord m p) (readWord whole p) := by
  unfold readWord
  cases read : m.word p with
  | none => exact .stops ⟨p, rfl⟩ _
  | some x =>
    rw [within.word read]
    exact .refl _

theorem readCStr_follows (p : U32) : Follows IsSegv (readCStr m p) (readCStr whole p) := by
  unfold readCStr
  cases read : m.cstr p with
  | none => exact .stops ⟨p, rfl⟩ _
  | some str =>
    rw [within.cstr read]
    exact .refl _

theorem machoGetSymName_follows (lib : LibraryInfo) (sym : U32) :
    Follows IsSegv (machoGetSymName m lib sym) (machoGetSymName whole lib sym) := by
  refine (readWord_follows within _).bind fun strx => .ite (.refl _) ?_
  exact (readCStr_follows within _).bind fun _ => .refl _

theorem machoGetSymAddr_follows (sym : U32) :
    Follows IsSegv (machoGetSymAddr m sym) (machoGetSymAddr whole sym) := by
  refine (readByte_follows within _).bind fun type => .ite (.refl _) (.ite (.refl _) (.ite ?_ (.refl _)))
  exact readWord_follows within _

theorem fatArchMatches_follows (arch : U32) :
    Follows IsSegv (fatArchMatches m arch) (fatArchMatches whole arch) := by
  refine (readWord_follows within _).bind fun cputype => .ite ?_ (.refl _)
  exact (readWord_follows within _).bind fun _ => .refl _

theorem fatArchLoop_follows (n : Nat) (arch : U32) :
    Follows IsSegv (fatArchLoop m n arch) (fatArchLoop whole n arch) := by
  induction n generalizing arch with
  | zero => exact .refl _
  | succ n ih => exact (fatArchMatches_follows within arch).bind fun _ => .ite (.refl _) (ih _)

theorem machoSlice_follows (lib : LibraryInfo) : Follows IsSegv (machoSlice m lib) (machoSlice whole lib) := by
  refine (readWord_follows within _).bind fun magic => .ite ?_ (.refl _)
  refine (readWord_follows within _).bind fun nfatArch => (fatArchLoop_follows within _ _).bind fun found => ?_
  cases found with
  | none => exact .refl _
  | some arch => exact (readWord_follows within _).bind fun _ => (readWord_follows within _).bind fun _ => .refl _

theorem machoHeader_follows (lib : LibraryInfo) : Follows IsSegv (machoHeader m lib) (machoHeader whole lib) := by
  refine (readWord_follows within _).bind fun _ => (Follows.refl _).bind fun _ => ?_
  refine (readWord_follows within _).bind fun _ => (Follows.refl _).bind fun _ => ?_
  refine (readWord_follows within _).bind fun _ => (Follows.refl _).bind fun _ => ?_
  exact (readWord_follows within _).bind fun _ => .refl _

theorem sectionIsMapped_follows (segCmd sect : U32) :
    Follows IsSegv (sectionIsMapped m segCmd sect) (sectionIsMapped whole segCmd sect) := by
  refine (readWord_follows within _).bind fun filesize => .ite ?_ (.refl _)
  exact (readWord_follows within _).bind fun _ => .refl _

theorem sectionAddrs_follows (segCmd sect : U32) :
    Follows IsSegv (sectionAddrs m segCmd sect) (sectionAddrs whole segCmd sect) := by
  refine (readWord_follows within _).bind fun _ => (readWord_follows within _).bind fun _ => ?_
  refine (Follows.refl _).bind fun _ => (readWord_follows within _).bind fun _ => ?_
  refine (Follows.refl _).bind fun _ => (readWord_follows within _).bind fun _ => ?_
  exact .refl _

theorem sectionOffsets_follows (segCmd sect : U32) :
    Follows IsSegv (sectionOffsets m segCmd sect) (sectionOffsets whole segCmd sect) := by
  refine (readWord_follows within _).bind fun _ => (readWord_follows within _).bind fun _ => ?_
  refine (Follows.refl _).bind fun _ => (readWord_follows within _).bind fun _ => ?_
  refine (Follows.refl _).bind fun _ => (readWord_follows within _).bind fun _ => ?_
  exact .refl _

theorem machoSection_follows (segCmd : U32) (nsegs j : Nat) (sect : U32) (vmranges : List MachoVmrange) :
    Follows IsSegv (machoSection m segCmd nsegs j sect vmranges)
      (machoSection whole segCmd nsegs j sect vmranges) := by
  refine (Follows.refl _).bind fun _ => (sectionIsMapped_follows within _ _).bind fun isMapped => ?_
  refine (sectionAddrs_follows within _ _).bind fun addrs => ?_
  refine .ite ((sectionOffsets_follows within _ _).bind fun _ => ?_) ?_
  · exact (readWord_follows within _).bind fun _ => .refl _
  · exact (readWord_follows within _).bind fun _ => .refl _

theorem machoSections_follows (segCmd : U32) (nsegs n j : Nat) (sect : U32) (vmranges : List MachoVmrange) :
    Follows IsSegv (machoSections m segCmd nsegs n j sect vmranges)
      (machoSections whole segCmd nsegs n j sect vmranges) := by
  induction n generalizing j sect vmranges with
  | zero => exact .refl _
  | succ n ih => exact (machoSection_follows within _ _ _ _ _).bind fun _ => ih _ _ _

theorem machoSegment_follows (segCmd : U32) (st : MachoParse) :
    Follows IsSegv (machoSegment m segCmd st) (machoSegment whole segCmd st) := by
  refine (readWord_follows within _).bind fun _ => (readWord_follows within _).bind fun _ => ?_
  refine (Follows.refl _).bind fun _ => (readWord_follows within _).bind fun _ => ?_
  exact (machoSections_follows within _ _ _ _ _ _).bind fun _ => .refl _

theorem machoSymtab_follows (cmd : U32) (lib : LibraryInfo) :
    Follows IsSegv (machoSymtab m cmd lib) (machoSymtab whole cmd lib) := by
  refine (readWord_follows within _).bind fun _ => (readWord_follows within _).bind fun _ => ?_
  exact (readWord_follows within _).bind fun _ => (readWord_follows within _).bind fun _ => .refl _

theorem machoDysymtab_follows (cmd : U32) (lib : LibraryInfo) :
    Follows IsSegv (machoDysymtab m cmd lib) (machoDysymtab whole cmd lib) :=
  (readWord_follows within _).bind fun _ => (readWord_follows within _).bind fun _ => .refl _

theorem machoDyldInfo_follows (cmd : U32) (lib : LibraryInfo) :
    Follows IsSegv (machoDyldInfo m cmd lib) (machoDyldInfo whole cmd lib) := by
  refine (readWord_follows within _).bind fun _ => (readWord_follows within _).bind fun _ => ?_
  refine (readWord_follows within _).bind fun _ => (readWord_follows within _).bind fun _ => ?_
  refine (readWord_follows within _).bind fun _ => (readWord_follows within _).bind fun _ => ?_
  refine (readWord_follows within _).bind fun _ => (readWord_follows within _).bind fun _ => ?_
  exact (readWord_follows within _).bind fun _ => (readWord_follows within _).bind fun _ => .refl _

theorem machoCommand_follows (cmd : U32) (st : MachoParse) :
    Follows IsSegv (machoCommand m cmd st) (machoCommand whole cmd st) := by
  refine (readWord_follows within _).bind fun kind => .ite (machoSegment_follows within _ _) (.ite ?_ (.ite ?_ ?_))
  · exact (machoSymtab_follows within _ _).bind fun _ => .refl _
  · exact (machoDysymtab_follows within _ _).bind fun _ => .refl _
  · exact .ite ((machoDyldInfo_follows within _ _).bind fun _ => .refl _) (.refl _)

theorem machoCommands_follows (n : Nat) (cmd : U32) (st : MachoParse) :
    Follows IsSegv (machoCommands m n cmd st) (machoCommands whole n cmd st) := by
  induction n generalizing cmd st with
  | zero => exact .refl _
  | succ n ih =>
    exact (machoCommand_follows within _ _).bind fun _ => (readWord_follows within _).bind fun _ => ih _ _

theorem machoParse_follows (lib : LibraryInfo) : Follows IsSegv (machoParse m lib) (machoParse whole lib) := by
  refine (machoSlice_follows within _).bind fun _ => (machoHeader_follows within _).bind fun _ => ?_
  exact (readWord_follows within _).bind fun _ => machoCommands_follows within _ _ _

theorem segStartAddress_follows (segIndex : U8) (segs : List U32) :
    Follows IsSegv (segStartAddress m segIndex segs) (segStartAddress whole segIndex segs) := by
  unfold segStartAddress
  split
  · exact .refl _
  · exact (readWord_follows within _).bind fun _ => .refl _

theorem uleb128Loop_follows (stop : U32) (n : Nat) (p : U32) (bit : Nat) (result : U64) :
    Follows IsSegv (uleb128Loop m stop n p bit result) (uleb128Loop whole stop n p bit result) := by
  induction n generalizing p bit result with
  | zero => exact .refl _
  | succ n ih =>
    refine .ite (.refl _) ((readByte_follows within _).bind fun byte => .ite (.refl _) (.ite ?_ (.refl _)))
    exact ih _ _ _

theorem sleb128Loop_follows (stop : U32) (n : Nat) (p : U32) (bit : Nat) (result : U64) :
    Follows IsSegv (sleb128Loop m stop n p bit result) (sleb128Loop whole stop n p bit result) := by
  induction n generalizing p bit result with
  | zero => exact .refl _
  | succ n ih =>
    refine .ite (.refl _) ((readByte_follows within _).bind fun byte => .ite ?_ (.refl _))
    exact ih _ _ _

theorem readUleb128_follows (p stop : U32) : Follows IsSegv (readUleb128 m p stop) (readUleb128 whole p stop) :=
  uleb128Loop_follows within _ _ _ _ _

theorem readSleb128_follows (p stop : U32) : Follows IsSegv (readSleb128 m p stop) (readSleb128 whole p stop) :=
  sleb128Loop_follows within _ _ _ _ _

theorem bindOpcode_follows (segs : List U32) (stop : U32) (pass : BindPass) (opcode immediate : U8) (p : U32)
    (st : BindState) : Follows IsSegv (bindOpcode m segs stop pass opcode immediate p st)
      (bindOpcode whole segs stop pass opcode immediate p st) := by
  unfold bindOpcode
  split
  · exact .refl _
  · exact .refl _
  · exact (readUleb128_follows within _ _).bind fun _ => .refl _
  · exact .refl _
  · exact (readCStr_follows within _).bind fun _ => .refl _
  · exact .refl _
  · exact (readSleb128_follows within _ _).bind fun _ => .refl _
  · exact (segStartAddress_follows within _ _).bind fun _ => (readUleb128_follows within _ _).bind fun _ => .refl _
  · exact (readUleb128_follows within _ _).bind fun _ => .refl _
  · exact .refl _
  · exact (Follows.refl _).bind fun _ => (readUleb128_follows within _ _).bind fun _ => .refl _
  · exact .refl _
  · exact (readUleb128_follows within _ _).bind fun _ => (readUleb128_follows within _ _).bind fun _ => .refl _
  · exact .refl _

theorem bindLoop_follows (segs : List U32) (stop : U32) (pass : BindPass) (fuel : Nat) (p : U32) (st : BindState) :
    Follows IsSegv (bindLoop m segs stop pass fuel p st) (bindLoop whole segs stop pass fuel p st) := by
  induction fuel generalizing p st with
  | zero => exact .refl _
  | succ fuel ih =>
    refine .ite (.refl _) ((readByte_follows within _).bind fun byte => ?_)
    refine (bindOpcode_follows within _ _ _ _ _ _ _).bind fun next => ?_
    cases next with
    | none => exact .refl _
    | some next => exact ih _ _

theorem bindRun_follows (segs : List U32) (start stop : U32) (pass : BindPass) :
    Follows IsSegv (bindRun m segs start stop pass) (bindRun whole segs start stop pass) :=
  bindLoop_follows within _ _ _ _ _ _

theorem getDyldBindInfo_follows (malloc : Malloc) (start stop : U32) (segs : List U32) :
    Follows IsSegv (getDyldBindInfo malloc m start stop segs) (getDyldBindInfo malloc whole start stop segs) := by
  refine (bindRun_follows within _ _ _ _).bind fun counted => ?_
  cases counted with
  | none => exact .refl _
  | some counted => exact (bindRun_follows within _ _ _ _).bind fun _ => .refl _

theorem machoBind_follows (malloc : Malloc) (st : MachoParse) :
    Follows IsSegv (machoBind malloc m st) (machoBind malloc whole st) :=
  .ite ((getDyldBindInfo_follows within _ _ _ _).bind fun _ => .refl _) (.refl _)

theorem symtabMachoInit_follows (malloc : Malloc) (lib : LibraryInfo) :
    Follows IsSegv (symtabMachoInit malloc m lib) (symtabMachoInit malloc whole lib) :=
  (machoParse_follows within _).bind fun _ => machoBind_follows within _ _

theorem extRelocMatches_follows (reloc addr : U32) :
    Follows IsSegv (extRelocMatches m reloc addr) (extRelocMatches whole reloc addr) := by
  refine (readWord_follows within _).bind fun _ => .ite ?_ (.refl _)
  exact (readWord_follows within _).bind fun _ => .refl _

theorem elfSectionMatches_follows (lib : LibraryInfo) (type : U32) (name : Option CStr) (scn : ElfScn) :
    Follows IsSegv (elfSectionMatches m lib type name scn) (elfSectionMatches whole lib type name scn) := by
  refine .ite (.refl _) ?_
  cases name with
  | none => exact .refl _
  | some name => exact ((readHalf_follows within _).bind fun _ => .refl _).bind fun _ => .refl _

theorem symtabElfFindSection_follows (lib : LibraryInfo) (type : U32) (name : Option CStr) :
    Follows IsSegv (symtabElfFindSection m lib type name) (symtabElfFindSection whole lib type name) :=
  .foldlM (fun _ _ => (elfSectionMatches_follows within _ _ _ _).bind fun _ => .refl _) _ _

theorem isElfIdent_follows (lib : LibraryInfo) : Follows IsSegv (isElfIdent m lib) (isElfIdent whole lib) :=
  .ite ((readWord_follows within _).bind fun _ => .refl _) (.refl _)

theorem elfFormat_follows (lib : LibraryInfo) : Follows IsSegv (elfFormat m lib) (elfFormat whole lib) := by
  refine (isElfIdent_follows within _).bind fun _ => .ite ?_ (.refl _)
  refine (readByte_follows within _).bind fun _ => (Follows.refl _).bind fun _ => ?_
  refine (readByte_follows within _).bind fun _ => (Follows.refl _).bind fun _ => ?_
  exact (readByte_follows within _).bind fun _ => .refl _

theorem machoFormat_follows (lib : LibraryInfo) : Follows IsSegv (machoFormat m lib) (machoFormat whole lib) :=
  .ite ((readWord_follows within _).bind fun _ => .refl _) (.refl _)

theorem libFormat_follows (lib : LibraryInfo) : Follows IsSegv (libFormat m lib) (libFormat whole lib) :=
  (elfFormat_follows within _).bind fun _ => (machoFormat_follows within _).bind fun _ => .refl _

end

section

variable {env : Env} {m : Mem} (within : m.Within env.mem)
include within

theorem elfDepends_follows (lib : LibraryInfo) :
    Follows IsSegv (elfDepends { env with mem := m } lib) (elfDepends env lib) := by
  refine (symtabElfFindSection_follows within _ _ _).bind fun _ => (Follows.refl _).bind fun _ => ?_
  exact (symtabElfFindSection_follows within _ _ _).bind fun _ => .refl _

theorem symtabElfInit_follows (lib : LibraryInfo) :
    Follows IsSegv (symtabElfInit { env with mem := m } lib) (symtabElfInit env lib) := by
  refine (symtabElfFindSection_follows within _ _ _).bind fun found => .ite ?_ ?_
  · refine (Follows.refl _).bind fun _ => (Follows.refl _).bind fun _ => ?_
    exact (elfDepends_follows within _).bind fun _ => .refl _
  · exact (Follows.refl _).bind fun _ => (elfDepends_follows within _).bind fun _ => .refl _

theorem symtabInit_follows (lib : LibraryInfo) :
    Follows IsSegv (symtabInit { env with mem := m } lib) (symtabInit env lib) := by
  refine .ite ((symtabElfInit_follows within _).bind fun lib => ?_) ?_
  · exact .ite (symtabMachoInit_follows within _ _) (.refl _)
  · exact .ite (symtabMachoInit_follows within _ _) (.refl _)

theorem libLoad_follows (lib : LibraryInfo) (primary : Bool) (path : CStr) :
    Follows IsSegv (libLoad { env with mem := m } lib primary path) (libLoad env lib primary path) := by
  refine (Follows.refl _).bind fun _ => (Follows.refl _).bind fun _ => (libFormat_follows within _).bind fun _ => ?_
  refine (Follows.refl _).bind fun base => ?_
  cases base with
  | none => exact .refl _
  | some baseaddr => exact (symtabInit_follows within _).bind fun _ => .refl _

theorem libInit_follows (fuel : Nat) (primary : Bool) (path : CStr) (libs : Libs) :
    Follows IsSegv (libInit { env with mem := m } fuel primary path libs) (libInit env fuel primary path libs) := by
  induction fuel generalizing primary path libs with
  | zero => exact .refl _
  | succ fuel ih =>
    unfold libInit
    split
    · exact .refl _
    · refine (libLoad_follows within _ _ _).bind fun loaded => .foldlM (fun libs needed => ?_) _ _
      exact .ite (ih _ _ _) (.refl _)

theorem machoForeachEntry_follows (slot : Slot) (lib : LibraryInfo) (i : Nat) :
    Follows IsSegv (machoForeachEntry { env with mem := m } slot lib i) (machoForeachEntry env slot lib i) := by
  refine (readByte_follows within _).bind fun _ => .ite (.refl _) ((Follows.refl _).bind fun _ => ?_)
  refine (machoGetSymAddr_follows within _).bind fun _ => (machoGetSymName_follows within _ _).bind fun _ => ?_
  exact .refl _

/-- The enumeration of the symbols. What libelf presents of a file is not read here. -/
theorem symtabForeach_follows (libs : Libs) :
    Emits.Follows IsSegv (symtabForeach { env with mem := m } libs) (symtabForeach env libs) := by
  refine .flow _ fun slot => (Emits.Follows.refl _).append ?_
  unfold symtabMachoForeach
  split
  · exact .each (machoForeachEntry_follows within _ _) _ _
  · exact .refl _

theorem extRelocSymbol_follows (slot : Slot) (lib : LibraryInfo) (reloc : U32) :
    Follows IsSegv (extRelocSymbol { env with mem := m } slot lib reloc) (extRelocSymbol env slot lib reloc) := by
  refine (readWord_follows within _).bind fun _ => (Follows.refl _).bind fun _ => ?_
  refine (machoGetSymAddr_follows within _).bind fun _ => (machoGetSymName_follows within _ _).bind fun _ => ?_
  exact .refl _

theorem extRelocLoop_follows (slot : Slot) (lib : LibraryInfo) (addr : U32) (n : Nat) (reloc : U32) :
    Follows IsSegv (extRelocLoop { env with mem := m } slot lib addr n reloc)
      (extRelocLoop env slot lib addr n reloc) := by
  induction n generalizing reloc with
  | zero => exact .refl _
  | succ n ih =>
    refine (extRelocMatches_follows within _ _).bind fun _ => .ite ?_ (ih _)
    exact (extRelocSymbol_follows within _ _ _).bind fun _ => .refl _

theorem bindInfoLoop_follows (slot : Slot) (lib : LibraryInfo) (addr : U32) (n i : Nat) :
    Follows IsSegv (bindInfoLoop { env with mem := m } slot lib addr n i) (bindInfoLoop env slot lib addr n i) := by
  induction n generalizing i with
  | zero => exact .refl _
  | succ n ih =>
    unfold bindInfoLoop
    split
    · exact .refl _
    · refine .ite ?_ (ih _)
      exact ((readCStr_follows within _).bind fun _ => .refl _).bind fun _ => .refl _

theorem symtabMachoFindRelocSymForAddr_follows (slot : Slot) (lib : LibraryInfo) (addr : U32) :
    Follows IsSegv (symtabMachoFindRelocSymForAddr { env with mem := m } slot lib addr)
      (symtabMachoFindRelocSymForAddr env slot lib addr) := by
  refine (extRelocLoop_follows within _ _ _ _ _).bind fun found => ?_
  cases found with
  | none => exact .ite (bindInfoLoop_follows within _ _ _ _ _) (.refl _)
  | some entry => exact .refl _

theorem typeinfoHead_follows (libs : Libs) (sym : Symbol) :
    Follows IsSegv (typeinfoHead { env with mem := m } libs sym) (typeinfoHead env libs sym) := by
  refine .ite ?_ (.refl _)
  refine (Follows.refl _).bind fun _ => (symtabMachoFindRelocSymForAddr_follows within _ _ _).bind fun _ => ?_
  exact .refl _

variable {libs : Libs} {symcache : Symcache} {level : Nat} {recurse recurse' : Symbol → Emits Fault Line}
  (calls : ∀ base, Emits.Follows IsSegv (recurse base) (recurse' base))
include calls

theorem siBase_follows (rtti : U32) : Emits.Follows IsSegv (siBase { env with mem := m } libs symcache rtti recurse)
    (siBase env libs symcache rtti recurse') := by
  unfold siBase
  rcases readWord_follows within (rtti + 8) with same | ⟨fault, stopped, segv⟩
  · rw [same]
    cases readWord env.mem (rtti + 8) with
    | error fault => exact .refl _
    | ok baseType =>
      dsimp only
      split
      · exact calls _
      · exact .refl _
  · rw [stopped]
    exact .halt segv _

theorem vmiBase_follows (rtti : U32) (i : Nat) :
    Emits.Follows IsSegv (vmiBase { env with mem := m } libs symcache level rtti recurse i)
      (vmiBase env libs symcache level rtti recurse' i) := by
  unfold vmiBase
  dsimp only
  rcases readWord_follows within (rtti + 16 + 8 * BitVec.ofNat 32 i + 4) with same | ⟨fault, stopped, segv⟩
  · rw [same]
    cases readWord env.mem (rtti + 16 + 8 * BitVec.ofNat 32 i + 4) with
    | error fault => exact .refl _
    | ok offsetFlags =>
      refine (Emits.Follows.refl _).append ?_
      rcases readWord_follows within (rtti + 16 + 8 * BitVec.ofNat 32 i) with same | ⟨fault, stopped, segv⟩
      · rw [same]
        cases readWord env.mem (rtti + 16 + 8 * BitVec.ofNat 32 i) with
        | error fault => exact .refl _
        | ok baseType =>
          dsimp only
          split
          · exact calls _
          · exact .refl _
      · rw [stopped]
        exact .halt segv _
  · rw [stopped]
    exact .halt segv _

theorem vmiBases_follows (rtti : U32) :
    Emits.Follows IsSegv (vmiBases { env with mem := m } libs symcache level rtti recurse)
      (vmiBases env libs symcache level rtti recurse') := by
  unfold vmiBases
  rcases readWord_follows within (rtti + 12) with same | ⟨fault, stopped, segv⟩
  · rw [same]
    cases readWord env.mem (rtti + 12) with
    | error fault => exact .refl _
    | ok baseCount => exact .flow _ (vmiBase_follows within calls _)
  · rw [stopped]
    exact .halt segv _

theorem typeinfoBases_follows (head : TypeinfoHead) :
    Emits.Follows IsSegv (typeinfoBases { env with mem := m } libs symcache level head recurse)
      (typeinfoBases env libs symcache level head recurse') := by
  unfold typeinfoBases
  split
  · exact siBase_follows within calls _
  · split
    · exact vmiBases_follows within calls _
    · exact .refl _

end

section

variable {env : Env} {m : Mem} (within : m.Within env.mem)
include within

theorem recurseTypeinfo_follows (libs : Libs) (symcache : Symcache) (fuel level : Nat) (sym : Symbol) :
    Emits.Follows IsSegv (recurseTypeinfo { env with mem := m } libs symcache fuel level sym)
      (recurseTypeinfo env libs symcache fuel level sym) := by
  induction fuel generalizing level sym with
  | zero => exact .refl _
  | succ fuel ih =>
    unfold recurseTypeinfo
    split
    · exact .refl _
    · split
      · exact .refl _
      · rcases typeinfoHead_follows within libs sym with same | ⟨fault, stopped, segv⟩
        · rw [same]
          cases typeinfoHead env libs sym with
          | error fault => exact .refl _
          | ok head =>
            refine (Emits.Follows.refl _).append ((Emits.Follows.refl _).append ?_)
            exact typeinfoBases_follows within (ih _) _
        · rw [stopped]
          exact .halt segv _

theorem mainPrint_follows (libs : Libs) (lFilter : CStr → Bool) :
    Emits.Follows IsSegv (mainPrint { env with mem := m } libs lFilter) (mainPrint env libs lFilter) := by
  rcases symtabForeach_follows within libs with same | ⟨⟨fault, stopped, segv⟩, _⟩
  · rw [mainPrint, mainPrint, same]
    dsimp only
    split
    · exact .refl _
    · exact .flow _ (recurseTypeinfo_follows within _ _ _ _)
  · rw [mainPrint, stopped]
    exact .halt segv _

theorem mainThrow_follows (libs : Libs) :
    Emits.Follows IsSegv (mainThrow { env with mem := m } libs) (mainThrow env libs) := by
  have enumerated := symtabForeach_follows within libs
  by_cases throws : (symtabForeach { env with mem := m } libs).events.any fun sym => strncmpEq sym.name "_ZTI".toList 4
  · have throws' : (symtabForeach env libs).events.any fun sym => strncmpEq sym.name "_ZTI".toList 4 := by
      obtain ⟨sym, member, isTypeinfo⟩ := List.any_eq_true.mp throws
      exact List.any_eq_true.mpr ⟨sym, enumerated.events.subset member, isTypeinfo⟩
    rw [mainThrow, mainThrow, if_pos throws, if_pos throws']
    exact .refl _
  · rcases enumerated with same | ⟨⟨fault, stopped, segv⟩, _⟩
    · rw [mainThrow, mainThrow, same]
      exact .refl _
    · rw [mainThrow, if_neg throws, stopped]
      exact .halt segv _

theorem mainLoaded_follows (libs : Libs) (argFilter : Option CStr) :
    Emits.Follows IsSegv (mainLoaded { env with mem := m } libs argFilter) (mainLoaded env libs argFilter) := by
  have filter : mainFilter { env with mem := m } argFilter = mainFilter env argFilter := by
    cases argFilter <;> rfl
  rw [mainLoaded, mainLoaded, filter]
  split
  · exact mainThrow_follows within libs
  · exact mainPrint_follows within libs _

theorem libInitPrimary_follows (path : CStr) :
    Follows IsSegv (libInitPrimary { env with mem := m } path) (libInitPrimary env path) :=
  libInit_follows within _ _ _ _

/-- Where less is mapped, the program does the same, up to the first read of what is missing. -/
theorem mainRun_follows (args : List CStr) :
    Emits.Follows IsSegv (mainRun { env with mem := m } args) (mainRun env args) := by
  have started : ∀ (argLib : CStr) (argFilter : Option CStr), Emits.Follows IsSegv
      (mainRun { env with mem := m } (argLib :: argFilter.toList)) (mainRun env (argLib :: argFilter.toList)) := by
    intro argLib argFilter
    rcases libInitPrimary_follows within argLib with same | ⟨fault, stopped, segv⟩
    · cases run : libInitPrimary env argLib with
      | error fault =>
        cases argFilter <;> simp only [mainRun, Option.toList, same, run]
        all_goals exact .refl _
      | ok libs =>
        cases argFilter <;> simp only [mainRun, Option.toList, same, run]
        all_goals exact mainLoaded_follows within libs _
    · cases argFilter <;> simp only [mainRun, Option.toList, stopped]
      all_goals exact .halt segv _
  match args with
  | [argLib] => exact started argLib none
  | [argLib, argFilter] => exact started argLib (some argFilter)
  | [] | _ :: _ :: _ :: _ => exact .refl _

end

end Classgraph
