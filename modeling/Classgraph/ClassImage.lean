import Classgraph.BindProgram
import Classgraph.TypeGraph
import Classgraph.CommandOrder
import Classgraph.MachoLoad
import Classgraph.MachoSymbols
import Classgraph.TypeinfoGrammar

namespace Classgraph
open Run PathTree Writes Machine

/-- The words of a `struct relocation_info`. -/
structure RelocData where
  address : U32
  fields : U32

/-- The entry is for an external symbol whose absolute address goes into the word at `addr`. -/
def RelocData.accepts (reloc : RelocData) (addr : U32) : Bool :=
  reloc.address = addr ∧ RelocationInfo.rExtern reloc.fields = 1 ∧ RelocationInfo.rType reloc.fields = rAbs ∧
    RelocationInfo.rLength reloc.fields = 2

def RelocData.symbolnum (reloc : RelocData) : Nat := (RelocationInfo.rSymbolnum reloc.fields).toNat

/-- A Mach-O library as a compiler and a linker see it: load commands, symbols, relocation entries, bind instructions,
and the type information objects at their addresses. -/
structure ClassImage where
  commands : List Command
  table : List NlistEntry
  relocs : List RelocData
  program : List BindInstr
  objects : U32 → Typeinfo

namespace ClassImage

variable (image : ClassImage)

def segs : List SegmentData := image.commands.filterMap Command.segment?

/-- The fixups that the library asks for; it has a bind program only if a load command says so. -/
def fixups : List Fixup :=
  if (image.commands.filterMap Command.dyldInfo?).getLast?.isSome then
    programFixups (image.segs.map SegmentData.vmaddr) image.program {}
  else []

/-- The name of the symbol whose address the loader stores at an address, if any. Old relocation entries come first. -/
inductive Bound (addr : U32) : Option CStr → Prop
  | reloc {reloc entry} : image.relocs.find? (RelocData.accepts · addr) = some reloc →
      image.table[reloc.symbolnum]? = some entry → entry.type &&& nStab ≠ 0 ∨ entry.Known → Bound addr (some entry.name)
  | fixup {fixup name} : image.relocs.find? (RelocData.accepts · addr) = none →
      (image.fixups.find? fun fixup => fixup.address = addr.setWidth 64) = some fixup → fixup.name = some name →
      Bound addr (some (stripUnderscore name))
  | unbound : image.relocs.find? (RelocData.accepts · addr) = none →
      (image.fixups.find? fun fixup => fixup.address = addr.setWidth 64) = none → Bound addr none

/-- The file has the two words of `abi::__class_type_info` for an address, from `offset` on. -/
def Places (addr offset : U32) : Prop :=
  ∃ seg ∈ image.segs, ∃ sect ∈ seg.sections, seg.isMapped sect ∧ sect.addr ≤ addr ∧ addr < sect.addr + sect.size ∧
    addr + sizeofClassTypeInfo ≤ sect.addr + sect.size ∧ offset = sect.offset + (addr - sect.addr)

/-- Its type information symbols. -/
def classes (env : Env) (lFilter : CStr → Bool) : List Symbol :=
  keptSyms lFilter ((image.table.filter fun entry => entry.Local).map (entrySymbol env libFirst))

/-- The hierarchy of the library, in which addresses are not shifted. -/
def graph (env : Env) (lFilter : CStr → Bool) : TypeGraph where
  classes := image.classes env lFilter
  place := Symbol.addr
  isPrimary _ := true
  objects := image.objects

/-- The character for a type information object whose vtable has the given name. -/
def vtableChar (env : Env) : Option CStr → Except Fault Char
  | none => .ok '?'
  | some name =>
    match env.reTypeinfo name with
    | none => .ok '?'
    | some kind => machoTypeChar kind

end ClassImage

/-- The relocation entries of a library. -/
structure StoredRelocs (mem : Mem) (lib : LibraryInfo) (relocs : List RelocData) : Prop where
  count : lib.machoExtRelocCount.toNat = relocs.length
  stored : ∀ i reloc, relocs[i]? = some reloc → RelocationInfo.rAddress mem (relocAt lib i) = .ok reloc.address ∧
    RelocationInfo.fields mem (relocAt lib i) = .ok reloc.fields

section

variable {mem : Mem} {lib : LibraryInfo} {relocs : List RelocData} (stored : StoredRelocs mem lib relocs)
include stored

theorem StoredRelocs.accepts {i : Nat} {reloc : RelocData} (here : relocs[i]? = some reloc) (addr : U32) :
    extRelocMatches mem (relocAt lib i) addr = .ok (reloc.accepts addr) := by
  obtain ⟨address, fields⟩ := stored.stored i reloc here
  rw [extRelocMatches, address, ok_bind, RelocData.accepts]
  by_cases same : reloc.address = addr
  · rw [if_pos same, fields]
    simp only [same, true_and]
    rfl
  · rw [if_neg same]
    simp only [same, false_and, decide_false]
    rfl

theorem StoredRelocs.none {addr : U32} (noReloc : relocs.find? (RelocData.accepts · addr) = none) :
    NoReloc mem lib addr := by
  intro i bound
  rw [stored.count] at bound
  have here := List.getElem?_eq_getElem bound
  have refused := List.find?_eq_none.mp noReloc _ (List.getElem_mem bound)
  rw [← relocAt, stored.accepts here, Bool.eq_false_iff.mpr refused]

theorem StoredRelocs.first {addr : U32} {reloc : RelocData}
    (found : relocs.find? (RelocData.accepts · addr) = some reloc) : RelocReaches mem lib addr reloc.symbolnum := by
  obtain ⟨accepted, k, bound, rfl, earlier⟩ := List.find?_eq_some_iff_getElem.mp found
  have here := List.getElem?_eq_getElem bound
  refine ⟨k, stored.count ▸ bound, ?_, ?_, _, (stored.stored k _ here).2, rfl⟩
  · intro j below
    have before := List.getElem?_eq_getElem (Nat.lt_trans below bound)
    have refused := earlier j below
    rw [Bool.not_eq_true'] at refused
    rw [stored.accepts before, refused]
  · rw [stored.accepts here, accepted]

end

/-- The slice of a file that is not a universal one. -/
def thinSlice (path opened : CStr) (map size : U32) : LibraryInfo :=
  { machoEntry true path opened map size with machoHdr := map }

/-- A bind program in its range, which ends inside the address space. There is a block for its records. -/
structure StoredProgram (env : Env) (st : MachoParse) (image : ClassImage) : Prop where
  held : env.mem.HoldsAt (st.lib.map + st.lib.machoBindOff) (programBytes image.program)
  size : st.lib.machoBindSize.toNat = (programBytes image.program).length
  inside : (st.lib.map + st.lib.machoBindOff).toNat + (programBytes image.program).length < 2 ^ 32
  block : BlockFits env.malloc (programFixups (image.segs.map SegmentData.vmaddr) image.program {}).length

/-- The library as a file of a host. The load commands pass their assertions, and every symbol that is enumerated has
an address. -/
structure MappedImage (env : Env) (path : CStr) (image : ClassImage) where
  fd : Nat
  opened : CStr
  map : U32
  size : U32
  isOpened : libOpen env path = .ok (fd, opened)
  sized : env.fstat fd = some size
  mapped : env.mmap fd = some map
  room : 4 ≤ size
  magic : MachHeader.magic env.mem map = .ok mhMagic
  header : machoHeader env.mem (thinSlice path opened map size) = .ok ()
  layout : Layout env.mem (thinSlice path opened map size) image.commands
  fits : ∀ command ∈ image.commands, command.Fits size
  tablesFit : (parseResult (thinSlice path opened map size) image.commands).Fits
  symtab : StoredSymtab env.mem (parseResult (thinSlice path opened map size) image.commands).lib image.table
  known : ∀ entry ∈ image.table, entry.Local → entry.Known
  relocs : StoredRelocs env.mem (parseResult (thinSlice path opened map size) image.commands).lib image.relocs
  program : (parseResult (thinSlice path opened map size) image.commands).lib.machoHasDyldInfo →
    StoredProgram env (parseResult (thinSlice path opened map size) image.commands) image

/-- What the program knows of a library that it has loaded. -/
structure ClassImage.LoadedAs (env : Env) (map : U32) (image : ClassImage) (lib : LibraryInfo) : Prop where
  isPrimary : lib.isPrimary = true
  isElf : lib.isElf = false
  isMacho : lib.isMacho = true
  baseaddr : lib.baseaddr = 0
  symtab : StoredSymtab env.mem lib image.table
  known : ∀ entry ∈ image.table, entry.Local → entry.Known
  names : ∀ addr name, image.Bound addr name → ∃ found,
    symtabMachoFindRelocSymForAddr env libFirst lib addr = .ok found ∧ found.map Symbol.name = name
  pointers : ∀ addr offset, image.Places addr offset →
    symtabMachoGetPtr lib addr sizeofClassTypeInfo = .ok (map + offset)

section

variable {env : Env} {path : CStr} {image : ClassImage}

theorem getPtr_places {mem : Mem} {headers : List U32} {lib : LibraryInfo} {addr offset : U32}
    (table : VmrangeTable mem headers lib.machoVmranges)
    (ranges : lib.machoVmranges.map MachoVmrange.data = image.segs.flatMap SegmentData.ranges)
    (places : image.Places addr offset) :
    symtabMachoGetPtr lib addr sizeofClassTypeInfo = .ok (lib.map + offset) := by
  obtain ⟨seg, isSeg, sect, isSect, isMapped, after, before, ends, rfl⟩ := places
  have member : (seg.entry 0 0 0 sect).data ∈ lib.machoVmranges.map MachoVmrange.data := by
    rw [ranges]
    exact List.mem_flatMap.mpr ⟨seg, isSeg, List.mem_map.mpr ⟨sect, isSect, rfl⟩⟩
  obtain ⟨vmrange, inRanges, same⟩ := List.mem_map.mp member
  have isMapped' : vmrange.isMapped = seg.isMapped sect := congrArg MachoVmrange.isMapped same
  have vmAddrBegin : vmrange.vmAddrBegin = sect.addr := congrArg MachoVmrange.vmAddrBegin same
  have vmAddrEnd : vmrange.vmAddrEnd = sect.addr + sect.size := congrArg MachoVmrange.vmAddrEnd same
  have mapOffBegin : vmrange.mapOffBegin = sect.offset := congrArg MachoVmrange.mapOffBegin same
  refine (symtabMachoGetPtr_ok table).mpr ⟨vmrange, inRanges, ⟨?_, ?_⟩, ?_, ?_, ?_⟩
  · rwa [vmAddrBegin]
  · rwa [vmAddrEnd]
  · rwa [isMapped']
  · rwa [vmAddrEnd]
  · rw [mapOffBegin, vmAddrBegin]

/-- The name that the lookup of an address reports. -/
theorem findReloc_bound {lib : LibraryInfo} (symtab : StoredSymtab env.mem lib image.table)
    (relocs : StoredRelocs env.mem lib image.relocs) {addr : U32}
    (fixups : NoReloc env.mem lib addr →
      symtabMachoFindRelocSymForAddr env libFirst lib addr = fixupLookup env libFirst image.fixups addr)
    {name : Option CStr} (bound : image.Bound addr name) :
    ∃ found, symtabMachoFindRelocSymForAddr env libFirst lib addr = .ok found ∧ found.map Symbol.name = name := by
  cases bound with
  | @reloc reloc entry found atEntry hasAddr =>
    rw [symtab.findReloc libFirst (relocs.first found) atEntry]
    have inTable := symtab.stored _ entry atEntry
    have known : ∃ symAddr, machoGetSymAddr env.mem (nlistAt lib (BitVec.ofNat 32 reloc.symbolnum)) = .ok symAddr := by
      rcases hasAddr with stab | valued | undefined
      · exact ⟨0, machoGetSymAddr_zero inTable.type (Or.inl stab)⟩
      · by_cases stab : entry.type &&& nStab = 0
        · exact ⟨_, (machoGetSymAddr_value inTable.type stab valued).trans inTable.value⟩
        · exact ⟨0, machoGetSymAddr_zero inTable.type (Or.inl stab)⟩
      · exact ⟨0, machoGetSymAddr_zero inTable.type (Or.inr undefined)⟩
    obtain ⟨symAddr, read⟩ := known
    rw [read]
    exact ⟨_, rfl, rfl⟩
  | @fixup fixup name noReloc found named =>
    have symbol : fixupSymbol env libFirst fixup = .ok ⟨libFirst, (fixup.address + fixup.addend).setWidth 32, 0,
        stripUnderscore name, demangledName env (stripUnderscore name)⟩ := by
      unfold fixupSymbol
      rw [named]
      exact bind_ok.mpr ⟨_, tryDemangleNoprefix_demangledName env _, rfl⟩
    rw [fixups (relocs.none noReloc), fixupLookup, found]
    exact ⟨_, bind_ok.mpr ⟨_, symbol, rfl⟩, rfl⟩
  | unbound noReloc notFound =>
    rw [fixups (relocs.none noReloc), fixupLookup, notFound]
    exact ⟨_, rfl, rfl⟩

theorem MappedImage.parse (mapped : MappedImage env path image) :
    machoParse env.mem (machoEntry true path mapped.opened mapped.map mapped.size) =
      .ok (parseResult (thinSlice path mapped.opened mapped.map mapped.size) image.commands) := by
  have sliced : machoSlice env.mem (machoEntry true path mapped.opened mapped.map mapped.size) =
      .ok (thinSlice path mapped.opened mapped.map mapped.size) := machoSlice_thin mapped.magic
  rw [machoParse_eq sliced mapped.layout, mapped.header, ok_bind]
  exact (machoCommands_decides mapped.layout.commands (parseStart_fits _)).returns ⟨mapped.fits, mapped.tablesFit⟩

theorem ClassImage.segmentsAt {mem : Mem} {slice : LibraryInfo} (layout : Layout mem slice image.commands) :
    SegmentsAt mem (parseResult slice image.commands).segs (image.segs.map SegmentData.vmaddr) := by
  have headers : (parseResult slice image.commands).segs =
      (segments (slice.map + MachHeader.sizeOf) image.commands).map Prod.fst := List.nil_append _
  rw [headers, ClassImage.segs, ← segments_data (slice.map + MachHeader.sizeOf), List.map_map, SegmentsAt,
    List.forall₂_map_left_iff, List.forall₂_map_right_iff, List.forall₂_same]
  intro place member
  exact segments_stored layout.commands member

/-- `symtab_macho_init` on the library. -/
theorem MappedImage.init (mapped : MappedImage env path image) : ∃ lib,
    symtabMachoInit env.malloc env.mem (machoEntry true path mapped.opened mapped.map mapped.size) = .ok lib ∧
      image.LoadedAs env mapped.map lib := by
  let st := parseResult (thinSlice path mapped.opened mapped.map mapped.size) image.commands
  have parse : machoParse env.mem (machoEntry true path mapped.opened mapped.map mapped.size) = .ok st := mapped.parse
  have table := ((machoParse_valid env.mem _).of_ok parse).1.table
  have ranges : st.lib.machoVmranges.map MachoVmrange.data = image.segs.flatMap SegmentData.ranges :=
    commandsResult_data _ _ _
  have hasInfo : st.lib.machoHasDyldInfo = (image.commands.filterMap Command.dyldInfo?).getLast?.isSome := by
    have last : st.lib.machoHasDyldInfo =
        (image.commands.filterMap Command.dyldInfo?).getLast?.elim false fun _ => true := rfl
    rw [last]
    cases (image.commands.filterMap Command.dyldInfo?).getLast? <;> rfl
  have pointers (addr offset : U32) (places : image.Places addr offset) :
      symtabMachoGetPtr st.lib addr sizeofClassTypeInfo = .ok (mapped.map + offset) := getPtr_places table ranges places
  rw [symtabMachoInit, parse, ok_bind]
  by_cases info : st.lib.machoHasDyldInfo
  · have stored := mapped.program info
    obtain ⟨records, binds, fixups, known⟩ := machoBind_program info (image.segmentsAt mapped.layout) stored.held
      stored.size stored.inside stored.block
    let lib := boundLib st.lib (some (records, records.length))
    have symtab : StoredSymtab env.mem lib image.table := by
      refine ⟨mapped.symtab.count, mapped.symtab.short, ?_⟩
      intro i entry here
      have stored := mapped.symtab.stored i entry here
      exact ⟨stored.strx, stored.type, stored.value, stored.string⟩
    have relocs : StoredRelocs env.mem lib image.relocs := ⟨mapped.relocs.count, mapped.relocs.stored⟩
    refine ⟨lib, binds, rfl, rfl, rfl, rfl, symtab, mapped.known, ?_, pointers⟩
    intro addr name bound
    refine findReloc_bound symtab relocs ?_ bound
    intro noReloc
    rw [findReloc_fixups info known noReloc, fixups, ClassImage.fixups, ← hasInfo, if_pos info]
  · refine ⟨st.lib, if_neg info, rfl, rfl, rfl, rfl, mapped.symtab, mapped.known, ?_, pointers⟩
    intro addr name bound
    refine findReloc_bound mapped.symtab mapped.relocs ?_ bound
    intro noReloc
    rw [symtabMachoFindRelocSymForAddr, extRelocLoop_none.mpr noReloc, ClassImage.fixups, ← hasInfo, if_neg info,
      if_neg info]
    rfl

end

/-- The objects of all classes have both words in the file, a vtable of their kind, and what the program reads behind
these words. -/
structure ClassImage.Sound (env : Env) (lFilter : CStr → Bool) (map : U32) (image : ClassImage) : Prop where
  objects : ∀ sym ∈ (image.graph env lFilter).defined, ∃ offset name, image.Places sym.addr offset ∧
    image.Bound sym.addr name ∧ ClassImage.vtableChar env name = .ok (image.objects sym.addr).typeChar ∧
    (image.objects sym.addr).StoredAt env.mem (map + offset)
  shallow : (image.graph env lFilter).Shallow
  names : ∀ sym ∈ image.classes env lFilter, '\n' ∉ sym.nameDemangled

/-- The table with one library. -/
def oneLib (lib : LibraryInfo) : Libs := Function.update emptyLibs libFirst lib

theorem oneLib_first (lib : LibraryInfo) : oneLib lib libFirst = lib := Function.update_self ..

theorem libWalk_oneLib (lib : LibraryInfo) : libWalk (oneLib lib) = [libFirst] := by
  have next : libNext (oneLib lib) libFirst = none := by
    have second : oneLib lib ⟨libFirst.val + 1, by decide⟩ = {} := Function.update_of_ne (by decide) _ _
    rw [libNext, dif_pos (by decide), second]
    rfl
  have rounds : numLibs = 255 + 1 := rfl
  rw [libWalk, rounds, libWalkFrom, next]
  rfl

section

variable {env : Env} {path : CStr} {image : ClassImage}

theorem MappedImage.load (mapped : MappedImage env path image) :
    ∃ lib, libInitPrimary env path = .ok (oneLib lib) ∧ image.LoadedAs env mapped.map lib := by
  obtain ⟨lib, init, loaded⟩ := mapped.init
  have depends : lib.depends = [] := (symtabMachoInit_depends env.mem _ _).of_ok init
  have load : libLoad env {} true path = .ok (lib, []) := by
    rw [libLoad_macho mapped.isOpened mapped.sized mapped.mapped mapped.magic (Or.inl rfl) mapped.room, init, ok_bind,
      depends]
    rfl
  refine ⟨lib, ?_, loaded⟩
  have alone : Holds Anyhow (libLoad env {} true path) fun loaded => loaded.2 = [] := by
    rw [load]
    exact rfl
  rw [libInitPrimary_alone alone, load]
  rfl

section

variable {map : U32} {lib : LibraryInfo} (loaded : image.LoadedAs env map lib)
include loaded

theorem ClassImage.LoadedAs.foreach : symtabForeach env (oneLib lib) =
    ⟨(image.table.filter fun entry => entry.Local).map (entrySymbol env libFirst), none⟩ := by
  rw [symtabForeach, libWalk_oneLib, List.map_singleton, symtabForeachLib, oneLib_first, loaded.isElf, loaded.isMacho,
    if_pos rfl, loaded.symtab.foreach libFirst loaded.known, Emits.flow_cons, Emits.flow_nil]
  rw [if_neg Bool.false_ne_true, Emits.append_of_ended rfl, Emits.append_of_ended rfl]
  simp

/-- The dynamic type of an object and the pointer to it. -/
theorem ClassImage.LoadedAs.head {sym : Symbol} (inLib : sym.lib = libFirst) {offset : U32} {name : Option CStr}
    {typeChar : Char} (places : image.Places sym.addr offset) (bound : image.Bound sym.addr name)
    (vtable : ClassImage.vtableChar env name = .ok typeChar) :
    ∃ warnings, typeinfoHead env (oneLib lib) sym = .ok ⟨typeChar, map + offset, warnings⟩ := by
  obtain ⟨found, lookup, named⟩ := loaded.names sym.addr name bound
  have notElf : ¬(oneLib lib sym.lib).isElf := by
    rw [inLib, oneLib_first, loaded.isElf]
    exact Bool.false_ne_true
  have isMacho : (oneLib lib sym.lib).isMacho := by
    rw [inLib, oneLib_first, loaded.isMacho]
  unfold typeinfoHead
  dsimp only
  rw [if_neg notElf, if_pos isMacho, machoTypeinfoHead]
  simp only [inLib, oneLib_first, loaded.pointers sym.addr offset places, lookup, ok_bind]
  subst named
  cases found with
  | none =>
    cases vtable
    exact ⟨_, rfl⟩
  | some rsym =>
    simp only [ClassImage.vtableChar, Option.map_some] at vtable
    cases kind : env.reTypeinfo rsym.name with
    | none =>
      rw [kind] at vtable
      cases vtable
      simp only [kind]
      exact ⟨_, rfl⟩
    | some text =>
      rw [kind] at vtable
      simp only [kind]
      refine ⟨[], ?_⟩
      exact bind_ok.mpr ⟨typeChar, vtable, rfl⟩

variable {lFilter : CStr → Bool}

omit loaded in
theorem ClassImage.classes_lib {sym : Symbol} (member : sym ∈ image.classes env lFilter) : sym.lib = libFirst := by
  obtain ⟨entry, _, rfl⟩ := List.mem_map.mp (keptSyms_mem member)
  rfl

theorem ClassImage.LoadedAs.symcache (addr : U32) :
    (fillGlobals lFilter (symtabForeach env (oneLib lib)).events).symcache[addr]? =
      lastWith Symbol.addr addr (image.classes env lFilter) := by
  rw [fillGlobals_symcache, loaded.foreach]
  rfl

/-- A base pointer is an address of the library itself. -/
theorem ClassImage.LoadedAs.lookup (addr : U32) :
    symtabAddrAbs (oneLib lib) (fillGlobals lFilter (symtabForeach env (oneLib lib)).events).symcache addr =
      lastWith Symbol.addr addr (image.classes env lFilter) := by
  have above : (0 : U32) ≤ addr := Nat.zero_le _
  have distance : addr - 0 = addr := BitVec.sub_zero addr
  rw [symtabAddrAbs, libWalk_oneLib, List.findSome?_singleton, oneLib_first, loaded.baseaddr, if_pos above, distance]
  refine Option.ext fun sym => ?_
  rw [symtabLookupAddr_some, loaded.symcache, and_iff_left_iff_imp]
  intro found
  exact image.classes_lib (lastWith_spec found).1

theorem ClassImage.LoadedAs.nextBases (sym : Symbol) :
    Classgraph.nextBases (oneLib lib) (fillGlobals lFilter (symtabForeach env (oneLib lib)).events).symcache
      (image.graph env lFilter).info sym =
        ((image.graph env lFilter).info sym).pointers.map (image.graph env lFilter).classAt := by
  have direct (base : U32) :
      vmiLookup (oneLib lib) (fillGlobals lFilter (symtabForeach env (oneLib lib)).events).symcache base =
        lastWith Symbol.addr base (image.classes env lFilter) := by
    rw [vmiLookup, loaded.lookup, loaded.symcache]
    cases lastWith Symbol.addr base (image.classes env lFilter) <;> rfl
  have classAt (base : U32) : (image.graph env lFilter).classAt base =
      (lastWith Symbol.addr base (image.classes env lFilter)).filter fun sym => sym.addr ≠ 0 :=
    (lastWith_defined base _).symm
  rw [Classgraph.nextBases]
  cases (image.graph env lFilter).info sym with
  | leaf typeChar => rfl
  | si base =>
    simp only [Typeinfo.resolve, Typeinfo.pointers, loaded.lookup, List.map_cons, List.map_nil, classAt]
  | vmi bases =>
    simp only [Typeinfo.resolve, Typeinfo.pointers, direct, List.map_map, Function.comp_def, funext classAt]

theorem ClassImage.LoadedAs.found (sound : image.Sound env lFilter map) :
    (image.graph env lFilter).FoundIn env (oneLib lib) lFilter where
  enumerated := congrArg Emits.stop loaded.foreach
  kept := congrArg (keptSyms lFilter ·.events) loaded.foreach
  isPrimary sym isClass := by
    rw [image.classes_lib isClass, oneLib_first]
    exact loaded.isPrimary
  next sym _ := loaded.nextBases sym
  stored sym isClass := by
    obtain ⟨offset, name, places, bound, vtable, words⟩ := sound.objects sym isClass
    obtain ⟨warnings, head⟩ :=
      loaded.head (image.classes_lib (TypeGraph.mem_defined.mp isClass).1) places bound vtable
    exact words.stored head

end

end

/-- The bytes of a name without the final NUL. -/
def nameBytes (name : String) : List U8 := name.toList.map fun c => BitVec.ofNat 8 c.toNat

theorem oneByte_short : 0 < 10 := by decide

/-- One section with all objects. -/
def diamondSegment : SegmentData := ⟨0x2000, 0x40, 0x130, 0x40, [⟨0x2000, 0x40, 0x130, 0⟩]⟩

/-- `A`, `B : A`, `C : A` and `D : B, C` from 0x2000 on, the last of them with an old relocation entry. -/
def diamondImage : ClassImage where
  commands := [
    ⟨lcSegment, 124, .segment diamondSegment, segmentCommand.kind, segmentCommand.size⟩,
    ⟨lcSymtab, 24, .symtab ⟨0x178, 5, 0x1b4, 76⟩, symtabCommand.kind, symtabCommand.size⟩,
    ⟨lcDysymtab, 80, .dysymtab ⟨0x170, 1⟩, rfl, by decide⟩,
    ⟨lcDyldInfoOnly, 48, .dyldInfo ⟨0, 0, 0x200, 92, 0, 0, 0, 0, 0, 0⟩, dyldInfoCommand.kind, dyldInfoCommand.size⟩]
  table := [⟨1, 0x0e, 0x2000, "__ZTI1A".toList⟩, ⟨9, 0x0e, 0x2008, "__ZTI1B".toList⟩,
    ⟨17, 0x0e, 0x2014, "__ZTI1C".toList⟩, ⟨25, 0x0e, 0x2020, "__ZTI1D".toList⟩,
    ⟨33, 0x01, 0, "__ZTVN10__cxxabiv121__vmi_class_type_infoE".toList⟩]
  relocs := [⟨0x2020, 0x0c000004⟩]
  program := [
    ⟨.setSymbolTrailingFlagsImm (nameBytes "__ZTVN10__cxxabiv117__class_type_infoE") (by decide), 0⟩,
    ⟨.setSegmentAndOffsetUleb (.ofNat 0 0 oneByte_short (by decide) (by decide)), 0⟩, ⟨.doBind, 0⟩,
    ⟨.setSymbolTrailingFlagsImm (nameBytes "__ZTVN10__cxxabiv120__si_class_type_infoE") (by decide), 0⟩,
    ⟨.setSegmentAndOffsetUleb (.ofNat 0 8 oneByte_short (by decide) (by decide)), 0⟩,
    ⟨.doBindAddAddrUleb (.ofNat 0 8 oneByte_short (by decide) (by decide)), 0⟩, ⟨.doBind, 0⟩, ⟨.done, 0⟩]
  objects := fun addr =>
    if addr = 0x2000 then .leaf '-' else if addr = 0x2020 then .vmi [0x2008, 0x2014] else .si 0x2000

/-- The file: the mach header, the load commands, the objects, the tables and the bind program. -/
def diamondBytes : List U8 :=
  wordBytes (headerWords 4 ++ diamondImage.commands.flatMap Command.words ++
      [0, 0, 0, 0, 0x2000, 0, 0, 0x2000, 0, 0, 0, 2, 0x2008, 0x002, 0x2014, 0x402] ++
      diamondImage.relocs.flatMap (fun reloc => [reloc.address, reloc.fields]) ++
      diamondImage.table.flatMap fun entry => [entry.strx, entry.type.setWidth 32, entry.value]) ++
    0 :: diamondImage.table.flatMap (fun entry => stringBytes entry.string) ++ programBytes diamondImage.program

def diamondDemangle (name : CStr) : Option CStr :=
  if name.take 5 = "_ZTI1".toList then some ("typeinfo for ".toList ++ name.drop 5) else none

def dylibHost : Env :=
  { plainHost 0x1000 diamondBytes fun _ => .classTypeInfo with
    openFile := fun path => if path = "lib.dylib".toList then some 0 else none
    fstat := fun _ => some 0x25c
    mmap := fun _ => some 0x1000
    reTypeinfo := kindEngine
    cplusDemangle := diamondDemangle }

def diamondSlice : LibraryInfo := thinSlice "lib.dylib".toList "lib.dylib".toList 0x1000 0x25c

abbrev diamondParse : MachoParse := parseResult diamondSlice diamondImage.commands

theorem diamondSymtab : StoredSymtab dylibHost.mem diamondParse.lib diamondImage.table := by
  have entries : ∀ i < diamondImage.table.length, (diamondImage.table[i]?).all fun entry =>
      decide (Nlist.strx dylibHost.mem (nlistAt diamondParse.lib (BitVec.ofNat 32 i)) = .ok entry.strx ∧
        Nlist.type dylibHost.mem (nlistAt diamondParse.lib (BitVec.ofNat 32 i)) = .ok entry.type ∧
        Nlist.value dylibHost.mem (nlistAt diamondParse.lib (BitVec.ofNat 32 i)) = .ok entry.value ∧
        readCStr dylibHost.mem (diamondParse.lib.map + diamondParse.lib.machoStrtabOff + entry.strx) =
          .ok entry.string) := by decide +kernel
  refine ⟨rfl, by decide, ?_⟩
  intro i entry atEntry
  obtain ⟨bound, _⟩ := List.getElem?_eq_some_iff.mp atEntry
  have checked := entries i bound
  rw [atEntry] at checked
  obtain ⟨strx, type, value, string⟩ := of_decide_eq_true checked
  exact ⟨strx, type, value, fun _ => string⟩

theorem diamondFits : ∀ command ∈ diamondImage.commands, command.Fits 0x25c := by
  have segments : diamondImage.commands.map Command.segment? = [some diamondSegment, none, none, none] := rfl
  have fits : diamondSegment.SectionFits ⟨0x2000, 0x40, 0x130, 0⟩ :=
    ⟨by decide, by decide, by decide, fun _ => by decide⟩
  intro command member seg isSegment
  have isDiamond : seg = diamondSegment := by
    have inSegments := List.mem_map_of_mem (f := Command.segment?) member
    rw [segments, isSegment] at inSegments
    simpa using inSegments
  subst isDiamond
  exact ⟨by decide, List.forall_mem_singleton.mpr fits⟩

def diamondMapped : MappedImage dylibHost "lib.dylib".toList diamondImage where
  fd := 0
  opened := "lib.dylib".toList
  map := 0x1000
  size := 0x25c
  isOpened := by decide
  sized := rfl
  mapped := rfl
  room := by decide
  magic := by decide +kernel
  header := by decide +kernel
  layout :=
    ⟨⟨⟨mhMagic, by decide +kernel⟩, ⟨cpuTypeI386, by decide +kernel⟩, ⟨cpuSubtypeI386All, by decide +kernel⟩,
      ⟨mhDylib, by decide +kernel⟩, ⟨4, by decide +kernel, rfl⟩⟩, by decide +kernel⟩
  fits := diamondFits
  tablesFit := ⟨⟨by decide, List.pairwise_singleton _ _⟩, by decide⟩
  symtab := diamondSymtab
  known := by decide
  relocs := by
    refine ⟨rfl, ?_⟩
    intro i reloc here
    match i with
    | 0 =>
      cases here
      exact ⟨by decide +kernel, by decide +kernel⟩
    | _ + 1 => cases here
  program := fun _ => ⟨by decide +kernel, by decide +kernel, by decide +kernel, by decide +kernel⟩

def diamondClasses : List Symbol :=
  [⟨0, 0x2000, 0, "_ZTI1A".toList, "A".toList⟩, ⟨0, 0x2008, 0, "_ZTI1B".toList, "B".toList⟩,
    ⟨0, 0x2014, 0, "_ZTI1C".toList, "C".toList⟩, ⟨0, 0x2020, 0, "_ZTI1D".toList, "D".toList⟩]

theorem diamondSound : diamondImage.Sound dylibHost (fun _ => true) 0x1000 := by
  have places (addr : U32) (after : 0x2000 ≤ addr) (ends : addr + 8 ≤ 0x2040) (before : addr < 0x2040) :
      diamondImage.Places addr (0x130 + (addr - 0x2000)) :=
    ⟨_, List.mem_singleton_self _, _, List.mem_singleton_self _, by decide, after, before, ends, rfl⟩
  have bound {addr : U32} {name : CStr} (noReloc : diamondImage.relocs.find? (RelocData.accepts · addr) = none)
      (found : (diamondImage.fixups.find? fun fixup => fixup.address = addr.setWidth 64) =
        some ⟨addr.setWidth 64, 0, some ('_' :: name)⟩) : diamondImage.Bound addr (some name) :=
    .fixup noReloc found rfl
  have leaf : diamondImage.Bound 0x2000 (some "_ZTVN10__cxxabiv117__class_type_infoE".toList) :=
    bound rfl (by decide +kernel)
  have left : diamondImage.Bound 0x2008 (some "_ZTVN10__cxxabiv120__si_class_type_infoE".toList) :=
    bound rfl (by decide +kernel)
  have right : diamondImage.Bound 0x2014 (some "_ZTVN10__cxxabiv120__si_class_type_infoE".toList) :=
    bound rfl (by decide +kernel)
  have bottom : diamondImage.Bound 0x2020 (some "_ZTVN10__cxxabiv121__vmi_class_type_infoE".toList) :=
    @ClassImage.Bound.reloc diamondImage 0x2020 _ ⟨33, 0x01, 0, "__ZTVN10__cxxabiv121__vmi_class_type_infoE".toList⟩
      rfl rfl (Or.inr (by decide))
  have bases : (Typeinfo.vmi [0x2008, 0x2014]).StoredAt dylibHost.mem 0x1150 := by
    have count : readWord dylibHost.mem (0x1150 + 12) = .ok 2 := by decide +kernel
    refine .vmi count rfl ?_
    intro i base here
    match i with
    | 0 =>
      cases here
      exact ⟨by decide +kernel, 0x002, by decide +kernel⟩
    | 1 =>
      cases here
      exact ⟨by decide +kernel, 0x402, by decide +kernel⟩
    | _ + 2 => cases here
  have defined : (diamondImage.graph dylibHost fun _ => true).defined = diamondClasses := by decide +kernel
  refine ⟨?_, ⟨fun sym => (sym.addr - 0x2000).toNat, ?_⟩, by decide +kernel⟩
  · rw [defined]
    simp only [diamondClasses, List.forall_mem_cons]
    refine ⟨?_, ?_, ?_, ?_, nofun⟩
    · exact ⟨_, _, places 0x2000 (by decide) (by decide) (by decide), leaf, by decide +kernel,
        .leaf (by decide) (by decide)⟩
    · exact ⟨_, _, places 0x2008 (by decide) (by decide) (by decide), left, by decide +kernel, .si (by decide +kernel)⟩
    · exact ⟨_, _, places 0x2014 (by decide) (by decide) (by decide), right, by decide +kernel, .si (by decide +kernel)⟩
    · exact ⟨_, _, places 0x2020 (by decide) (by decide) (by decide), bottom, by decide +kernel, bases⟩
  · rw [defined]
    decide +kernel

end Classgraph
