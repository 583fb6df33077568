import Classgraph.TypeGraph
import Classgraph.ElfSymbols
import Classgraph.LoadOrder

namespace Classgraph
open Run Writes Machine DepthFirst

/-- An ELF library with what the system makes of it: the path that is opened, its mapping, and the addresses that the
dynamic linker gives to it. Its symbols and the names that it needs are those of its sections. -/
structure ElfImage where
  opened : CStr
  map : U32
  size : U32
  baseaddr : U32
  extent : Nat
  symtab : Option ElfScn
  dynstr : ElfScn
  dynamic : List ElfDyn
  table : List ElfEntry
  needed : List CStr

namespace ElfImage

def entry (image : ElfImage) (primary : Bool) (path : CStr) : LibraryInfo :=
  elfEntry primary path image.opened image.map image.size image.baseaddr

def elf (image : ElfImage) (env : Env) : Elf := env.elfMemory image.map image.size

/-- The library as a file of a host, which the dynamic linker has loaded. -/
structure Mapped (env : Env) (primary : Bool) (path : CStr) (image : ElfImage) : Prop where
  opened : ∃ fd, libOpen env path = .ok (fd, image.opened) ∧ env.fstat fd = some image.size ∧
    env.mmap fd = some image.map
  loaded : ∃ handle, env.dlopen image.opened = some handle ∧ env.dlinfo handle = some image.baseaddr
  room : eiNident ≤ image.size
  magic : readWord env.mem image.map = .ok 0x464c457f
  elfClass : readByte env.mem (image.map + 4) = .ok 1
  data : readByte env.mem (image.map + 5) = .ok 1
  version : readByte env.mem (image.map + 6) = .ok 1
  sections : ElfSections env (openElf env (image.entry primary path)) image.symtab image.dynstr image.dynamic
  symtab : StoredElfSymtab (image.elf env) image.symtab image.table
  ends : EndsAt env.dynEntry image.dynamic
  rounds : image.dynamic.length < env.loopBound
  names : Stores ((image.elf env).strptr image.dynstr.ndx) (neededOffsets image.dynamic) [] image.needed

/-- What the program knows of a library that it has loaded. -/
structure LoadedAs (image : ElfImage) (lib : LibraryInfo) : Prop where
  isElf : lib.isElf = true
  isMacho : lib.isMacho = false
  baseaddr : lib.baseaddr = image.baseaddr
  symtab : ElfSymtab lib image.table

/-- `lib_init` on the file, up to the loop over `depends`. -/
theorem Mapped.load {env : Env} {primary : Bool} {path : CStr} {image : ElfImage}
    (mapped : image.Mapped env primary path) :
    ∃ lib, libLoad env {} primary path = .ok (lib, image.needed) ∧ image.LoadedAs lib := by
  obtain ⟨fd, isOpened, sized, isMapped⟩ := mapped.opened
  obtain ⟨handle, isLoaded, placed⟩ := mapped.loaded
  have symtab : StoredElfSymtab (openElf env (image.entry primary path)).elf image.symtab image.table := mapped.symtab
  obtain ⟨lib, set, table, isElf, isMacho, baseaddr⟩ := symtab.set
  have depends := elfDepends_names mapped.sections mapped.ends mapped.rounds mapped.names
  have init := (symtabElfInit_ok mapped.sections).mpr ⟨lib, image.needed, set, depends, rfl⟩
  exact ⟨_, libLoad_elf isOpened sized isMapped mapped.room mapped.magic mapped.elfClass mapped.data mapped.version
    isLoaded placed init isMacho, isElf, isMacho, baseaddr, table.count, table.stored⟩

end ElfImage

/-- A program, the libraries that it may need, and the type information objects of the process by their addresses. -/
structure Process where
  primary : ElfImage
  library : CStr → ElfImage
  objects : U32 → Typeinfo

namespace Process

variable (process : Process)

def image : Option CStr → ElfImage
  | none => process.primary
  | some needed => process.library needed

def next (node : Option CStr) : List (Option CStr) := (process.image node).needed.map some

/-- The libraries in the order in which a depth-first search comes to them. -/
def order : List (Option CStr) := search process.next nodeKey (numLibs - 1) [none]

/-- The program and all libraries that it needs, at first or second hand. -/
def Reaches : Option CStr → Prop := Relation.ReflTransGen (fun node other => other ∈ process.next node) none

/-- All files can be loaded, have names without a directory part, and are no more than there are slots. -/
structure Mapped (env : Env) (path : CStr) : Prop where
  primary : process.primary.Mapped env true path
  library : ∀ needed, process.Reaches (some needed) → Plain needed ∧ (process.library needed).Mapped env false needed
  room : choice process.next nodeKey process.order = none

def imageAt (slot : Slot) : Option ElfImage := process.order[slot.val]?.map process.image

/-- What the table holds once the process is loaded. -/
structure LoadedAs (libs : Libs) : Prop where
  used : ∀ slot image, process.imageAt slot = some image → image.LoadedAs (libs slot)
  unused : ∀ slot, process.imageAt slot = none → libs slot = {}
  primary : ∀ slot, (libs slot).isPrimary = decide (slot = libFirst)
  walk : libWalk libs = (List.finRange numLibs).filter fun slot => (process.imageAt slot).isSome

section

variable {process : Process} {env : Env} {path : CStr} (mapped : process.Mapped env path)
include mapped

theorem Mapped.node {node : Option CStr} (reaches : process.Reaches node) :
    ∃ lib, loadNode env path node = .ok (lib, (process.image node).needed) ∧ (process.image node).LoadedAs lib := by
  cases node with
  | none => exact mapped.primary.load
  | some needed => exact (mapped.library needed reaches).2.load

theorem Mapped.needs {node : Option CStr} (reaches : process.Reaches node) :
    needs env path node = process.next node := by
  obtain ⟨lib, load, _⟩ := mapped.node reaches
  exact needs_eq load

/-- The libraries that `lib_init` comes to are those that the process needs. -/
theorem Mapped.reaches {needed : CStr} (isNeeded : Needed env path needed) : process.Reaches (some needed) := by
  induction isNeeded with
  | root load member =>
    obtain ⟨lib, load', _⟩ := mapped.primary.load
    rw [load] at load'
    cases load'
    exact .tail .refl (List.mem_map_of_mem member)
  | next _ load member ih =>
    obtain ⟨lib, load', _⟩ := (mapped.library _ ih).2.load
    rw [load] at load'
    cases load'
    exact ih.tail (List.mem_map_of_mem member)

theorem Mapped.loadOrder : loadOrder env path = process.order ∧ ∀ node ∈ process.order, process.Reaches node := by
  refine search_congr (P := process.Reaches) ?_ (numLibs - 1) (List.forall_mem_singleton.mpr .refl)
  intro node reaches
  exact ⟨mapped.needs reaches, fun other isNext => reaches.tail isNext⟩

theorem Mapped.table {slot : Slot} {image : ElfImage} (here : process.imageAt slot = some image) :
    image.LoadedAs (loadedTable env path process.order slot) ∧
      (loadedTable env path process.order slot).name.isSome := by
  obtain ⟨node, atSlot, rfl⟩ := Option.map_eq_some_iff.mp here
  obtain ⟨lib, load, loaded⟩ := mapped.node (mapped.loadOrder.2 node (List.mem_of_getElem? atSlot))
  have held : loadedTable env path process.order slot = lib := by
    rw [loadedTable, atSlot]
    exact nodeLib_eq load
  rw [held]
  refine ⟨loaded, ?_⟩
  cases node with
  | none => rw [((libLoad_loadedAs env true path).of_ok load).name]; rfl
  | some needed => rw [((libLoad_loadedAs env false needed).of_ok load).name]; rfl

/-- `lib_init` loads the process. -/
theorem Mapped.load : ∃ libs, libInitPrimary env path = .ok libs ∧ process.LoadedAs libs := by
  obtain ⟨order, _⟩ := mapped.loadOrder
  have plain (needed : CStr) (isNeeded : Needed env path needed) : Plain needed :=
    (mapped.library needed (mapped.reaches isNeeded)).1
  have room : choice (Classgraph.needs env path) nodeKey (Classgraph.loadOrder env path) = none := by
    rw [order, choice_eq_none]
    intro node member other isNext
    rw [mapped.needs (mapped.loadOrder.2 node member)] at isNext
    exact choice_eq_none.mp mapped.room node member other isNext
  obtain ⟨root, rootLoads, _⟩ := mapped.primary.load
  have load := libInitPrimary_room plain ⟨_, rootLoads⟩ (fun needed isNeeded => by
    obtain ⟨lib, loads, _⟩ := (mapped.library needed (mapped.reaches isNeeded)).2.load
    exact ⟨_, loads⟩) room
  rw [order] at load
  obtain ⟨opened, reach⟩ := (libInitPrimary_holds env path).of_ok load
  have unused (slot : Slot) (absent : process.imageAt slot = none) : loadedTable env path process.order slot = {} := by
    rw [loadedTable, Option.map_eq_none_iff.mp absent]
    rfl
  refine ⟨_, load, fun slot image here => (mapped.table here).1, unused, ?_, ?_⟩
  · intro slot
    rcases slot_cases opened slot with rfl | ⟨k, needed, later, atNeeded⟩ | after
    · rw [reach.registered.named.first.1]
      rfl
    · have notFirst : slot ≠ libFirst := by
        intro same
        rw [same] at later
        exact Nat.succ_ne_zero _ later.symm
      rw [(reach.registered.named.later slot k needed later atNeeded).1, decide_eq_false notFirst]
    · have notFirst : slot ≠ libFirst := by
        intro same
        rw [same] at after
        exact Nat.not_lt_zero _ after
      rw [reach.registered.unused slot after, decide_eq_false notFirst]
  · rw [libWalk, reach.registered.named.walk reach.registered.named.bound]
    refine List.filter_congr ?_
    intro slot _
    cases here : process.imageAt slot with
    | none => rw [unused slot here]; rfl
    | some image => exact (mapped.table here).2

end

end Process

section

variable {env : Env} {libs : Libs} {lFilter : CStr → Bool} {syms : List Symbol} {extent : Slot → Nat}
  (run : symtabForeach env libs = ⟨syms, none⟩) (ranges : AbsRanges libs (keptSyms lFilter syms) extent)
  (single : ∀ sym ∈ keptSyms lFilter syms, ∀ other ∈ keptSyms lFilter syms, sym.addr ≠ 0 → other.addr = sym.addr →
    other.lib = sym.lib)
include run ranges single

/-- Where no two libraries have a symbol at the same distance from their bases, the lookup by absolute address finds
the symbol that lies there. -/
theorem symtabAddrAbs_placed (addr : U32) :
    (symtabAddrAbs libs (fillGlobals lFilter syms).symcache addr).filter (fun sym => sym.addr ≠ 0) =
      lastWith (fun sym => (libs sym.lib).baseaddr + sym.addr) addr
        ((keptSyms lFilter syms).filter fun sym => sym.addr ≠ 0) := by
  have visited {sym : Symbol} (kept : sym ∈ keptSyms lFilter syms) : sym.lib ∈ libWalk libs := by
    have delivered : sym ∈ (symtabForeach env libs).events := by
      rw [run]
      exact keptSyms_mem kept
    exact symtabForeach_visited delivered
  have placed {sym : Symbol} (kept : sym ∈ keptSyms lFilter syms)
      (same : (libs sym.lib).baseaddr + sym.addr = addr) :
      (libs sym.lib).baseaddr.toNat + sym.addr.toNat = addr.toNat := by
    rw [← same]
    exact (ranges.abs_toNat (visited kept) kept).symm
  cases found : symtabAddrAbs libs (fillGlobals lFilter syms).symcache addr with
  | none =>
    refine (Option.eq_none_iff_forall_ne_some.mpr ?_).symm
    intro sym isLast
    obtain ⟨member, same⟩ := lastWith_spec isLast
    obtain ⟨kept, nonzero⟩ := List.mem_filter.mp member
    obtain ⟨last, cached⟩ := symcache_exists kept
    obtain ⟨lastKept, lastAddr⟩ := symcache_mem cached
    have libSame := single sym kept last lastKept (of_decide_eq_true nonzero) lastAddr
    have sum := placed kept same
    rw [← lastAddr, ← libSame] at sum
    have above : (libs last.lib).baseaddr ≤ addr := by
      rw [BitVec.le_def, ← sum]
      exact Nat.le_add_right ..
    rw [← lastAddr, ← (sub_base_eq above).mpr sum] at cached
    rw [symtabAddrAbs_of_cached run ranges above cached] at found
    cases found
  | some entry =>
    obtain ⟨kept, _⟩ := symcache_mem (symtabAddrAbs_sound found).2.2
    have sum := symtabAddrAbs_addr found
    -- what lies at the address belongs to the library of the entry
    have sameLib {sym : Symbol} (symKept : sym ∈ keptSyms lFilter syms)
        (same : (libs sym.lib).baseaddr + sym.addr = addr) : sym.lib = entry.lib :=
      ranges.lib_unique (visited symKept) (visited kept) symKept kept ((placed symKept same).trans sum.symm)
    have cached : (fillGlobals lFilter syms).symcache[entry.addr]? = some entry := by
      have found' := (symtabAddrAbs_sound found).2.2
      rwa [← (symcache_mem found').2] at found'
    rw [fillGlobals_symcache] at cached
    have keys : lastWith (fun sym => (libs sym.lib).baseaddr + sym.addr) addr
          ((keptSyms lFilter syms).filter fun sym => sym.addr ≠ 0) =
        lastWith Symbol.addr entry.addr ((keptSyms lFilter syms).filter fun sym => sym.addr ≠ 0) := by
      refine lastWith_congr ?_
      intro sym member
      obtain ⟨symKept, nonzero⟩ := List.mem_filter.mp member
      constructor
      · intro same
        have symSum := placed symKept same
        rw [sameLib symKept same] at symSum
        exact BitVec.eq_of_toNat_eq (by omega)
      · intro same
        have libSame := single sym symKept entry kept (of_decide_eq_true nonzero) same.symm
        refine BitVec.eq_of_toNat_eq ?_
        rw [ranges.abs_toNat (visited symKept) symKept, ← libSame, same, sum]
    rw [keys, ← lastWith_defined, cached]

/-- A base pointer of a class with several bases is looked up in the same way, if it is no address within a library
that is loaded elsewhere. -/
theorem vmiLookup_placed {addr : U32}
    (direct : ∀ sym ∈ keptSyms lFilter syms, sym.addr ≠ 0 → sym.addr = addr → (libs sym.lib).baseaddr = 0) :
    (vmiLookup libs (fillGlobals lFilter syms).symcache addr).filter (fun sym => sym.addr ≠ 0) =
      lastWith (fun sym => (libs sym.lib).baseaddr + sym.addr) addr
        ((keptSyms lFilter syms).filter fun sym => sym.addr ≠ 0) := by
  rw [vmiLookup, ← symtabAddrAbs_placed run ranges single]
  cases cached : (fillGlobals lFilter syms).symcache[addr]? with
  | none => rfl
  | some entry =>
    obtain ⟨kept, same⟩ := symcache_mem cached
    by_cases zero : entry.addr = 0
    · have null : (symtabAddrAbs libs (fillGlobals lFilter syms).symcache addr).filter (fun sym => sym.addr ≠ 0) =
          none := by
        rw [Option.filter_eq_none_iff]
        intro other found nonzero
        have sum := symtabAddrAbs_addr found
        rw [← same, zero] at sum
        exact of_decide_eq_true nonzero (BitVec.eq_of_toNat_eq (Nat.eq_zero_of_add_eq_zero_left sum))
      rw [null]
      exact if_neg (by simpa using zero)
    · have base := direct entry kept zero same
      have above : (libs entry.lib).baseaddr ≤ addr := by
        rw [base]
        exact Nat.zero_le _
      have distance : addr - (libs entry.lib).baseaddr = addr := by
        rw [base]
        exact BitVec.sub_zero addr
      have stored : (fillGlobals lFilter syms).symcache[addr - (libs entry.lib).baseaddr]? = some entry := by
        rw [distance]
        exact cached
      rw [symtabAddrAbs_of_cached run ranges above stored]

end

namespace Process

variable (process : Process)

def baseaddr (slot : Slot) : U32 := ((process.imageAt slot).map ElfImage.baseaddr).getD 0

/-- The number of addresses from its base on that a library occupies. -/
def extent (slot : Slot) : Nat := ((process.imageAt slot).map ElfImage.extent).getD 0

def table (slot : Slot) : List ElfEntry := ((process.imageAt slot).map ElfImage.table).getD []

/-- The symbols of all libraries. -/
def symbols (env : Env) : List Symbol :=
  (List.finRange numLibs).flatMap fun slot => (process.table slot).map (elfSymbol env slot)

/-- The hierarchy of the process, in which a class of any library can have bases in any other. -/
def graph (env : Env) (lFilter : CStr → Bool) : TypeGraph where
  classes := keptSyms lFilter (process.symbols env)
  place sym := process.baseaddr sym.lib + sym.addr
  isPrimary sym := sym.lib = libFirst
  objects := process.objects

/-- The libraries occupy addresses of their own. No two of them have a class at the same distance from their bases, and
no base pointer of a class with several bases is such a distance itself. The objects are stored where their symbols say,
and the runtime knows what they are. -/
structure Sound (env : Env) (lFilter : CStr → Bool) : Prop where
  fits : ∀ slot, (process.baseaddr slot).toNat + process.extent slot ≤ 2 ^ 32
  apart : ∀ slot other, slot ≠ other →
    (process.baseaddr slot).toNat + process.extent slot ≤ (process.baseaddr other).toNat ∨
      (process.baseaddr other).toNat + process.extent other ≤ (process.baseaddr slot).toNat
  within : ∀ sym ∈ (process.graph env lFilter).classes, sym.addr.toNat < process.extent sym.lib
  single : ∀ sym ∈ (process.graph env lFilter).defined, ∀ other ∈ (process.graph env lFilter).defined,
    other.addr = sym.addr → other.lib = sym.lib
  direct : ∀ sym ∈ (process.graph env lFilter).defined, ∀ bases, (process.graph env lFilter).info sym = .vmi bases →
    ∀ other ∈ (process.graph env lFilter).defined, other.addr ∈ bases → process.baseaddr other.lib = 0
  objects : ∀ sym ∈ (process.graph env lFilter).defined,
    (elfTypeChar sym.addr (env.typeid ((process.graph env lFilter).place sym))).1 =
        ((process.graph env lFilter).info sym).typeChar ∧
      ((process.graph env lFilter).info sym).StoredAt env.mem ((process.graph env lFilter).place sym)
  shallow : (process.graph env lFilter).Shallow
  names : ∀ sym ∈ (process.graph env lFilter).classes, '\n' ∉ sym.nameDemangled

section

variable {process : Process} {libs : Libs} (loaded : process.LoadedAs libs)
include loaded

theorem LoadedAs.baseaddr (slot : Slot) : (libs slot).baseaddr = process.baseaddr slot := by
  rw [Process.baseaddr]
  cases here : process.imageAt slot with
  | none => rw [loaded.unused slot here]; rfl
  | some image => exact (loaded.used slot image here).baseaddr

theorem LoadedAs.foreachLib (env : Env) (slot : Slot) :
    symtabForeachLib env libs slot = ⟨(process.table slot).map (elfSymbol env slot), none⟩ := by
  rw [symtabForeachLib, Process.table]
  cases here : process.imageAt slot with
  | none =>
    rw [loaded.unused slot here]
    rfl
  | some image =>
    have entry := loaded.used slot image here
    rw [entry.isElf, entry.isMacho, if_pos rfl, if_neg Bool.false_ne_true, entry.symtab.foreach slot,
      Emits.append_of_ended rfl]
    exact Emits.ext (List.append_nil _) rfl

/-- The enumeration delivers the symbols of all libraries. -/
theorem LoadedAs.foreach (env : Env) : symtabForeach env libs = ⟨process.symbols env, none⟩ := by
  have quiet (slot : Slot) (absent : ¬(process.imageAt slot).isSome) :
      (⟨(process.table slot).map (elfSymbol env slot), none⟩ : Emits Fault Symbol) = .nil := by
    rw [Process.table, Option.not_isSome_iff_eq_none.mp absent]
    rfl
  rw [symtabForeach, loaded.walk, funext (loaded.foreachLib env), Emits.flow_filter fun slot _ => quiet slot,
    Emits.flow_ends, Process.symbols]

variable {env : Env} {lFilter : CStr → Bool} (sound : process.Sound env lFilter)

theorem LoadedAs.place (sym : Symbol) :
    (libs sym.lib).baseaddr + sym.addr = (process.graph env lFilter).place sym := by
  rw [loaded.baseaddr]
  rfl

include sound

theorem LoadedAs.ranges : AbsRanges libs (keptSyms lFilter (process.symbols env)) process.extent where
  fits slot _ := by
    rw [loaded.baseaddr]
    exact sound.fits slot
  disjoint slot _ other _ different := by
    rw [loaded.baseaddr, loaded.baseaddr]
    exact sound.apart slot other different
  within := sound.within

/-- The dynamic type of an object and the pointer to it. -/
theorem LoadedAs.head {sym : Symbol} (isClass : sym ∈ (process.graph env lFilter).defined) :
    ∃ warnings, typeinfoHead env libs sym =
      .ok ⟨((process.graph env lFilter).info sym).typeChar, (process.graph env lFilter).place sym, warnings⟩ := by
  have delivered : sym ∈ process.symbols env := keptSyms_mem (TypeGraph.mem_defined.mp isClass).1
  obtain ⟨slot, _, inLib⟩ := List.mem_flatMap.mp delivered
  obtain ⟨entry, inTable, rfl⟩ := List.mem_map.mp inLib
  have used : ∃ image, process.imageAt slot = some image := by
    rw [Process.table] at inTable
    cases here : process.imageAt slot with
    | none => rw [here] at inTable; cases inTable
    | some image => exact ⟨image, rfl⟩
  obtain ⟨image, here⟩ := used
  have isElf : (libs slot).isElf := (loaded.used slot image here).isElf
  have notMacho : ¬(libs slot).isMacho := by
    rw [(loaded.used slot image here).isMacho]
    exact Bool.false_ne_true
  have typeChar := (sound.objects _ isClass).1
  unfold typeinfoHead
  dsimp only
  rw [← typeChar, ← loaded.place]
  exact ⟨_, (if_neg notMacho).trans (congrArg Except.ok (if_pos isElf))⟩

theorem LoadedAs.found : (process.graph env lFilter).FoundIn env libs lFilter where
  enumerated := congrArg Emits.stop (loaded.foreach env)
  kept := congrArg (keptSyms lFilter ·.events) (loaded.foreach env)
  isPrimary sym _ := loaded.primary sym.lib
  next sym isClass := by
    have run := loaded.foreach env
    have single : ∀ sym ∈ keptSyms lFilter (process.symbols env), ∀ other ∈ keptSyms lFilter (process.symbols env),
        sym.addr ≠ 0 → other.addr = sym.addr → other.lib = sym.lib := by
      intro sym kept other otherKept nonzero same
      exact sound.single sym (TypeGraph.mem_defined.mpr ⟨kept, nonzero⟩) other
        (TypeGraph.mem_defined.mpr ⟨otherKept, same ▸ nonzero⟩) same
    have place : (fun sym : Symbol => (libs sym.lib).baseaddr + sym.addr) = (process.graph env lFilter).place :=
      funext loaded.place
    have lookup := symtabAddrAbs_placed run (loaded.ranges sound) single
    have direct := @vmiLookup_placed _ _ _ _ _ run (loaded.ranges sound) single
    rw [place] at lookup direct
    have isDirect := sound.direct sym isClass
    rw [run, nextBases]
    cases info : (process.graph env lFilter).info sym with
    | leaf typeChar => rfl
    | si base => exact congrArg (fun found => [found]) (lookup base)
    | vmi bases =>
      rw [Typeinfo.resolve, Typeinfo.pointers, List.map_map]
      refine List.map_congr_left ?_
      intro base member
      refine direct ?_
      intro other kept nonzero same
      rw [loaded.baseaddr]
      exact isDirect bases info other (TypeGraph.mem_defined.mpr ⟨kept, nonzero⟩) (same ▸ member)
  stored sym isClass := by
    obtain ⟨warnings, head⟩ := loaded.head sound isClass
    exact (sound.objects sym isClass).2.stored head

end

end Process

/-- A file as libelf presents it, that is loaded as 64 bytes from its base address on. -/
def sharedImage (opened : String) (map baseaddr : U32) (file : ElfFile) (needed : List String) : ElfImage where
  opened := opened.toList
  map := map
  size := BitVec.ofNat 32 file.bytes.length
  baseaddr := baseaddr
  extent := 0x40
  symtab := some (Elf32.scn file.byte 4)
  dynstr := Elf32.scn file.byte 2
  dynamic := file.dynamic.map fun entry => ⟨entry.1.signExtend 64, entry.2.setWidth 64⟩
  table := file.symbols.map fun symbol => ⟨symbol.2, 0, symbol.1.toList⟩
  needed := needed.map String.toList

def programElf : ElfFile where
  dynstr := ["libb.so"]
  dynamic := [(1, 1), (0, 0)]
  symbols := [("_ZTI1D", 4), ("_ZTI1C", 36), ("_ZTI1A", 0)]

def libraryElf : ElfFile where
  dynamic := [(0, 0)]
  symbols := [("_ZTI1A", 8), ("_ZTI1B", 16)]

def splitProgram : ElfImage := sharedImage "app" 0x1000 0x10000 programElf ["libb.so"]

def splitLibrary : ElfImage := sharedImage "libb.so" 0x2000 0x10040 libraryElf []

/-- A program with the classes `C : A` and `D : B, C`, and a library with `A` and `B : A`. -/
def splitProcess : Process where
  primary := splitProgram
  library := fun _ => splitLibrary
  objects := fun addr =>
    if addr = 0x10048 then .leaf '-' else if addr = 0x10004 then .vmi [0x10050, 0x10024] else .si 0x10048

def splitHost : Env :=
  { fileHost [("app", programElf), ("libb.so", libraryElf)]
      (.ofBytes 0x10000
        (wordBytes ([0, 0, 0, 0, 2, 0x10050, 0x002, 0x10024, 0x402, 0, 0, 0x10048, 0, 0, 0, 0] ++
          [0, 0, 0, 0, 0, 0, 0x10048, 0, 0, 0, 0, 0, 0, 0, 0, 0])))
      fun rtti =>
        if rtti = 0x10048 then .classTypeInfo else if rtti = 0x10004 then .vmiClassTypeInfo else .siClassTypeInfo with
    dlinfo := fun handle => if handle = 0 then some 0x10000 else some 0x10040 }

theorem sharedSymtab {elf : Elf} {scn : ElfScn} {table : List ElfEntry} (entsize : scn.shdr.shEntsize ≠ 0)
    (count : (scn.shdr.shSize / scn.shdr.shEntsize).toNat = table.length) (short : table.length < 2 ^ 31)
    (entries : ∀ i < table.length, (table[i]?).all fun entry => (scn.getsym i).any fun sym =>
      sym.stValue.setWidth 32 = entry.value ∧ sym.stSize.setWidth 32 = entry.size ∧
        elf.strptr scn.shdr.shLink (sym.stName.setWidth 64) = some entry.name) :
    StoredElfSymtab elf (some scn) table := by
  refine .table entsize count short ?_
  intro i entry here
  have stored := entries i (List.getElem?_eq_some_iff.mp here).1
  rw [here] at stored
  obtain ⟨sym, atIndex, same⟩ := (Option.any_eq_true _ _).mp stored
  exact ⟨sym, atIndex, of_decide_eq_true same⟩

theorem splitOrder : splitProcess.order = [none, some "libb.so".toList] := by decide +kernel

theorem splitMapped : splitProcess.Mapped splitHost "app".toList := by
  have program : splitProgram.Mapped splitHost true "app".toList := by
    refine ⟨⟨0, rfl, rfl, rfl⟩, ⟨0, rfl, rfl⟩, by decide +kernel, by decide +kernel, by decide +kernel,
      by decide +kernel, by decide +kernel, ?_, ?_, ?_, by decide, ?_⟩
    · exact elfSections_elf32 (k := 3) rfl (by decide +kernel) (by decide +kernel) (by decide +kernel)
        (by decide +kernel) (by decide +kernel)
    · exact sharedSymtab (by decide +kernel) (by decide +kernel) (by decide) (by decide +kernel)
    · exact Or.inl ⟨⟨dtNull, 0⟩, by decide, rfl⟩
    · exact ⟨by decide, by decide +kernel⟩
  have library : splitLibrary.Mapped splitHost false "libb.so".toList := by
    refine ⟨⟨1, rfl, rfl, rfl⟩, ⟨1, rfl, rfl⟩, by decide +kernel, by decide +kernel, by decide +kernel,
      by decide +kernel, by decide +kernel, ?_, ?_, ?_, by decide, ?_⟩
    · exact elfSections_elf32 (k := 3) rfl (by decide +kernel) (by decide +kernel) (by decide +kernel)
        (by decide +kernel) (by decide +kernel)
    · exact sharedSymtab (by decide +kernel) (by decide +kernel) (by decide) (by decide +kernel)
    · exact Or.inl ⟨⟨dtNull, 0⟩, by decide, rfl⟩
    · exact ⟨by decide, by decide +kernel⟩
  refine ⟨program, ?_, by rw [splitOrder]; decide⟩
  intro needed reaches
  have known : ∀ node, splitProcess.Reaches node → node ∈ [none, some "libb.so".toList] := by
    intro node reaches
    induction reaches with
    | refl => exact List.mem_cons_self ..
    | @tail node other _ isNext ih =>
      have closed : ∀ node ∈ [none, some "libb.so".toList], ∀ other ∈ splitProcess.next node,
          other ∈ [none, some "libb.so".toList] := by decide
      exact closed node ih other isNext
  have only : needed = "libb.so".toList := by simpa using known _ reaches
  rw [only]
  exact ⟨by decide, library⟩

def splitClasses : List Symbol :=
  [namedAt 0 4 "_ZTI1D", namedAt 0 36 "_ZTI1C", namedAt 1 8 "_ZTI1A", namedAt 1 16 "_ZTI1B"]

theorem splitPlaces (slot : Slot) :
    slot = 0 ∧ splitProcess.baseaddr slot = 0x10000 ∧ splitProcess.extent slot = 0x40 ∨
      slot = 1 ∧ splitProcess.baseaddr slot = 0x10040 ∧ splitProcess.extent slot = 0x40 ∨
      splitProcess.baseaddr slot = 0 ∧ splitProcess.extent slot = 0 := by
  rw [Process.baseaddr, Process.extent, Process.imageAt, splitOrder]
  by_cases first : slot = 0
  · exact Or.inl ⟨first, by rw [first]; rfl, by rw [first]; rfl⟩
  · by_cases second : slot = 1
    · exact Or.inr (Or.inl ⟨second, by rw [second]; rfl, by rw [second]; rfl⟩)
    · have notFirst : slot.val ≠ 0 := fun same => first (Fin.ext same)
      have notSecond : slot.val ≠ 1 := fun same => second (Fin.ext same)
      have after : 2 ≤ slot.val := by omega
      rw [List.getElem?_eq_none after]
      exact Or.inr (Or.inr ⟨rfl, rfl⟩)

theorem splitSound : splitProcess.Sound splitHost fun _ => true := by
  have defined : (splitProcess.graph splitHost fun _ => true).defined = splitClasses := by decide +kernel
  have bases : (Typeinfo.vmi [0x10050, 0x10024]).StoredAt splitHost.mem 0x10004 := by
    have count : readWord splitHost.mem (0x10004 + 12) = .ok 2 := by decide +kernel
    refine .vmi count rfl ?_
    intro i base here
    match i with
    | 0 =>
      cases here
      exact ⟨by decide +kernel, 0x002, by decide +kernel⟩
    | 1 =>
      cases here
      exact ⟨by decide +kernel, 0x402, by decide +kernel⟩
    | _ + 2 => cases here
  refine ⟨?_, ?_, by decide +kernel, ?_, ?_, ?_,
    ⟨fun sym => if sym.addr = 4 then 2 else if sym.addr = 8 then 0 else 1, ?_⟩, by decide +kernel⟩
  · intro slot
    rcases splitPlaces slot with ⟨_, base, extent⟩ | ⟨_, base, extent⟩ | ⟨base, extent⟩
    all_goals
      rw [base, extent]
      decide
  · intro slot other different
    rcases splitPlaces slot with ⟨isSlot, base, extent⟩ | ⟨isSlot, base, extent⟩ | ⟨base, extent⟩
    all_goals
      rcases splitPlaces other with ⟨isOther, base', extent'⟩ | ⟨isOther, base', extent'⟩ | ⟨base', extent'⟩
      all_goals
        rw [base, extent, base', extent']
        first
          | decide
          | exact absurd (isSlot.trans isOther.symm) different
  · rw [defined]
    decide
  · rw [defined]
    simp only [splitClasses, List.forall_mem_cons]
    refine ⟨?_, fun _ => nofun, fun _ => nofun, fun _ => nofun, nofun⟩
    intro bases isVmi
    cases isVmi
    decide
  · rw [defined]
    simp only [splitClasses, List.forall_mem_cons]
    exact ⟨⟨by decide +kernel, bases⟩, ⟨by decide +kernel, .si (by decide +kernel)⟩,
      ⟨by decide +kernel, .leaf (by decide) (by decide)⟩, ⟨by decide +kernel, .si (by decide +kernel)⟩, nofun⟩
  · rw [defined]
    decide +kernel

end Classgraph
