import Classgraph.ElfInit
import Classgraph.MachoSymbols

namespace Classgraph
open Run Machine

/-- The fields of an `Elf32_Sym` that are read, and its name. -/
structure ElfEntry where
  value : U32
  size : U32
  name : CStr

/-- The symbol that the callback is called with for an entry. -/
def elfSymbol (env : Env) (slot : Slot) (entry : ElfEntry) : Symbol :=
  ⟨slot, entry.value, entry.size, entry.name, demangledName env entry.name⟩

/-- An entry of a section, with its name in the string table of the given number. -/
def StoredElfSym (elf : Elf) (strtab : U32) (scn : ElfScn) (i : Nat) (entry : ElfEntry) : Prop :=
  ∃ sym, scn.getsym i = some sym ∧ sym.stValue.setWidth 32 = entry.value ∧ sym.stSize.setWidth 32 = entry.size ∧
    elf.strptr strtab (sym.stName.setWidth 64) = some entry.name

/-- The symbol table of a file, short enough for the `int` that counts its entries. A stripped file has none. -/
inductive StoredElfSymtab (elf : Elf) : Option ElfScn → List ElfEntry → Prop
  | stripped : StoredElfSymtab elf none []
  | table {scn table} : scn.shdr.shEntsize ≠ 0 → (scn.shdr.shSize / scn.shdr.shEntsize).toNat = table.length →
      table.length < 2 ^ 31 → (∀ i entry, table[i]? = some entry → StoredElfSym elf scn.shdr.shLink scn i entry) →
      StoredElfSymtab elf (some scn) table

/-- The table that the entry of a loaded library refers to. -/
structure ElfSymtab (lib : LibraryInfo) (table : List ElfEntry) : Prop where
  count : lib.elfSymtabCount.toNat = table.length
  stored : ∀ i entry, table[i]? = some entry → ∃ scn, lib.elfSymtabData = some scn ∧
    StoredElfSym lib.elf lib.elfSymtabShdr.shLink scn i entry

theorem elfSymtabCount_toNat {count : U64} {n : Nat} (same : count.toNat = n) (short : n < 2 ^ 31) :
    (count.setWidth 32).toInt.toNat = n := by
  have value : (count.setWidth 32).toNat = n := by
    rw [BitVec.toNat_setWidth, same, Nat.mod_eq_of_lt (by omega)]
  have nonnegative : 2 * (count.setWidth 32).toNat < 2 ^ 32 := by omega
  rw [BitVec.toInt_eq_toNat_of_lt nonnegative, value, Int.toNat_natCast]

/-- `symtab_elf_init` keeps the table, and leaves everything else in the entry as it was. -/
theorem StoredElfSymtab.set {lib : LibraryInfo} {symtab : Option ElfScn} {table : List ElfEntry}
    (stored : StoredElfSymtab lib.elf symtab table) :
    ∃ lib', elfSetSymtab lib symtab = .ok lib' ∧ ElfSymtab lib' table ∧ lib'.isElf = lib.isElf ∧
      lib'.isMacho = lib.isMacho ∧ lib'.baseaddr = lib.baseaddr := by
  cases stored with
  | stripped =>
    refine ⟨_, rfl, ⟨rfl, ?_⟩, rfl, rfl, rfl⟩
    intro i entry here
    cases here
  | @table scn table entsize count short entries =>
    refine ⟨_, if_neg entsize, ⟨elfSymtabCount_toNat count short, ?_⟩, rfl, rfl, rfl⟩
    intro i entry here
    exact ⟨scn, rfl, entries i entry here⟩

section

variable {env : Env} {lib : LibraryInfo} {table : List ElfEntry} (symtab : ElfSymtab lib table)
include symtab

theorem ElfSymtab.delivered (slot : Slot) {i : Nat} {entry : ElfEntry} (here : table[i]? = some entry) :
    elfForeachEntry env slot lib i = .ok (some (elfSymbol env slot entry)) := by
  obtain ⟨scn, data, sym, atIndex, value, size, name⟩ := symtab.stored i entry here
  have read : (lib.elfSymtabData.bind fun data => data.getsym i) = some sym := by
    rw [data, Option.bind_some, atIndex]
  have named : elfString lib.elf lib.elfSymtabShdr.shLink (sym.stName.setWidth 64) = .ok entry.name := by
    rw [elfString, name]
  rw [elfForeachEntry, read]
  refine bind_ok.mpr ⟨_, named, bind_ok.mpr ⟨_, tryDemangleNoprefix_demangledName env entry.name, ?_⟩⟩
  rw [value, size]
  rfl

/-- Every entry of the table is handed to the callback, whether it is defined or not. -/
theorem ElfSymtab.foreach (slot : Slot) :
    symtabElfForeach env slot lib = ⟨table.map (elfSymbol env slot), none⟩ := by
  have steps (k : Nat) (entry : ElfEntry) (here : table[k]? = some entry) :
      elfForeachEntry env slot lib (0 + k) = .ok (some (elfSymbol env slot entry)) := by
    rw [Nat.zero_add]
    exact symtab.delivered slot here
  have all := @Emits.each_table _ _ _ _ (fun entry => some (elfSymbol env slot entry)) _ _ steps
  rw [symtabElfForeach, symtab.count, all, List.filterMap_eq_map']

end

/-- More rounds do not change what the loop over the dynamic section returns. -/
theorem elfDynLoop_more {elf : Elf} {dynstrNdx : U32} {dynamic : ElfScn} {fuel more i : Nat} {dynEntry : ElfDyn}
    {depends result : List CStr} (run : elfDynLoop elf dynstrNdx dynamic fuel i dynEntry depends = .ok result)
    (enough : fuel ≤ more) : elfDynLoop elf dynstrNdx dynamic more i dynEntry depends = .ok result := by
  induction fuel generalizing more i dynEntry depends with
  | zero => cases run
  | succ fuel ih =>
    obtain ⟨more, rfl⟩ : ∃ rest, more = rest + 1 := ⟨more - 1, by omega⟩
    by_cases isNull : ((dynamic.getdyn i).getD dynEntry).dTag = dtNull
    · rw [elfDynLoop_null rfl isNull] at run ⊢
      exact run
    · by_cases isNeeded : ((dynamic.getdyn i).getD dynEntry).dTag = dtNeeded
      · rw [elfDynLoop_needed rfl isNeeded] at run ⊢
        obtain ⟨name, read, room, run⟩ := run
        exact ⟨name, read, room, ih run (Nat.le_of_succ_le_succ enough)⟩
      · rw [elfDynLoop_other rfl isNull isNeeded] at run ⊢
        exact ih run (Nat.le_of_succ_le_succ enough)

/-- The names that the dynamic section of a file needs, for any bound on the loop that lets it reach the end. -/
theorem elfDepends_names {env : Env} {lib : LibraryInfo} {symtab : Option ElfScn} {dynstr : ElfScn}
    {entries : List ElfDyn} {needed : List CStr}
    (sections : ElfSections env (openElf env lib) symtab dynstr entries) (ends : EndsAt env.dynEntry entries)
    (rounds : entries.length < env.loopBound)
    (names : Stores ((env.elfMemory lib.map lib.size).strptr dynstr.ndx) (neededOffsets entries) [] needed) :
    elfDepends env (openElf env lib) = .ok needed := by
  obtain ⟨dynamic, found, held⟩ := sections.dynamic
  have loop : elfDynLoop (env.elfMemory lib.map lib.size) dynstr.ndx dynamic (entries.length + 1) 0 env.dynEntry [] =
      .ok needed := by
    refine (elfDynLoop_ok ?_ (Nat.zero_le _)).mpr ⟨ends, names⟩
    intro k
    rw [Nat.zero_add]
    exact held k
  rw [elfDepends, sections.dynstr, found]
  exact elfDynLoop_more loop rounds

/-- A file that starts like an ELF file for i386. -/
theorem libFormat_elf {mem : Mem} {lib : LibraryInfo} (room : eiNident ≤ lib.size)
    (magic : readWord mem lib.map = .ok 0x464c457f) (elfClass : readByte mem (lib.map + 4) = .ok 1)
    (data : readByte mem (lib.map + 5) = .ok 1) (version : readByte mem (lib.map + 6) = .ok 1)
    (notMacho : lib.isMacho = false) : libFormat mem lib = .ok { lib with isElf := true } := by
  have ident : isElfIdent mem lib = .ok true := by
    rw [isElfIdent, if_pos room, magic]
    rfl
  have elf : elfFormat mem lib = .ok { lib with isElf := true } := by
    simp only [elfFormat, ident, ok_bind, elfClass, data, version]
    rfl
  have macho : machoFormat mem { lib with isElf := true } = .ok { lib with isElf := true } := by
    have room' : (4 : U32) ≤ lib.size := BitVec.le_trans (by decide) room
    have other : ¬((0x464c457f : U32) = mhMagic ∨ (0x464c457f : U32) = fatCigam) := by decide
    rw [machoFormat, if_pos room', magic, ok_bind, if_neg other]
    rfl
  rw [libFormat, elf, ok_bind, macho]
  simp only [notMacho]
  rfl

/-- The entry of an ELF file when `symtab_elf_init` is called. -/
def elfEntry (primary : Bool) (path opened : CStr) (map size baseaddr : U32) : LibraryInfo :=
  { isPrimary := primary, name := some (basename path), path := opened, size := size, map := map, isElf := true,
    baseaddr := baseaddr }

/-- `lib_init` on a file that starts like an ELF file and is known to the dynamic linker. -/
theorem libLoad_elf {env : Env} {path opened : CStr} {fd handle : Nat} {map size baseaddr : U32} {primary : Bool}
    {lib : LibraryInfo} (isOpened : libOpen env path = .ok (fd, opened)) (sized : env.fstat fd = some size)
    (mapped : env.mmap fd = some map) (room : eiNident ≤ size) (magic : readWord env.mem map = .ok 0x464c457f)
    (elfClass : readByte env.mem (map + 4) = .ok 1) (data : readByte env.mem (map + 5) = .ok 1)
    (version : readByte env.mem (map + 6) = .ok 1) (isLoaded : env.dlopen opened = some handle)
    (placed : env.dlinfo handle = some baseaddr)
    (init : symtabElfInit env (elfEntry primary path opened map size baseaddr) = .ok lib)
    (notMacho : lib.isMacho = false) :
    libLoad env {} primary path = .ok (lib, lib.depends) := by
  let entry : LibraryInfo := { isPrimary := primary, name := some (basename path), path := opened }
  let mappedEntry : LibraryInfo := { entry with size := size, map := map }
  have mapRun : libMap env fd entry = .ok mappedEntry := by rw [libMap, sized, mapped]
  have formatRun : libFormat env.mem mappedEntry = .ok { mappedEntry with isElf := true } :=
    libFormat_elf room magic elfClass data version rfl
  have baseRun : libBase env { mappedEntry with isElf := true } = .ok (some baseaddr) := by
    rw [libBase, if_pos rfl]
    simp only [mappedEntry, entry, isLoaded, placed]
  have initRun : symtabInit env (elfEntry primary path opened map size baseaddr) = .ok lib := by
    refine bind_ok.mpr ⟨lib, init, if_neg ?_⟩
    rw [notMacho]
    exact Bool.false_ne_true
  rw [libLoad, isOpened, ok_bind]
  change (libMap env fd entry >>= fun lib => _) = _
  rw [mapRun, ok_bind, formatRun, ok_bind, baseRun, ok_bind]
  exact bind_ok.mpr ⟨lib, initRun, rfl⟩

end Classgraph
