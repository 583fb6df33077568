import Classgraph.Dependencies

namespace Classgraph
open Run Machine

/-- The string table offsets of the entries of type `DT_NEEDED` before the first one of type `DT_NULL`. -/
def neededOffsets (entries : List ElfDyn) : List U64 :=
  ((entries.takeWhile fun entry => entry.dTag ≠ dtNull).filter fun entry => entry.dTag = dtNeeded).map ElfDyn.dVal

/-- Some entry ends the section; without any entry, the content of the local variable does. -/
def EndsAt (dynEntry : ElfDyn) (entries : List ElfDyn) : Prop :=
  (∃ entry ∈ entries, entry.dTag = dtNull) ∨ entries = [] ∧ dynEntry.dTag = dtNull

theorem neededOffsets_null {entry : ElfDyn} (isNull : entry.dTag = dtNull) (rest : List ElfDyn) :
    neededOffsets (entry :: rest) = [] := by
  simp [neededOffsets, isNull]

theorem neededOffsets_needed {entry : ElfDyn} (isNeeded : entry.dTag = dtNeeded) (rest : List ElfDyn) :
    neededOffsets (entry :: rest) = entry.dVal :: neededOffsets rest := by
  simp [neededOffsets, isNeeded, dtNull, dtNeeded]

theorem neededOffsets_other {entry : ElfDyn} (notNull : entry.dTag ≠ dtNull) (notNeeded : entry.dTag ≠ dtNeeded)
    (rest : List ElfDyn) : neededOffsets (entry :: rest) = neededOffsets rest := by
  simp [neededOffsets, notNull, notNeeded]

theorem endsAt_next {entry dynEntry : ElfDyn} (notNull : entry.dTag ≠ dtNull) (rest : List ElfDyn) :
    EndsAt dynEntry (entry :: rest) ↔ EndsAt entry rest := by
  simp [EndsAt, notNull]

/-- The names that were stored are those of the offsets, behind the earlier ones. -/
structure Stores (strptr : U64 → Option CStr) (offsets : List U64) (depends result : List CStr) : Prop where
  room : depends.length + offsets.length ≤ maxDepends
  names : result.map some = depends.map some ++ offsets.map strptr

theorem stores_nil {strptr : U64 → Option CStr} {depends result : List CStr} (bounded : depends.length ≤ maxDepends) :
    Stores strptr [] depends result ↔ depends = result := by
  constructor
  · intro stores
    have same := stores.names
    rw [List.map_nil, List.append_nil] at same
    exact (List.map_injective_iff.mpr (Option.some_injective CStr) same).symm
  · rintro rfl
    exact ⟨bounded, (List.append_nil _).symm⟩

theorem stores_cons {strptr : U64 → Option CStr} {offset : U64} {offsets : List U64} {depends result : List CStr} :
    Stores strptr (offset :: offsets) depends result ↔
      ∃ name, strptr offset = some name ∧ depends.length < maxDepends ∧
        Stores strptr offsets (depends ++ [name]) result := by
  constructor
  · intro stores
    have room := stores.room
    have names := stores.names
    have member : strptr offset ∈ result.map some := by
      rw [names]
      exact List.mem_append_right _ (List.mem_cons_self ..)
    obtain ⟨name, _, read⟩ := List.mem_map.mp member
    rw [List.length_cons] at room
    refine ⟨name, read.symm, by omega, ?_, ?_⟩
    · rw [List.length_append, List.length_singleton]
      omega
    · rw [names, List.map_append, List.map_cons, List.map_singleton, ← read, List.append_assoc, List.singleton_append]
  · intro stores
    obtain ⟨name, read, _, stores⟩ := stores
    have room := stores.room
    rw [List.length_append, List.length_singleton] at room
    refine ⟨?_, ?_⟩
    · rw [List.length_cons]
      omega
    · simp [stores.names, read]

theorem names_exist {strptr : U64 → Option CStr} {offsets : List U64}
    (named : ∀ offset ∈ offsets, (strptr offset).isSome) :
    ∃ names : List CStr, names.map some = offsets.map strptr := by
  induction offsets with
  | nil => exact ⟨[], rfl⟩
  | cons offset offsets ih =>
    obtain ⟨name, read⟩ := Option.isSome_iff_exists.mp (named offset (List.mem_cons_self ..))
    obtain ⟨names, rest⟩ := ih fun other member => named other (List.mem_cons_of_mem _ member)
    exact ⟨name :: names, by rw [List.map_cons, List.map_cons, rest, read]⟩

section

variable {elf : Elf} {dynstrNdx : U32} {dynamic : ElfScn} {dynEntry : ElfDyn} {depends result : List CStr}

/-- A round that reads a name stores it behind the others. -/
theorem elfDynLoop_needed {i fuel : Nat} {entry : ElfDyn} (here : (dynamic.getdyn i).getD dynEntry = entry)
    (isNeeded : entry.dTag = dtNeeded) :
    elfDynLoop elf dynstrNdx dynamic (fuel + 1) i dynEntry depends = .ok result ↔
      ∃ name, elf.strptr dynstrNdx entry.dVal = some name ∧ depends.length < maxDepends ∧
        elfDynLoop elf dynstrNdx dynamic fuel (i + 1) entry (depends ++ [name]) = .ok result := by
  have notNull : ¬entry.dTag = dtNull := by simp [isNeeded, dtNull, dtNeeded]
  rw [elfDynLoop, here]
  simp only [if_neg notNull, if_pos isNeeded]
  refine bind_ok.trans ⟨?_, ?_⟩
  · intro run
    obtain ⟨name, read, run⟩ := run
    obtain ⟨stored, fits, run⟩ := bind_ok.mp run
    rw [elfString] at read
    rw [store] at fits
    split at read
    · cases read
      split at fits
      · cases fits
        exact ⟨name, by assumption, by assumption, run⟩
      · cases fits
    · cases read
  · intro run
    obtain ⟨name, read, room, run⟩ := run
    exact ⟨name, by rw [elfString, read], bind_ok.mpr ⟨depends ++ [name], if_pos room, run⟩⟩

theorem elfDynLoop_null {i fuel : Nat} {entry : ElfDyn} (here : (dynamic.getdyn i).getD dynEntry = entry)
    (isNull : entry.dTag = dtNull) :
    elfDynLoop elf dynstrNdx dynamic (fuel + 1) i dynEntry depends = .ok depends := by
  rw [elfDynLoop, here]
  exact if_pos isNull

theorem elfDynLoop_other {i fuel : Nat} {entry : ElfDyn} (here : (dynamic.getdyn i).getD dynEntry = entry)
    (notNull : entry.dTag ≠ dtNull) (notNeeded : entry.dTag ≠ dtNeeded) :
    elfDynLoop elf dynstrNdx dynamic (fuel + 1) i dynEntry depends =
      elfDynLoop elf dynstrNdx dynamic fuel (i + 1) entry depends := by
  rw [elfDynLoop, here]
  exact (if_neg notNull).trans (if_neg notNeeded)

/-- The loop returns within a round for each entry that is left and one more, exactly if the section
ends, the array has room and the names can be read. -/
theorem elfDynLoop_ok {rest : List ElfDyn} {i : Nat} (held : ∀ k, dynamic.getdyn (i + k) = rest[k]?)
    (bounded : depends.length ≤ maxDepends) :
    elfDynLoop elf dynstrNdx dynamic (rest.length + 1) i dynEntry depends = .ok result ↔
      EndsAt dynEntry rest ∧ Stores (elf.strptr dynstrNdx) (neededOffsets rest) depends result := by
  induction rest generalizing i dynEntry depends with
  | nil =>
    have kept : (dynamic.getdyn i).getD dynEntry = dynEntry := congrArg (Option.getD · dynEntry) (held 0)
    by_cases isNull : dynEntry.dTag = dtNull
    · have ends : EndsAt dynEntry [] := Or.inr ⟨rfl, isNull⟩
      rw [elfDynLoop_null kept isNull, neededOffsets, List.takeWhile_nil, List.filter_nil, List.map_nil,
        stores_nil bounded, Except.ok.injEq]
      exact (and_iff_right ends).symm
    · have open' : ¬EndsAt dynEntry [] := by simp [EndsAt, isNull]
      refine iff_of_false ?_ fun both => open' both.1
      by_cases isNeeded : dynEntry.dTag = dtNeeded
      · rw [elfDynLoop_needed kept isNeeded]
        intro run
        obtain ⟨name, _, _, run⟩ := run
        cases run
      · rw [elfDynLoop_other kept isNull isNeeded]
        exact nofun
  | cons entry rest ih =>
    have here : (dynamic.getdyn i).getD dynEntry = entry := congrArg (Option.getD · dynEntry) (held 0)
    have later (k : Nat) : dynamic.getdyn (i + 1 + k) = rest[k]? := by
      have entryLater := held (k + 1)
      rwa [Nat.add_comm k 1, ← Nat.add_assoc, Nat.add_comm 1 k, List.getElem?_cons_succ] at entryLater
    rw [List.length_cons]
    by_cases isNull : entry.dTag = dtNull
    · have ends : EndsAt dynEntry (entry :: rest) := Or.inl ⟨entry, List.mem_cons_self .., isNull⟩
      rw [elfDynLoop_null here isNull, neededOffsets_null isNull, stores_nil bounded, Except.ok.injEq]
      exact (and_iff_right ends).symm
    · rw [endsAt_next isNull]
      by_cases isNeeded : entry.dTag = dtNeeded
      · rw [elfDynLoop_needed here isNeeded, neededOffsets_needed isNeeded, stores_cons]
        have rest' (name : CStr) (room : depends.length < maxDepends) :
            elfDynLoop elf dynstrNdx dynamic (rest.length + 1) (i + 1) entry (depends ++ [name]) = .ok result ↔
              EndsAt entry rest ∧
                Stores (elf.strptr dynstrNdx) (neededOffsets rest) (depends ++ [name]) result := by
          refine ih later ?_
          rw [List.length_append, List.length_singleton]
          exact room
        constructor
        · intro run
          obtain ⟨name, read, room, run⟩ := run
          obtain ⟨ends, stores⟩ := (rest' name room).mp run
          exact ⟨ends, name, read, room, stores⟩
        · intro both
          obtain ⟨ends, name, read, room, stores⟩ := both
          exact ⟨name, read, room, (rest' name room).mpr ⟨ends, stores⟩⟩
      · rw [elfDynLoop_other here isNull isNeeded, neededOffsets_other isNull isNeeded]
        exact ih later bounded

end

/-- What `symtab_elf_init` finds in a file that it admits: any number of symbol tables, unless the library is the
primary one, and one section each of the other two kinds, of which the dynamic section has the given entries. -/
structure ElfSections (env : Env) (lib : LibraryInfo) (symtab : Option ElfScn) (dynstr : ElfScn)
    (entries : List ElfDyn) : Prop where
  symtab : ∃ numSymtab, (lib.isPrimary → numSymtab = 1) ∧
    symtabElfFindSection env.mem lib shtSymtab (some ".symtab".toList) = .ok (numSymtab, symtab)
  dynstr : symtabElfFindSection env.mem lib shtStrtab (some ".dynstr".toList) = .ok (1, some dynstr)
  dynamic : ∃ dynamic, symtabElfFindSection env.mem lib shtDynamic (some ".dynamic".toList) = .ok (1, some dynamic) ∧
    ∀ i, dynamic.getdyn i = entries[i]?

/-- The library entry with the file opened by libelf. -/
def openElf (env : Env) (lib : LibraryInfo) : LibraryInfo :=
  { lib with elfHdr := lib.map, elf := env.elfMemory lib.map lib.size, depends := [] }

/-- The condition on the tables: the last symbol table has an entry size, and the dynamic section ends after at
most 256 needed libraries, whose names can be read. -/
structure ElfTablesFit (env : Env) (lib : LibraryInfo) (symtab : Option ElfScn) (dynstr : ElfScn)
    (entries : List ElfDyn) : Prop where
  entsize : ∀ scn, symtab = some scn → scn.shdr.shEntsize ≠ 0
  ends : EndsAt env.dynEntry entries
  room : (neededOffsets entries).length ≤ maxDepends
  named : ∀ offset ∈ neededOffsets entries, ((env.elfMemory lib.map lib.size).strptr dynstr.ndx offset).isSome

section

variable {env : Env} {lib : LibraryInfo} {symtab : Option ElfScn} {dynstr : ElfScn} {entries : List ElfDyn}

theorem elfSetSymtab_ok (lib : LibraryInfo) (symtab : Option ElfScn) :
    (∃ lib', elfSetSymtab lib symtab = .ok lib') ↔ ∀ scn, symtab = some scn → scn.shdr.shEntsize ≠ 0 := by
  cases symtab with
  | none => exact ⟨fun _ scn isScn => (nomatch isScn), fun _ => ⟨_, rfl⟩⟩
  | some scn =>
    rw [elfSetSymtab]
    by_cases zero : scn.shdr.shEntsize = 0
    · rw [if_pos zero]
      refine iff_of_false ?_ fun nonzero => nonzero scn rfl zero
      intro returns
      obtain ⟨lib', returned⟩ := returns
      cases returned
    · rw [if_neg zero]
      refine iff_of_true ⟨_, rfl⟩ ?_
      intro other same
      cases same
      exact zero

/-- The symbol table fields do not matter for what follows. -/
theorem elfDepends_setSymtab {lib lib' : LibraryInfo} (set : elfSetSymtab lib symtab = .ok lib') (env : Env) :
    elfDepends env lib' = elfDepends env lib := by
  cases symtab with
  | none =>
    cases set
    rfl
  | some scn =>
    rw [elfSetSymtab] at set
    split at set
    · cases set
    · cases set
      rfl

theorem symtabElfInit_ok {result : LibraryInfo} (sections : ElfSections env (openElf env lib) symtab dynstr entries) :
    symtabElfInit env lib = .ok result ↔
      ∃ lib' depends, elfSetSymtab (openElf env lib) symtab = .ok lib' ∧
        elfDepends env (openElf env lib) = .ok depends ∧ { lib' with depends := depends } = result := by
  obtain ⟨numSymtab, primary, found⟩ := sections.symtab
  have run : symtabElfInit env lib = (do
      let lib' ← elfSetSymtab (openElf env lib) symtab
      return { lib' with depends := ← elfDepends env lib' }) := by
    change (symtabElfFindSection env.mem (openElf env lib) shtSymtab (some ".symtab".toList) >>= _) = _
    rw [found]
    by_cases isPrimary : lib.isPrimary
    · have checked : check .oneSymtab (numSymtab = 1) = .ok () := check_ok.mpr (decide_eq_true (primary isPrimary))
      refine (if_pos isPrimary).trans ?_
      rw [checked]
      rfl
    · exact if_neg isPrimary
  rw [run, bind_ok]
  constructor
  · intro returned
    obtain ⟨lib', set, rest⟩ := returned
    obtain ⟨depends, loop, same⟩ := bind_ok.mp rest
    rw [elfDepends_setSymtab set] at loop
    exact ⟨lib', depends, set, loop, pure_ok.mp same⟩
  · intro returned
    obtain ⟨lib', depends, set, loop, same⟩ := returned
    rw [← elfDepends_setSymtab set] at loop
    exact ⟨lib', set, bind_ok.mpr ⟨depends, loop, pure_ok.mpr same⟩⟩

theorem elfDepends_ok {depends : List CStr} (sections : ElfSections env (openElf env lib) symtab dynstr entries)
    (rounds : env.loopBound = entries.length + 1) :
    elfDepends env (openElf env lib) = .ok depends ↔
      EndsAt env.dynEntry entries ∧
        Stores ((env.elfMemory lib.map lib.size).strptr dynstr.ndx) (neededOffsets entries) [] depends := by
  obtain ⟨dynamic, found, held⟩ := sections.dynamic
  have run : elfDepends env (openElf env lib) =
      elfDynLoop (env.elfMemory lib.map lib.size) dynstr.ndx dynamic (entries.length + 1) 0 env.dynEntry [] := by
    rw [elfDepends, sections.dynstr, found, ← rounds]
    rfl
  rw [run]
  refine elfDynLoop_ok ?_ (Nat.zero_le _)
  intro k
  rw [Nat.zero_add]
  exact held k

/-- `symtab_elf_init` returns after at most one round more than the dynamic section has entries, without a division
by zero or a store behind the end of `depends`, and with the needed names, exactly if the tables fit. -/
theorem symtabElfInit_safe_iff (sections : ElfSections env (openElf env lib) symtab dynstr entries) :
    (∃ result, symtabElfInit { env with loopBound := entries.length + 1 } lib = .ok result ∧
        result.depends.map some = (neededOffsets entries).map ((env.elfMemory lib.map lib.size).strptr dynstr.ndx)) ↔
      ElfTablesFit env lib symtab dynstr entries := by
  have sections' : ElfSections { env with loopBound := entries.length + 1 }
      (openElf { env with loopBound := entries.length + 1 } lib) symtab dynstr entries :=
    ⟨sections.symtab, sections.dynstr, sections.dynamic⟩
  constructor
  · intro returned
    obtain ⟨result, returned, _⟩ := returned
    obtain ⟨lib', depends, set, loop, _⟩ := (symtabElfInit_ok sections').mp returned
    obtain ⟨ends, stores⟩ := (elfDepends_ok sections' rfl).mp loop
    refine ⟨(elfSetSymtab_ok _ symtab).mp ⟨lib', set⟩, ends, by simpa using stores.room, ?_⟩
    intro offset member
    have names := stores.names
    rw [List.map_nil, List.nil_append] at names
    have stored : (env.elfMemory lib.map lib.size).strptr dynstr.ndx offset ∈ depends.map some := by
      rw [names]
      exact List.mem_map_of_mem member
    obtain ⟨name, _, read⟩ := List.mem_map.mp stored
    rw [← read]
    rfl
  · intro fit
    obtain ⟨lib', set⟩ :=
      (elfSetSymtab_ok (openElf { env with loopBound := entries.length + 1 } lib) symtab).mpr fit.entsize
    obtain ⟨names, read⟩ : ∃ names : List CStr, names.map some =
        (neededOffsets entries).map ((env.elfMemory lib.map lib.size).strptr dynstr.ndx) := names_exist fit.named
    have stores : Stores ((env.elfMemory lib.map lib.size).strptr dynstr.ndx) (neededOffsets entries) [] names :=
      ⟨by simpa using fit.room, read⟩
    have loop := (elfDepends_ok sections' rfl).mpr ⟨fit.ends, stores⟩
    exact ⟨_, (symtabElfInit_ok sections').mpr ⟨lib', names, set, loop, rfl⟩, read⟩

end

/-- What `symtab_elf_init` finds in a file by the numbers of its sections. -/
theorem elfSections_elf32 {env : Env} {lib : LibraryInfo} {byte : Nat → Option U8} {entries : List ElfDyn} {i j k : Nat}
    (isElf : env.elfMemory lib.map lib.size = Elf32.elfMemory byte)
    (symtab : (symtabElfFindSection env.mem (openElf env lib) shtSymtab (some ".symtab".toList)).map
      (fun found => (found.1, found.2.map fun scn => scn.ndx.toNat)) = .ok (1, some i))
    (dynstr : (symtabElfFindSection env.mem (openElf env lib) shtStrtab (some ".dynstr".toList)).map
      (fun found => (found.1, found.2.map fun scn => scn.ndx.toNat)) = .ok (1, some j))
    (dynamic : (symtabElfFindSection env.mem (openElf env lib) shtDynamic (some ".dynamic".toList)).map
      (fun found => (found.1, found.2.map fun scn => scn.ndx.toNat)) = .ok (1, some k))
    (counted : (Elf32.shSize byte k).toNat = 8 * entries.length)
    (stored : ∀ n < entries.length, Elf32.getdyn byte k n = entries[n]?) :
    ElfSections env (openElf env lib) (some (Elf32.scn byte i)) (Elf32.scn byte j) entries :=
  ⟨⟨1, fun _ => rfl, symtabElfFindSection_elf32 isElf symtab⟩, symtabElfFindSection_elf32 isElf dynstr,
    Elf32.scn byte k, symtabElfFindSection_elf32 isElf dynamic, Elf32.getdyn_eq counted stored⟩

/-- A library with the given entry size of its symbol table and the given dynamic section. -/
def dynamicFile (entsize : U32) (dynamic : List (U32 × U32)) : ElfFile where
  dynstr := ["libb.so"]
  dynamic := dynamic
  symEntsize := entsize

def dynamicHost (file : ElfFile) : Env := fileHost [("app", file)] (.ofBytes 0 []) fun _ => .badTypeid []

def dynamicLib (file : ElfFile) : LibraryInfo := { map := 0x1000, size := BitVec.ofNat 32 file.bytes.length }

/-- A library that needs `libb.so`, without and with a `DT_NULL` entry behind it. -/
def unterminatedFile : ElfFile := dynamicFile 16 [(1, 1)]

def terminatedFile : ElfFile := dynamicFile 16 [(1, 1), (0, 0)]

/-- Without an entry of type `DT_NULL` the last name is stored again and again, until the array overflows; and a
symbol table without an entry size is divided by it. -/
theorem unterminated_overruns :
    ElfSections (dynamicHost unterminatedFile) (openElf (dynamicHost unterminatedFile) (dynamicLib unterminatedFile))
        (some (Elf32.scn unterminatedFile.byte 4)) (Elf32.scn unterminatedFile.byte 2) [⟨dtNeeded, 1⟩] ∧
      (symtabElfInit { dynamicHost unterminatedFile with loopBound := 2 } (dynamicLib unterminatedFile)).map
        LibraryInfo.depends = .error .diverges ∧
      (symtabElfInit { dynamicHost unterminatedFile with loopBound := 300 } (dynamicLib unterminatedFile)).map
        LibraryInfo.depends = .error (.outOfBounds .depends) ∧
      (symtabElfInit { dynamicHost (dynamicFile 0 [(0, 0)]) with loopBound := 2 }
        (dynamicLib (dynamicFile 0 [(0, 0)]))).map LibraryInfo.depends = .error .divideByZero :=
  ⟨elfSections_elf32 (k := 3) rfl (by decide +kernel) (by decide +kernel) (by decide +kernel) (by decide +kernel)
    (by decide +kernel), by decide +kernel, by decide +kernel, by decide +kernel⟩

theorem terminated_safe : ∃ result,
    symtabElfInit { dynamicHost terminatedFile with loopBound := 3 } (dynamicLib terminatedFile) = .ok result ∧
      result.depends.map some = [some "libb.so".toList] := by
  have sections : ElfSections (dynamicHost terminatedFile)
      (openElf (dynamicHost terminatedFile) (dynamicLib terminatedFile)) (some (Elf32.scn terminatedFile.byte 4))
      (Elf32.scn terminatedFile.byte 2) [⟨dtNeeded, 1⟩, ⟨dtNull, 0⟩] :=
    elfSections_elf32 (k := 3) rfl (by decide +kernel) (by decide +kernel) (by decide +kernel) (by decide +kernel)
      (by decide +kernel)
  have name : Elf32.strptr terminatedFile.byte 2 1 = some "libb.so".toList := by decide +kernel
  have fit : ElfTablesFit (dynamicHost terminatedFile) (dynamicLib terminatedFile)
      (some (Elf32.scn terminatedFile.byte 4)) (Elf32.scn terminatedFile.byte 2) [⟨dtNeeded, 1⟩, ⟨dtNull, 0⟩] := by
    refine ⟨?_, Or.inl ⟨⟨dtNull, 0⟩, by simp, rfl⟩, by decide, ?_⟩
    · intro scn isScn
      cases isScn
      decide +kernel
    · intro offset member
      have first : offset = 1 := by simpa [neededOffsets, dtNeeded, dtNull] using member
      rw [first]
      exact Option.isSome_of_eq_some name
  obtain ⟨result, run, names⟩ := (symtabElfInit_safe_iff sections).mpr fit
  exact ⟨result, run, names.trans (congrArg (fun name => [name]) name)⟩

end Classgraph
