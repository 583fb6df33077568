import Classgraph.Relocations

namespace Classgraph
open Run Machine

/-- The fields of a `struct nlist` that are read, and the string at the offset `n_strx`. -/
structure NlistEntry where
  strx : U32
  type : U8
  value : U32
  string : CStr

namespace NlistEntry

/-- Neither `N_EXT` nor any `N_STAB` bit is set. -/
def Local (entry : NlistEntry) : Prop := entry.type &&& nExt = 0 ∧ entry.type &&& nStab = 0

def Valued (entry : NlistEntry) : Prop := entry.type &&& nType = nAbs ∨ entry.type &&& nType = nSect

def Undefined (entry : NlistEntry) : Prop := entry.type &&& nType = nUndf ∨ entry.type &&& nType = nPbud

/-- The values of `N_TYPE` for which a symbol has an address. -/
def Known (entry : NlistEntry) : Prop := entry.Valued ∨ entry.Undefined

instance (entry : NlistEntry) : Decidable entry.Local := inferInstanceAs (Decidable (_ ∧ _))

instance (entry : NlistEntry) : Decidable entry.Valued := inferInstanceAs (Decidable (_ ∨ _))

instance (entry : NlistEntry) : Decidable entry.Undefined := inferInstanceAs (Decidable (_ ∨ _))

instance (entry : NlistEntry) : Decidable entry.Known := inferInstanceAs (Decidable (_ ∨ _))

def addr (entry : NlistEntry) : U32 := if entry.Valued then entry.value else 0

def name (entry : NlistEntry) : CStr := if entry.strx = 0 then [] else stripUnderscore entry.string

end NlistEntry

/-- The entry at an address of the file, with its name inside the file. -/
structure StoredNlist (mem : Mem) (lib : LibraryInfo) (sym : U32) (entry : NlistEntry) : Prop where
  strx : Nlist.strx mem sym = .ok entry.strx
  type : Nlist.type mem sym = .ok entry.type
  value : Nlist.value mem sym = .ok entry.value
  string : entry.strx ≠ 0 → readCStr mem (lib.map + lib.machoStrtabOff + entry.strx) = .ok entry.string

/-- The symbol table of a library, short enough for the `int` that counts its entries. -/
structure StoredSymtab (mem : Mem) (lib : LibraryInfo) (table : List NlistEntry) : Prop where
  count : lib.machoSymtabCount.toNat = table.length
  short : table.length < 2 ^ 31
  stored : ∀ i entry, table[i]? = some entry → StoredNlist mem lib (nlistAt lib (BitVec.ofNat 32 i)) entry

/-- The demangled form that is stored with a name. -/
def demangledName (env : Env) (name : CStr) : CStr := ( tryDemangleNoprefix env name).toOption.getD []

/-- The symbol that the callback is called with for an entry. -/
def entrySymbol (env : Env) (slot : Slot) (entry : NlistEntry) : Symbol :=
  ⟨slot, entry.addr, 0, entry.name, demangledName env entry.name⟩

theorem tryDemangleNoprefix_demangledName (env : Env) (name : CStr) :
    tryDemangleNoprefix env name = .ok (demangledName env name) := by
  obtain ⟨demangled, demangle⟩ := tryDemangleNoprefix_total env name
  rw [demangledName, demangle]
  rfl

theorem NlistEntry.Local.notSkipped {entry : NlistEntry} (isLocal : entry.Local) :
    ¬(entry.type &&& nExt ≠ 0 ∨ entry.type &&& nStab ≠ 0) := fun skipped => not_and_or.mpr skipped isLocal

section

variable {mem : Mem} {lib : LibraryInfo} {sym : U32} {entry : NlistEntry} (stored : StoredNlist mem lib sym entry)
include stored

theorem StoredNlist.getName : machoGetSymName mem lib sym = .ok entry.name :=
  machoGetSymName_eq stored.strx stored.string

theorem StoredNlist.getAddr (isLocal : entry.Local) (known : entry.Known) :
    machoGetSymAddr mem sym = .ok entry.addr := by
  rw [NlistEntry.addr]
  by_cases valued : entry.Valued
  · rw [machoGetSymAddr_value stored.type isLocal.2 valued, if_pos valued]
    exact stored.value
  · rw [machoGetSymAddr_zero stored.type (Or.inr (known.resolve_left valued)), if_neg valued]

/-- The switch ends in one of its assertions for all other types. -/
theorem StoredNlist.getAddr_unknown (isLocal : entry.Local) (unknown : ¬entry.Known) :
    machoGetSymAddr mem sym =
      .error (.assertion (if entry.type &&& nType = nIndr then .indirectSymbol else .unknownSymbolType)) := by
  obtain ⟨notValued, notUndefined⟩ := not_or.mp unknown
  have run : machoGetSymAddr mem sym = (Nlist.type mem sym >>= fun type => _) := rfl
  rw [stored.type, ok_bind, if_neg (not_not_intro isLocal.2)] at run
  rw [run]
  refine (if_neg notUndefined).trans ((if_neg notValued).trans ?_)
  by_cases indirect : entry.type &&& nType = nIndr
  · rw [if_pos indirect, if_pos indirect]
    rfl
  · rw [if_neg indirect, if_neg indirect]
    rfl

end

section

variable {env : Env} {slot : Slot} {lib : LibraryInfo} {i : Nat} {entry : NlistEntry}
  (stored : StoredNlist env.mem lib (nlistAt lib (BitVec.ofNat 32 i)) entry)
include stored

theorem StoredNlist.skipped (notLocal : ¬entry.Local) : machoForeachEntry env slot lib i = .ok none := by
  refine bind_ok.mpr ⟨entry.type, stored.type, ?_⟩
  exact if_pos (not_and_or.mp notLocal)

theorem StoredNlist.delivered (isLocal : entry.Local) (known : entry.Known) :
    machoForeachEntry env slot lib i = .ok (some (entrySymbol env slot entry)) := by
  have notIndirect : entry.type &&& nType ≠ nIndr := by
    intro indirect
    simp only [NlistEntry.Known, NlistEntry.Valued, NlistEntry.Undefined, indirect] at known
    exact absurd known (by decide)
  refine bind_ok.mpr ⟨entry.type, stored.type, (if_neg (isLocal.notSkipped)).trans ?_⟩
  refine bind_ok.mpr ⟨(), if_pos (decide_eq_true notIndirect), bind_ok.mpr ⟨_, stored.getAddr isLocal known, ?_⟩⟩
  refine bind_ok.mpr ⟨_, stored.getName, ?_⟩
  exact bind_ok.mpr ⟨_, tryDemangleNoprefix_demangledName env entry.name, rfl⟩

/-- The assertion of the loop that an entry of another type fails. -/
def NlistEntry.foreachAssertion (entry : NlistEntry) : Assertion :=
  if entry.type &&& nType = nIndr then .indirectEntry else .unknownSymbolType

theorem StoredNlist.aborts (isLocal : entry.Local) (unknown : ¬entry.Known) :
    machoForeachEntry env slot lib i = .error (.assertion entry.foreachAssertion) := by
  have run : machoForeachEntry env slot lib i =
      (Nlist.type env.mem (nlistAt lib (BitVec.ofNat 32 i)) >>= fun type => _) := rfl
  rw [stored.type, ok_bind, if_neg (isLocal.notSkipped)] at run
  rw [run, NlistEntry.foreachAssertion]
  by_cases indirect : entry.type &&& nType = nIndr
  · rw [if_pos indirect]
    refine bind_error.mpr (Or.inl (if_neg ?_))
    simp [indirect]
  · rw [if_neg indirect]
    refine bind_error.mpr (Or.inr ⟨(), if_pos (decide_eq_true indirect), bind_error.mpr (Or.inl ?_)⟩)
    have stops := stored.getAddr_unknown isLocal unknown
    rwa [if_neg indirect] at stops

end

/-- The entries that are handed to the callback. -/
def localSymbol (env : Env) (slot : Slot) (entry : NlistEntry) : Option Symbol :=
  if entry.Local then some (entrySymbol env slot entry) else none

theorem filterMap_localSymbol (env : Env) (slot : Slot) (table : List NlistEntry) :
    table.filterMap (localSymbol env slot) = (table.filter fun entry => entry.Local).map (entrySymbol env slot) := by
  induction table with
  | nil => rfl
  | cons entry table ih =>
    by_cases isLocal : entry.Local
    · have shown : localSymbol env slot entry = some (entrySymbol env slot entry) := if_pos isLocal
      rw [List.filterMap_cons_some shown, List.filter_cons_of_pos (by simpa using isLocal), ih, List.map_cons]
    · have hidden : localSymbol env slot entry = none := if_neg isLocal
      rw [List.filterMap_cons_none hidden, List.filter_cons_of_neg (by simpa using isLocal), ih]

section

variable {env : Env} {lib : LibraryInfo} {table : List NlistEntry} (stored : StoredSymtab env.mem lib table)
include stored

theorem StoredSymtab.steps (slot : Slot) {before : List NlistEntry} (isPrefix : before <+: table)
    (known : ∀ entry ∈ before, entry.Local → entry.Known) (k : Nat) (entry : NlistEntry)
    (atEntry : before[k]? = some entry) :
    machoForeachEntry env slot lib (0 + k) = .ok (localSymbol env slot entry) := by
  obtain ⟨bound, here⟩ := List.getElem?_eq_some_iff.mp atEntry
  have atTable := List.prefix_iff_getElem?.mp isPrefix k bound
  rw [here] at atTable
  have inTable := stored.stored k entry atTable
  rw [Nat.zero_add, localSymbol]
  by_cases isLocal : entry.Local
  · rw [if_pos isLocal]
    exact inTable.delivered isLocal (known entry (List.mem_of_getElem? atEntry) isLocal)
  · rw [if_neg isLocal]
    exact inTable.skipped isLocal

/-- A table whose local entries all have a known type is delivered as a whole. -/
theorem StoredSymtab.foreach (slot : Slot) (known : ∀ entry ∈ table, entry.Local → entry.Known) :
    symtabMachoForeach env slot lib = ⟨(table.filter fun entry => entry.Local).map (entrySymbol env slot), none⟩ := by
  rw [symtabMachoForeach, stored.count, Emits.each_table (stored.steps slot List.prefix_rfl known),
    filterMap_localSymbol]

/-- The first local entry of another type ends the program after all earlier callbacks. -/
theorem StoredSymtab.foreach_aborts (slot : Slot) {before after : List NlistEntry} {entry : NlistEntry}
    (split : table = before ++ entry :: after) (known : ∀ entry ∈ before, entry.Local → entry.Known)
    (isLocal : entry.Local) (unknown : ¬entry.Known) :
    symtabMachoForeach env slot lib = ⟨(before.filter fun entry => entry.Local).map (entrySymbol env slot),
      some (.assertion entry.foreachAssertion)⟩ := by
  have isPrefix : before <+: table := ⟨entry :: after, split.symm⟩
  have atEntry : table[before.length]? = some entry := by
    rw [split, List.getElem?_append_right (Nat.le_refl _), Nat.sub_self]
    rfl
  have length : table.length = before.length + (after.length + 1) := by
    rw [split, List.length_append, List.length_cons]
  have stops : machoForeachEntry env slot lib before.length = .error (.assertion entry.foreachAssertion) :=
    (stored.stored _ entry atEntry).aborts isLocal unknown
  rw [symtabMachoForeach, stored.count, length, Emits.each_add,
    Emits.each_table (stored.steps slot isPrefix known), Nat.zero_add, Emits.each_stop stops,
    Emits.append_of_ended rfl, filterMap_localSymbol]
  exact congrArg (Emits.mk · _) (List.append_nil _)

end

def relocAt (lib : LibraryInfo) (k : Nat) : U32 :=
  lib.map + lib.machoExtRelocOff + RelocationInfo.sizeOf * BitVec.ofNat 32 k

/-- The first relocation entry that the lookup of an address accepts refers to the symbol of the given number. -/
def RelocReaches (mem : Mem) (lib : LibraryInfo) (addr : U32) (i : Nat) : Prop :=
  ∃ k < lib.machoExtRelocCount.toNat, (∀ j < k, extRelocMatches mem (relocAt lib j) addr = .ok false) ∧
    extRelocMatches mem (relocAt lib k) addr = .ok true ∧
    ∃ fields, RelocationInfo.fields mem (relocAt lib k) = .ok fields ∧ (RelocationInfo.rSymbolnum fields).toNat = i

/-- The loop over the relocation entries goes on to the first one that it accepts. -/
theorem extRelocLoop_first {env : Env} {slot : Slot} {lib : LibraryInfo} {addr : U32} {n k : Nat} {reloc : U32}
    (bound : k < n)
    (earlier : ∀ j < k, extRelocMatches env.mem (reloc + RelocationInfo.sizeOf * BitVec.ofNat 32 j) addr = .ok false)
    (accepted : extRelocMatches env.mem (reloc + RelocationInfo.sizeOf * BitVec.ofNat 32 k) addr = .ok true) :
    extRelocLoop env slot lib addr n reloc =
      (extRelocSymbol env slot lib (reloc + RelocationInfo.sizeOf * BitVec.ofNat 32 k)).map some := by
  induction k generalizing n reloc with
  | zero =>
    obtain ⟨n, rfl⟩ := Nat.exists_eq_add_one_of_ne_zero (Nat.ne_of_gt bound)
    rw [entry_zero] at accepted ⊢
    exact extRelocLoop_hit accepted n
  | succ k ih =>
    obtain ⟨n, rfl⟩ := Nat.exists_eq_add_one_of_ne_zero (Nat.ne_of_gt (Nat.zero_lt_of_lt bound))
    have first := earlier 0 (Nat.succ_pos k)
    rw [entry_zero] at first
    rw [entry_shift] at accepted ⊢
    have later : ∀ j < k, extRelocMatches env.mem
        (reloc + RelocationInfo.sizeOf + RelocationInfo.sizeOf * BitVec.ofNat 32 j) addr = .ok false := by
      intro j below
      rw [← entry_shift]
      exact earlier (j + 1) (Nat.succ_lt_succ below)
    rw [extRelocLoop_miss first]
    exact ih (Nat.lt_of_succ_lt_succ bound) later accepted

section

variable {env : Env} {lib : LibraryInfo} {table : List NlistEntry} (stored : StoredSymtab env.mem lib table)
include stored

theorem StoredSymtab.byIndex {i : Nat} {entry : NlistEntry} {index : U32} (number : index.toNat = i)
    (atEntry : table[i]? = some entry) : machoGetSymByIndex lib index = .ok (nlistAt lib (BitVec.ofNat 32 i)) := by
  obtain ⟨inTable, _⟩ := List.getElem?_eq_some_iff.mp atEntry
  have counted : index < lib.machoSymtabCount := by
    rw [BitVec.lt_def, stored.count, number]
    exact inTable
  have same : BitVec.ofNat 32 i = index := by rw [← number, BitVec.ofNat_toNat, BitVec.setWidth_eq]
  rw [same]
  exact bind_ok.mpr ⟨(), if_pos (decide_eq_true counted), rfl⟩

/-- A relocation entry leads to the helpers that the enumeration uses, without its filter. -/
theorem StoredSymtab.findReloc (slot : Slot) {addr : U32} {i : Nat} {entry : NlistEntry}
    (reaches : RelocReaches env.mem lib addr i) (atEntry : table[i]? = some entry) :
    symtabMachoFindRelocSymForAddr env slot lib addr =
      (machoGetSymAddr env.mem (nlistAt lib (BitVec.ofNat 32 i))).map fun symAddr =>
        some ⟨slot, symAddr, 0, entry.name, demangledName env entry.name⟩ := by
  obtain ⟨k, bound, earlier, accepted, fields, read, number⟩ := reaches
  have symbol : extRelocSymbol env slot lib (relocAt lib k) =
      (machoGetSymAddr env.mem (nlistAt lib (BitVec.ofNat 32 i))).map fun symAddr =>
        ⟨slot, symAddr, 0, entry.name, demangledName env entry.name⟩ := by
    have run : extRelocSymbol env slot lib (relocAt lib k) = (RelocationInfo.fields env.mem (relocAt lib k) >>=
        fun fields => machoGetSymByIndex lib (RelocationInfo.rSymbolnum fields) >>= fun sym => _) := rfl
    rw [read, ok_bind, stored.byIndex number atEntry, ok_bind] at run
    rw [run]
    cases machoGetSymAddr env.mem (nlistAt lib (BitVec.ofNat 32 i)) with
    | error fault => rfl
    | ok symAddr =>
      refine bind_ok.mpr ⟨symAddr, rfl, bind_ok.mpr ⟨_, (stored.stored i entry atEntry).getName, ?_⟩⟩
      exact bind_ok.mpr ⟨_, tryDemangleNoprefix_demangledName env entry.name, rfl⟩
  have loop : extRelocLoop env slot lib addr lib.machoExtRelocCount.toNat (lib.map + lib.machoExtRelocOff) =
      (extRelocSymbol env slot lib (relocAt lib k)).map some := extRelocLoop_first bound earlier accepted
  rw [symtabMachoFindRelocSymForAddr, loop, symbol]
  cases machoGetSymAddr env.mem (nlistAt lib (BitVec.ofNat 32 i)) with
  | error fault => rfl
  | ok symAddr => rfl

end

/-- A table with a local entry of another type has a first one. -/
theorem firstUnknown {table : List NlistEntry} {entry : NlistEntry} (member : entry ∈ table) (isLocal : entry.Local)
    (unknown : ¬entry.Known) :
    ∃ before first after, table = before ++ first :: after ∧ (∀ entry ∈ before, entry.Local → entry.Known) ∧
      first.Local ∧ ¬first.Known := by
  have occurs : (table.find? fun entry => decide (entry.Local ∧ ¬entry.Known)).isSome := by
    rw [List.find?_isSome]
    exact ⟨entry, member, decide_eq_true ⟨isLocal, unknown⟩⟩
  obtain ⟨first, found⟩ := Option.isSome_iff_exists.mp occurs
  obtain ⟨isFirst, before, after, split, earlier⟩ := List.find?_eq_some_iff_append.mp found
  obtain ⟨firstLocal, firstUnknown⟩ := of_decide_eq_true isFirst
  refine ⟨before, first, after, split, ?_, firstLocal, firstUnknown⟩
  intro other inBefore otherLocal
  by_contra otherUnknown
  have passed := earlier other inBefore
  simp [otherLocal, otherUnknown] at passed

/-- The enumeration calls the callback once for each local entry in the order of the table, with the value as the
address where the type has one; it aborts exactly at the first local entry of another type, after the calls for
all earlier ones. A relocation entry for a local symbol reports the same. -/
theorem symtabMachoForeach_table {env : Env} {lib : LibraryInfo} {table : List NlistEntry}
    (stored : StoredSymtab env.mem lib table) (slot : Slot) :
    ((symtabMachoForeach env slot lib).stop = none ↔ ∀ entry ∈ table, entry.Local → entry.Known) ∧
      ((∀ entry ∈ table, entry.Local → entry.Known) →
        (symtabMachoForeach env slot lib).events =
          (table.filter fun entry => entry.Local).map (entrySymbol env slot)) ∧
      (∀ before entry after, table = before ++ entry :: after → (∀ entry ∈ before, entry.Local → entry.Known) →
        entry.Local → ¬entry.Known →
        symtabMachoForeach env slot lib = ⟨(before.filter fun entry => entry.Local).map (entrySymbol env slot),
          some (.assertion entry.foreachAssertion)⟩) ∧
      ∀ addr i entry, RelocReaches env.mem lib addr i → table[i]? = some entry → entry.Local →
        (entry.Known →
          symtabMachoFindRelocSymForAddr env slot lib addr = .ok (some (entrySymbol env slot entry))) ∧
        (¬entry.Known → ∃ site, symtabMachoFindRelocSymForAddr env slot lib addr = .error (.assertion site)) := by
  refine ⟨⟨?_, ?_⟩, ?_, ?_, ?_⟩
  · intro ended entry member isLocal
    by_contra unknown
    obtain ⟨before, first, after, split, known, firstLocal, firstUnknown⟩ := firstUnknown member isLocal unknown
    rw [stored.foreach_aborts slot split known firstLocal firstUnknown] at ended
    cases ended
  · intro known
    rw [stored.foreach slot known]
  · intro known
    rw [stored.foreach slot known]
  · intro before entry after split known isLocal unknown
    exact stored.foreach_aborts slot split known isLocal unknown
  · intro addr i entry reaches atEntry isLocal
    have inTable := stored.stored i entry atEntry
    refine ⟨?_, ?_⟩
    · intro known
      rw [stored.findReloc slot reaches atEntry, inTable.getAddr isLocal known]
      rfl
    · intro unknown
      rw [stored.findReloc slot reaches atEntry, inTable.getAddr_unknown isLocal unknown]
      exact ⟨_, rfl⟩

/-- A file of a relocation entry, a symbol table and a string table. -/
def mixedHost : Env :=
  plainHost 0x1000 (wordBytes ([0x2000, 0x0c000000] ++ [1, 0x0e, 0x2000] ++ [1, 0x0f, 0x2000] ++ [1, 0x24, 5] ++
    [0, 0x00, 7] ++ [1, 0x0a, 9]) ++ [0, 0x5f, 0x5f, 0x5a, 0]) fun _ => .classTypeInfo

def mixedLib : LibraryInfo :=
  { isMacho := true, map := 0x1000, machoSymtabOff := 8, machoSymtabCount := 5, machoStrtabOff := 68,
    machoExtRelocCount := 1 }

/-- A defined, an external, a debugging, an undefined and an indirect entry. -/
def mixedTable : List NlistEntry :=
  [⟨1, 0x0e, 0x2000, "__Z".toList⟩, ⟨1, 0x0f, 0x2000, "__Z".toList⟩, ⟨1, 0x24, 5, "__Z".toList⟩, ⟨0, 0x00, 7, []⟩,
    ⟨1, 0x0a, 9, "__Z".toList⟩]

theorem mixedStored : StoredSymtab mixedHost.mem mixedLib mixedTable := by
  have entries : ∀ i < mixedTable.length, (mixedTable[i]?).all fun entry =>
      decide (Nlist.strx mixedHost.mem (nlistAt mixedLib (BitVec.ofNat 32 i)) = .ok entry.strx ∧
        Nlist.type mixedHost.mem (nlistAt mixedLib (BitVec.ofNat 32 i)) = .ok entry.type ∧
        Nlist.value mixedHost.mem (nlistAt mixedLib (BitVec.ofNat 32 i)) = .ok entry.value ∧
        (entry.strx ≠ 0 → readCStr mixedHost.mem (mixedLib.map + mixedLib.machoStrtabOff + entry.strx) =
          .ok entry.string)) := by decide +kernel
  refine ⟨by decide, by decide, ?_⟩
  intro i entry atEntry
  obtain ⟨bound, _⟩ := List.getElem?_eq_some_iff.mp atEntry
  have checked := entries i bound
  rw [atEntry] at checked
  obtain ⟨strx, type, value, string⟩ := of_decide_eq_true checked
  exact ⟨strx, type, value, string⟩

/-- The defined and the undefined entry are delivered before the indirect one ends the program. -/
theorem mixed_foreach : symtabMachoForeach mixedHost 0 mixedLib =
      ⟨[⟨0, 0x2000, 0, "_Z".toList, "_Z".toList⟩, ⟨0, 0, 0, [], []⟩], some (.assertion .indirectEntry)⟩ ∧
    symtabMachoFindRelocSymForAddr mixedHost 0 mixedLib 0x2000 =
      .ok (some ⟨0, 0x2000, 0, "_Z".toList, "_Z".toList⟩) := by
  obtain ⟨_, _, aborts, relocated⟩ := symtabMachoForeach_table mixedStored 0
  refine ⟨?_, ?_⟩
  · exact aborts (mixedTable.take 4) _ [] rfl (by decide) (by decide) (by decide)
  · have reaches : RelocReaches mixedHost.mem mixedLib 0x2000 0 :=
      ⟨0, by decide, nofun, by decide +kernel, _, rfl, by decide⟩
    exact (relocated 0x2000 0 _ reaches rfl (by decide)).1 (by decide)

end Classgraph
