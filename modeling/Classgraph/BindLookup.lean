import Classgraph.BindStream
import Classgraph.Relocations

namespace Classgraph
open Run Machine

/-- The indices of the records that the loop over the bind information reads: up to the first match. -/
def bindInfoReads (lib : LibraryInfo) (addr : U32) : Nat → Nat → List Nat
  | 0, _ => []
  | n + 1, i =>
    i ::
      match lib.machoDbi[i]? with
      | none => []
      | some info => if info.address = addr.setWidth 64 then [] else bindInfoReads lib addr n (i + 1)

/-- The indices of the records that a lookup reads. -/
def relocReads (env : Env) (slot : Slot) (lib : LibraryInfo) (addr : U32) : List Nat :=
  match extRelocLoop env slot lib addr lib.machoExtRelocCount.toNat (lib.map + lib.machoExtRelocOff) with
  | .ok none => if lib.machoHasDyldInfo then bindInfoReads lib addr lib.machoNdbi 0 else []
  | _ => []

/-- A record that may be read: `allocate` returned a block and the record lies in it, it was stored, and it names a
symbol if it is the one looked for. -/
structure RecordSafe (malloc : Malloc) (lib : LibraryInfo) (addr : U32) (i : Nat) : Prop where
  block : malloc (lib.machoNdbi * sizeofDyldBindInfo % 2 ^ 32)
  inBlock : (i + 1) * sizeofDyldBindInfo ≤ lib.machoNdbi * sizeofDyldBindInfo % 2 ^ 32
  stored : ∃ info, lib.machoDbi[i]? = some info ∧ (info.address = addr.setWidth 64 → info.symbolname ≠ 0)

/-- No external relocation entry is one for the address. -/
def NoReloc (mem : Mem) (lib : LibraryInfo) (addr : U32) : Prop :=
  ∀ i < lib.machoExtRelocCount.toNat,
    extRelocMatches mem (lib.map + lib.machoExtRelocOff + RelocationInfo.sizeOf * BitVec.ofNat 32 i) addr = .ok false

/-- The condition on the records of a stream: there is a block for them, and no record without a symbol is the first
one of an address that has no relocation entry. -/
structure StreamSafe (env : Env) (lib : LibraryInfo) (records : List DyldBindInfo) : Prop where
  block : BlockFits env.malloc records.length
  named : ∀ addr, NoReloc env.mem lib addr →
    ∀ info, records.find? (fun other => other.address = addr.setWidth 64) = some info → info.symbolname ≠ 0

/-- The library entry with what was decoded. -/
def boundLib (lib : LibraryInfo) : Option (List DyldBindInfo × Nat) → LibraryInfo
  | none => lib
  | some (dbi, ndbi) => { lib with machoDbi := dbi, machoNdbi := ndbi }

section

variable {env : Env} {slot : Slot}

/-- The loop learns nothing of the records but what it is said to read. -/
theorem bindInfoLoop_congr {lib other : LibraryInfo} {addr : U32} {n i : Nat}
    (same : ∀ k ∈ bindInfoReads lib addr n i, other.machoDbi[k]? = lib.machoDbi[k]?) :
    bindInfoLoop env slot other addr n i = bindInfoLoop env slot lib addr n i := by
  induction n generalizing i with
  | zero => rfl
  | succ n ih =>
    rw [bindInfoReads] at same
    rw [bindInfoLoop, bindInfoLoop, same i (List.mem_cons_self ..)]
    split
    · rfl
    · rename_i info here
      split
      · rfl
      · rename_i notFound
        simp only [here, if_neg notFound] at same
        exact ih fun k member => same k (List.mem_cons_of_mem _ member)

/-- So does the whole lookup. -/
theorem symtabMachoFindRelocSymForAddr_congr {lib : LibraryInfo} {addr : U32} {dbi : List DyldBindInfo}
    (same : ∀ i ∈ relocReads env slot lib addr, dbi[i]? = lib.machoDbi[i]?) :
    symtabMachoFindRelocSymForAddr env slot { lib with machoDbi := dbi } addr =
      symtabMachoFindRelocSymForAddr env slot lib addr := by
  have frame : extRelocLoop env slot { lib with machoDbi := dbi } addr lib.machoExtRelocCount.toNat
      (lib.map + lib.machoExtRelocOff) =
        extRelocLoop env slot lib addr lib.machoExtRelocCount.toNat (lib.map + lib.machoExtRelocOff) :=
    extRelocLoop_frame lib lib.machoVmranges dbi lib.machoNdbi addr _ _
  rw [symtabMachoFindRelocSymForAddr, symtabMachoFindRelocSymForAddr, frame]
  rw [relocReads] at same
  cases run : extRelocLoop env slot lib addr lib.machoExtRelocCount.toNat (lib.map + lib.machoExtRelocOff) with
  | error fault => rfl
  | ok found =>
    cases found with
    | some entry => rfl
    | none =>
      simp only [run] at same
      simp only [bind, Except.bind]
      by_cases hasInfo : lib.machoHasDyldInfo
      · rw [if_pos hasInfo] at same
        rw [if_pos hasInfo, if_pos hasInfo]
        exact bindInfoLoop_congr same
      · rw [if_neg hasInfo, if_neg hasInfo]

theorem extRelocLoop_none {lib : LibraryInfo} {addr : U32} {n : Nat} {reloc : U32} :
    extRelocLoop env slot lib addr n reloc = .ok none ↔
      ∀ i < n, extRelocMatches env.mem (reloc + RelocationInfo.sizeOf * BitVec.ofNat 32 i) addr = .ok false := by
  induction n generalizing reloc with
  | zero => exact iff_of_true rfl nofun
  | succ n ih =>
    rw [Nat.forall_lt_succ_left]
    simp only [entry_zero, entry_shift]
    rw [← ih]
    constructor
    · intro run
      obtain ⟨isMatch, matched, rest⟩ := bind_ok.mp run
      cases isMatch with
      | true =>
        obtain ⟨_, _, found⟩ := bind_ok.mp rest
        cases found
      | false => exact ⟨matched, rest⟩
    · intro both
      rw [extRelocLoop_miss both.1]
      exact both.2

theorem bindInfoReads_lt {lib : LibraryInfo} {addr : U32} {n i k : Nat} (read : k ∈ bindInfoReads lib addr n i) :
    k < i + n := by
  induction n generalizing i with
  | zero => cases read
  | succ n ih =>
    rw [bindInfoReads, List.mem_cons] at read
    rcases read with rfl | read
    · omega
    · split at read
      · cases read
      · split at read
        · cases read
        · have later := ih read
          omega

/-- What is read names a symbol where it is looked for, exactly if the first match does. -/
theorem bindInfoReads_named {lib : LibraryInfo} {addr : U32} {before rest : List DyldBindInfo}
    (table : lib.machoDbi = before ++ rest) :
    (∀ i ∈ bindInfoReads lib addr rest.length before.length,
        ∃ info, lib.machoDbi[i]? = some info ∧ (info.address = addr.setWidth 64 → info.symbolname ≠ 0)) ↔
      ∀ info, rest.find? (fun other => other.address = addr.setWidth 64) = some info → info.symbolname ≠ 0 := by
  induction rest generalizing before with
  | nil => simp [bindInfoReads]
  | cons first rest ih =>
    have here : lib.machoDbi[before.length]? = some first := by simp [table]
    rw [List.length_cons, bindInfoReads, List.forall_mem_cons, here, List.find?_cons]
    by_cases found : first.address = addr.setWidth 64
    · simp [found]
    · have moved : lib.machoDbi = (before ++ [first]) ++ rest := by
        rw [table, List.append_assoc, List.singleton_append]
      have later := ih moved
      rw [List.length_append, List.length_singleton] at later
      rw [decide_eq_false found]
      simp only [if_neg found]
      constructor
      · intro read
        exact later.mp read.2
      · intro named
        exact ⟨⟨first, rfl, fun same => absurd same found⟩, later.mpr named⟩

theorem machoBind_eq {malloc : Malloc} {mem : Mem} {st : MachoParse} (hasInfo : st.lib.machoHasDyldInfo) :
    machoBind malloc mem st = (getDyldBindInfo malloc mem (st.lib.map + st.lib.machoBindOff)
      (st.lib.map + st.lib.machoBindOff + st.lib.machoBindSize) st.segs).map (boundLib st.lib) := by
  rw [machoBind, if_pos hasInfo]
  simp only [bind, Except.bind]
  cases getDyldBindInfo malloc mem (st.lib.map + st.lib.machoBindOff)
      (st.lib.map + st.lib.machoBindOff + st.lib.machoBindSize) st.segs with
  | error fault => rfl
  | ok info =>
    cases info with
    | none => rfl
    | some info => rfl

theorem relocReads_bound {lib : LibraryInfo} (hasInfo : lib.machoHasDyldInfo) (records : List DyldBindInfo) {addr : U32}
    {i : Nat} : i ∈ relocReads env slot (boundLib lib (some (records, records.length))) addr ↔
      NoReloc env.mem lib addr ∧
        i ∈ bindInfoReads (boundLib lib (some (records, records.length))) addr records.length 0 := by
  have reads : relocReads env slot (boundLib lib (some (records, records.length))) addr =
      match extRelocLoop env slot lib addr lib.machoExtRelocCount.toNat (lib.map + lib.machoExtRelocOff) with
      | .ok none => bindInfoReads (boundLib lib (some (records, records.length))) addr records.length 0
      | _ => [] := by
    have hasInfo' : (boundLib lib (some (records, records.length))).machoHasDyldInfo := hasInfo
    have frame : extRelocLoop env slot (boundLib lib (some (records, records.length))) addr
        lib.machoExtRelocCount.toNat (lib.map + lib.machoExtRelocOff) =
          extRelocLoop env slot lib addr lib.machoExtRelocCount.toNat (lib.map + lib.machoExtRelocOff) :=
      extRelocLoop_frame lib lib.machoVmranges records records.length addr _ _
    rw [← frame, relocReads, if_pos hasInfo']
    rfl
  rw [reads]
  split
  · rename_i notFound
    have noReloc : NoReloc env.mem lib addr := extRelocLoop_none.mp notFound
    exact (and_iff_right noReloc).symm
  · rename_i other
    exact iff_of_false List.not_mem_nil fun both => other (extRelocLoop_none.mpr both.1)

/-- The lookup depends on the records that are said to be read only. They are safe for every address exactly if there
is a block for all records of the stream, and the records that lookups stop at have a symbol. -/
theorem bindLookup_safe_iff {st : MachoParse} (hasInfo : st.lib.machoHasDyldInfo) (fresh : st.lib.machoNdbi = 0)
    (inFile : BindInFile env.mem st.segs (st.lib.map + st.lib.machoBindOff)
      (st.lib.map + st.lib.machoBindOff + st.lib.machoBindSize)) :
    (∀ lib addr dbi, (∀ i ∈ relocReads env slot lib addr, dbi[i]? = lib.machoDbi[i]?) →
        symtabMachoFindRelocSymForAddr env slot { lib with machoDbi := dbi } addr =
          symtabMachoFindRelocSymForAddr env slot lib addr) ∧
      ((∃ result, machoBind env.malloc env.mem st = .ok result ∧
          ∀ addr, ∀ i ∈ relocReads env slot result addr, RecordSafe env.malloc result addr i) ↔
        ∀ ops, bindOps env.mem st.segs (st.lib.map + st.lib.machoBindOff)
            (st.lib.map + st.lib.machoBindOff + st.lib.machoBindSize) = .ok (some ops) →
          StreamSafe env st.lib (opsRecords ops {})) := by
  refine ⟨fun lib addr dbi same => symtabMachoFindRelocSymForAddr_congr same, ?_⟩
  obtain ⟨decoded, run⟩ := inFile.bindOps_returns
  rw [machoBind_eq hasInfo, run]
  cases decoded with
  | none =>
    rw [inFile.getDyldBindInfo_unknown run]
    refine iff_of_true ⟨st.lib, rfl, ?_⟩ fun ops known => nomatch known
    intro addr i read
    rw [relocReads] at read
    split at read
    · rw [if_pos hasInfo, fresh] at read
      cases read
    · cases read
  | some ops =>
    rw [inFile.getDyldBindInfo_known run]
    by_cases fits : BlockFits env.malloc (opsRecords ops {}).length
    · have table : (boundLib st.lib (some (opsRecords ops {}, (opsRecords ops {}).length))).machoDbi =
          [] ++ opsRecords ops {} := rfl
      rw [if_pos fits]
      constructor
      · intro returns
        obtain ⟨result, returned, safe⟩ := returns
        cases returned
        intro ops' known
        cases known
        refine ⟨fits, ?_⟩
        intro addr noReloc
        refine (bindInfoReads_named table).mp ?_
        intro i read
        exact (safe addr i ((relocReads_bound hasInfo _).mpr ⟨noReloc, read⟩)).stored
      · intro safe
        refine ⟨_, rfl, ?_⟩
        intro addr i read
        obtain ⟨noReloc, read⟩ := (relocReads_bound hasInfo _).mp read
        have bound := bindInfoReads_lt read
        rw [Nat.zero_add] at bound
        obtain ⟨small, block⟩ := fits.resolve_left (Nat.ne_zero_of_lt bound)
        have exactSize : (opsRecords ops {}).length * sizeofDyldBindInfo % 2 ^ 32 =
            (opsRecords ops {}).length * sizeofDyldBindInfo := Nat.mod_eq_of_lt small
        refine ⟨?_, ?_, (bindInfoReads_named table).mpr ((safe ops rfl).named addr noReloc) i read⟩
        · exact (congrArg (fun size => env.malloc size = true) exactSize).mpr block
        · exact (Nat.mul_le_mul_right sizeofDyldBindInfo bound).trans exactSize.ge
    · rw [if_neg fits]
      refine iff_of_false ?_ fun safe => fits (safe ops rfl).block
      intro returns
      obtain ⟨result, returned, _⟩ := returns
      cases returned

end

/-- A host whose memory holds a stream and a final NUL. -/
def streamHost (stream : List U8) : Env := plainHost 0x1000 (stream ++ [0]) fun _ => .classTypeInfo

def streamParse (stream : List U8) : MachoParse where
  lib := { isMacho := true, map := 0x1000, machoHasDyldInfo := true, machoBindSize := BitVec.ofNat 32 stream.length }
  segs := []

theorem streamInFile (stream : List U8) (short : stream.length < 0x1000)
    (strings : ∀ i < stream.length + 1, ((streamHost stream).mem.cstr (0x1000 + BitVec.ofNat 32 i)).any
      fun str => str.length < 0x1000) :
    BindInFile (streamHost stream).mem [] 0x1000 (0x1000 + BitVec.ofNat 32 stream.length) := by
  refine ⟨by bv_omega, ?_, ?_, nofun⟩
  · intro p after before
    have notNull : ¬p = 0 := by bv_omega
    have inside : (p - 0x1000).toNat < (stream ++ [0]).length := by
      rw [List.length_append, List.length_singleton]
      bv_omega
    exact ⟨_, (if_neg notNull).trans (List.getElem?_eq_getElem inside)⟩
  · intro p after before
    have place : p = 0x1000 + BitVec.ofNat 32 (p - 0x1000).toNat := by
      rw [BitVec.ofNat_toNat]
      bv_omega
    have found := strings (p - 0x1000).toNat (by bv_omega)
    rw [← place] at found
    obtain ⟨str, read, length⟩ := (Option.any_eq_true _ _).mp found
    exact ⟨str, read, by have := of_decide_eq_true length; bv_omega⟩

/-- A bind opcode before any symbol: the lookup of its address reads the name at the null pointer. -/
theorem unnamed_dereferenced :
    BindInFile (streamHost [0x70, 0x10, 0x90, 0x00]).mem [] 0x1000 0x1004 ∧
      ∃ result, machoBind (streamHost [0x70, 0x10, 0x90, 0x00]).malloc (streamHost [0x70, 0x10, 0x90, 0x00]).mem
          (streamParse [0x70, 0x10, 0x90, 0x00]) = .ok result ∧
        0 ∈ relocReads (streamHost [0x70, 0x10, 0x90, 0x00]) 0 result 0x10 ∧
        ¬RecordSafe (streamHost [0x70, 0x10, 0x90, 0x00]).malloc result 0x10 0 ∧
        symtabMachoFindRelocSymForAddr (streamHost [0x70, 0x10, 0x90, 0x00]) 0 result 0x10 = .error (.segv 0) := by
  refine ⟨streamInFile [0x70, 0x10, 0x90, 0x00] (by decide) (by decide +kernel), ?_⟩
  refine ⟨boundLib (streamParse [0x70, 0x10, 0x90, 0x00]).lib (some ([⟨0x10, 0, 0⟩], 1)), by rfl, by decide, ?_,
    by decide⟩
  intro safe
  obtain ⟨info, stored, named⟩ := safe.stored
  cases stored
  exact named rfl rfl

theorem named_safe : ∃ result,
    machoBind (streamHost [0x40, 0x5f, 0x78, 0x00, 0x90, 0x00]).malloc
        (streamHost [0x40, 0x5f, 0x78, 0x00, 0x90, 0x00]).mem
        (streamParse [0x40, 0x5f, 0x78, 0x00, 0x90, 0x00]) = .ok result ∧
      ∀ addr, ∀ i ∈ relocReads (streamHost [0x40, 0x5f, 0x78, 0x00, 0x90, 0x00]) 0 result addr,
        RecordSafe (streamHost [0x40, 0x5f, 0x78, 0x00, 0x90, 0x00]).malloc result addr i := by
  have inFile := streamInFile [0x40, 0x5f, 0x78, 0x00, 0x90, 0x00] (by decide) (by decide +kernel)
  have stream : bindOps (streamHost [0x40, 0x5f, 0x78, 0x00, 0x90, 0x00]).mem [] 0x1000 0x1006 =
      .ok (some [.setSymbol 0x1001 false, .bind 1 4, .done]) := by decide +kernel
  refine (bindLookup_safe_iff rfl rfl inFile).2.mpr ?_
  intro ops known
  cases stream.symm.trans known
  refine ⟨by decide, ?_⟩
  intro addr _ info found
  have only : info ∈ [⟨0, 0, 0x1001⟩] := List.mem_of_find?_eq_some found
  rw [List.mem_singleton.mp only]
  exact of_decide_eq_true rfl

end Classgraph
