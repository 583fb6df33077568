import Classgraph.Translation

namespace Classgraph
open Run Machine

/-- An entry of the architecture table of a universal binary. -/
structure FatRecord where
  cputype : U32
  cpusubtype : U32
  offset : U32
  size : U32
  deriving DecidableEq

def FatRecord.isI386 (record : FatRecord) : Bool :=
  record.cputype = cpuTypeI386 ∧ record.cpusubtype = cpuSubtypeI386All

/-- The fields of a record at `arch`, in big-endian order. -/
structure FatRecord.StoredAt (mem : Mem) (arch : U32) (record : FatRecord) : Prop where
  cputype : FatArch.cputype mem arch = .ok (swap32 record.cputype)
  cpusubtype : FatArch.cpusubtype mem arch = .ok (swap32 record.cpusubtype)
  offset : FatArch.offset mem arch = .ok (swap32 record.offset)
  size : FatArch.size mem arch = .ok (swap32 record.size)

/-- The address of record `i`. -/
def fatArchAt (map : U32) (i : Nat) : U32 := map + FatHeader.sizeOf + FatArch.sizeOf * BitVec.ofNat 32 i

/-- A universal file at `map` whose header counts `n` records. The file holds the given ones, which are
all of them unless the i386 slice is already among those given. -/
structure FatTable (mem : Mem) (map n : U32) (records : List FatRecord) : Prop where
  magic : MachHeader.magic mem map = .ok (swap32 fatMagic)
  count : FatHeader.nfatArch mem map = .ok (swap32 n)
  stored : ∀ (i : Nat) (record : FatRecord), records[i]? = some record → record.StoredAt mem (fatArchAt map i)
  mapped : map.toNat + 8 + 20 * records.length ≤ 2 ^ 32
  within : records.length ≤ n.toNat
  complete : records.length = n.toNat ∨ ∃ record ∈ records, record.isI386

/-- The slice of the first i386 record. -/
def selectSlice (lib : LibraryInfo) (records : List FatRecord) : Except Fault LibraryInfo :=
  match records.find? FatRecord.isI386 with
  | some record =>
    .ok { lib with map := lib.map + record.offset, machoHdr := lib.map + record.offset, size := record.size }
  | none => .error (.assertion .foundI386)

/-- The count in the wrong byte order reaches an i386 record, or there is none and it does not go
beyond the table. -/
def SearchCovers (n : U32) (records : List FatRecord) : Prop :=
  (∃ record ∈ records.take (swap32 n).toNat, record.isI386) ∨
    (∀ record ∈ records, ¬record.isI386) ∧ (swap32 n).toNat ≤ n.toNat

theorem fatArchAt_succ (map : U32) (i : Nat) : fatArchAt map (i + 1) = fatArchAt map i + FatArch.sizeOf :=
  entry_succ _ _ i

theorem fatArchAt_toNat (map : U32) (i : Nat) : (fatArchAt map i).toNat = (map.toNat + 8 + 20 * i) % 2 ^ 32 := by
  have header : FatHeader.sizeOf.toNat = 8 := rfl
  have record : FatArch.sizeOf.toNat = 20 := rfl
  simp only [fatArchAt, BitVec.toNat_add, BitVec.toNat_mul, BitVec.toNat_ofNat, header, record]
  omega

theorem swap32_eq {x y : U32} : swap32 (swap32 x) = y ↔ x = y := by rw [swap32_swap32]

theorem fatArchMatches_stored {mem : Mem} {arch : U32} {record : FatRecord} (stored : record.StoredAt mem arch) :
    fatArchMatches mem arch = .ok record.isI386 := by
  rw [fatArchMatches, stored.cputype]
  by_cases cputype : record.cputype = cpuTypeI386
  · have same : swap32 (swap32 record.cputype) = cpuTypeI386 := swap32_eq.mpr cputype
    refine (if_pos same).trans ?_
    rw [stored.cpusubtype, FatRecord.isI386]
    simp only [cputype, true_and]
    exact congrArg Except.ok (decide_eq_decide.mpr swap32_eq)
  · have other : ¬swap32 (swap32 record.cputype) = cpuTypeI386 := fun same => cputype (swap32_eq.mp same)
    refine (if_neg other).trans ?_
    simp [FatRecord.isI386, cputype]
    rfl

/-- The search goes past records that do not match. -/
theorem fatArchLoop_skip {mem : Mem} {map : U32} {j : Nat}
    (skipped : ∀ i < j, fatArchMatches mem (fatArchAt map i) = .ok false) (m : Nat) :
    fatArchLoop mem (j + m) (map + FatHeader.sizeOf) = fatArchLoop mem m (fatArchAt map j) := by
  induction j generalizing m with
  | zero =>
    have first : fatArchAt map 0 = map + FatHeader.sizeOf := by simp [fatArchAt]
    rw [first, Nat.zero_add]
  | succ j ih =>
    have before := ih (fun i bound => skipped i (Nat.lt_succ_of_lt bound)) (m + 1)
    rw [Nat.add_right_comm, Nat.add_assoc, before, fatArchLoop, skipped j (Nat.lt_succ_self j), fatArchAt_succ]
    rfl

/-- What becomes of the result of the search. -/
def sliceFrom (mem : Mem) (lib : LibraryInfo) : Option U32 → Except Fault LibraryInfo
  | none => .error (.assertion .foundI386)
  | some arch => do
    let map := lib.map + swap32 (← FatArch.offset mem arch)
    return { lib with map := map, machoHdr := map, size := swap32 (← FatArch.size mem arch) }

section

variable {mem : Mem} {lib : LibraryInfo} {n : U32} {records : List FatRecord}

theorem FatTable.slice_eq (table : FatTable mem lib.map n records) :
    machoSlice mem lib =
      fatArchLoop mem (swap32 n).toNat (lib.map + FatHeader.sizeOf) >>= sliceFrom mem lib := by
  have isFat : swap32 (swap32 fatMagic) = fatMagic := swap32_swap32 fatMagic
  simp only [machoSlice, table.magic, table.count, isFat, bind, Except.bind, if_true]
  cases fatArchLoop mem (swap32 n).toNat (lib.map + FatHeader.sizeOf) with
  | error fault => rfl
  | ok found =>
    cases found with
    | none => rfl
    | some arch => rfl

theorem FatTable.skip (table : FatTable mem lib.map n records) {j : Nat} (bound : j ≤ records.length)
    (others : ∀ record ∈ records.take j, ¬record.isI386) (m : Nat) :
    fatArchLoop mem (j + m) (lib.map + FatHeader.sizeOf) = fatArchLoop mem m (fatArchAt lib.map j) := by
  refine fatArchLoop_skip ?_ m
  intro i before
  have here : records[i]? = some records[i] := List.getElem?_eq_getElem (by omega)
  have member : records[i] ∈ records.take j := List.mem_take_iff_getElem.mpr ⟨i, by omega, rfl⟩
  rw [fatArchMatches_stored (table.stored i _ here), Bool.eq_false_iff.mpr (others _ member)]

/-- The search stops at the first i386 record where the count in the wrong byte order reaches it. -/
theorem FatTable.found (table : FatTable mem lib.map n records)
    (reached : ∃ record ∈ records.take (swap32 n).toNat, record.isI386) :
    machoSlice mem lib = selectSlice lib records := by
  obtain ⟨record, member, isI386⟩ := reached
  cases found : records.find? FatRecord.isI386 with
  | none => exact absurd isI386 (List.find?_eq_none.mp found record (List.mem_of_mem_take member))
  | some first =>
    obtain ⟨isFirst, before, after, split, others⟩ := List.find?_eq_some_iff_append.mp found
    have early : before.length < (swap32 n).toNat := by
      refine Nat.lt_of_not_le fun late => ?_
      rw [split, List.take_append_of_le_length late] at member
      have other := others record (List.mem_of_mem_take member)
      rw [isI386] at other
      cases other
    have here : records[before.length]? = some first := by simp [split]
    have skipped : ∀ other ∈ records.take before.length, ¬other.isI386 := by
      rw [split, List.take_left]
      intro other inBefore
      simpa using others other inBefore
    have stored := table.stored _ _ here
    have search := table.skip (by simp [split]) skipped ((swap32 n).toNat - before.length - 1 + 1)
    have rounds : before.length + ((swap32 n).toNat - before.length - 1 + 1) = (swap32 n).toNat := by omega
    rw [rounds, fatArchLoop, fatArchMatches_stored stored, isFirst] at search
    rw [table.slice_eq, search, selectSlice, found]
    simp only [sliceFrom, stored.offset, stored.size, swap32_swap32, bind, Except.bind, pure, Except.pure, if_true]

theorem FatTable.notReached (table : FatTable mem lib.map n records) (bound : (swap32 n).toNat ≤ records.length)
    (others : ∀ record ∈ records.take (swap32 n).toNat, ¬record.isI386) :
    machoSlice mem lib = .error (.assertion .foundI386) := by
  have search := table.skip bound others 0
  rw [Nat.add_zero] at search
  rw [table.slice_eq, search]
  rfl

/-- The same file where nothing follows the table. -/
theorem FatTable.alone (table : FatTable mem lib.map n records) :
    FatTable (mem.below (lib.map.toNat + 8 + 20 * records.length)) lib.map n records := by
  have mapped := table.mapped
  have read {p : U32} {value : U32} (inside : p.toNat + 4 ≤ lib.map.toNat + 8 + 20 * records.length)
      (whole : readWord mem p = .ok value) :
      readWord (mem.below (lib.map.toNat + 8 + 20 * records.length)) p = .ok value := by
    rw [← whole, readWord, readWord, Mem.below_word inside mapped]
  refine ⟨read (by omega) table.magic, read (by bv_omega) table.count, ?_, mapped, table.within, table.complete⟩
  intro i record here
  obtain ⟨bound, _⟩ := List.getElem?_eq_some_iff.mp here
  have start := fatArchAt_toNat lib.map i
  have stored := table.stored i record here
  refine ⟨read (by omega) stored.cputype, read ?_ stored.cpusubtype, read ?_ stored.offset, read ?_ stored.size⟩
  · bv_omega
  · bv_omega
  · bv_omega

/-- A search that goes beyond the table depends on what follows it. -/
theorem FatTable.overrun (table : FatTable mem lib.map n records) (others : ∀ record ∈ records, ¬record.isI386)
    (beyond : records.length < (swap32 n).toNat) :
    machoSlice (mem.below (lib.map.toNat + 8 + 20 * records.length)) lib =
      .error (.segv (fatArchAt lib.map records.length)) := by
  have mapped := table.mapped
  have unmapped :
      (mem.below (lib.map.toNat + 8 + 20 * records.length)).byte (fatArchAt lib.map records.length) = none := by
    have start := fatArchAt_toNat lib.map records.length
    by_cases room : lib.map.toNat + 8 + 20 * records.length < 2 ^ 32
    · exact Mem.below_byte (by omega)
    · have wrapped : fatArchAt lib.map records.length = 0 := by
        have zero : (0 : U32).toNat = 0 := rfl
        refine BitVec.eq_of_toNat_eq ?_
        omega
      rw [wrapped, Mem.null]
  have whole : ∀ record ∈ records.take records.length, ¬record.isI386 := by
    rw [List.take_length]
    exact others
  have search := table.alone.skip (Nat.le_refl _) whole ((swap32 n).toNat - records.length - 1 + 1)
  have rounds : records.length + ((swap32 n).toNat - records.length - 1 + 1) = (swap32 n).toNat := by omega
  have faults :
      FatArch.cputype (mem.below (lib.map.toNat + 8 + 20 * records.length)) (fatArchAt lib.map records.length) =
        .error (.segv (fatArchAt lib.map records.length)) := by
    simp [FatArch.cputype, readWord, Mem.word, unmapped]
  rw [rounds, fatArchLoop, fatArchMatches, faults] at search
  rw [table.alone.slice_eq, search]
  rfl

/-- The first i386 record of the table is selected whatever follows the table, exactly if the count in the wrong
byte order still covers the search. -/
theorem machoSlice_universal_iff (table : FatTable mem lib.map n records) :
    (∀ mem', FatTable mem' lib.map n records → machoSlice mem' lib = selectSlice lib records) ↔
      SearchCovers n records := by
  constructor
  · intro selects
    by_cases reached : ∃ record ∈ records.take (swap32 n).toNat, record.isI386
    · exact Or.inl reached
    · have others : ∀ record ∈ records.take (swap32 n).toNat, ¬record.isI386 := by
        intro record member isI386
        exact reached ⟨record, member, isI386⟩
      rcases Nat.lt_or_ge records.length (swap32 n).toNat with beyond | within
      · rw [List.take_of_length_le beyond.le] at others
        have selected := selects _ table.alone
        rw [table.overrun others beyond, selectSlice, List.find?_eq_none.mpr others] at selected
        cases selected
      · have selected := selects mem table
        rw [table.notReached within others, selectSlice] at selected
        split at selected
        · cases selected
        · rename_i none
          exact Or.inr ⟨List.find?_eq_none.mp none, within.trans table.within⟩
  · intro covers mem' table'
    rcases covers with reached | absent
    · exact table'.found reached
    · obtain ⟨others, bound⟩ := absent
      have all : records.length = n.toNat := by
        rcases table.complete with all | present
        · exact all
        · obtain ⟨record, member, isI386⟩ := present
          exact absurd isI386 (others record member)
      rw [table'.notReached (all ▸ bound) fun record member => others record (List.mem_of_mem_take member),
        selectSlice, List.find?_eq_none.mpr others]

end

/-- A universal file that counts one record, with another record behind the table. -/
def twoRecords (first second : U32) : List U32 :=
  [fatMagic, 1] ++ [first, cpuSubtypeI386All, 0x1000, 0x200, 12] ++ [second, cpuSubtypeI386All, 0x2000, 0x200, 12]

def universalMem (first second : U32) : Mem := .ofBytes 0x1000 (wordBytes ((twoRecords first second).map swap32))

def cpuTypePowerpc : U32 := 18

def countedRecord (cputype : U32) : FatRecord := ⟨cputype, cpuSubtypeI386All, 0x1000, 0x200⟩

theorem universalTable {mem : Mem} {cputype : U32} (magic : MachHeader.magic mem 0x1000 = .ok (swap32 fatMagic))
    (count : FatHeader.nfatArch mem 0x1000 = .ok (swap32 1))
    (stored : (countedRecord cputype).StoredAt mem (fatArchAt 0x1000 0)) :
    FatTable mem 0x1000 1 [countedRecord cputype] := by
  refine ⟨magic, count, ?_, ?mapped, Nat.le_refl _, Or.inl rfl⟩
  case mapped =>
    rw [List.length_singleton]
    decide
  intro i record here
  cases i with
  | zero =>
    cases here
    exact stored
  | succ i => cases here

/-- The only architecture is another one, but the record behind the table is found. -/
theorem trailing_selected :
    FatTable (universalMem cpuTypePowerpc cpuTypeI386) 0x1000 1 [countedRecord cpuTypePowerpc] ∧
      selectSlice { map := 0x1000 } [countedRecord cpuTypePowerpc] = .error (.assertion .foundI386) ∧
      ∃ slice, machoSlice (universalMem cpuTypePowerpc cpuTypeI386) { map := 0x1000 } = .ok slice ∧
        slice.map = 0x3000 := by
  have run :
      (machoSlice (universalMem cpuTypePowerpc cpuTypeI386) { map := 0x1000 }).map LibraryInfo.map = .ok 0x3000 := by
    decide +kernel
  refine ⟨universalTable (by decide +kernel) (by decide +kernel) ?_, rfl, ?_⟩
  · exact ⟨by decide +kernel, by decide +kernel, by decide +kernel, by decide +kernel⟩
  · cases sliced : machoSlice (universalMem cpuTypePowerpc cpuTypeI386) { map := 0x1000 } with
    | error fault =>
      rw [sliced] at run
      cases run
    | ok slice =>
      rw [sliced] at run
      exact ⟨slice, rfl, Except.ok.inj run⟩

theorem counted_selected : machoSlice (universalMem cpuTypeI386 cpuTypePowerpc) { map := 0x1000 } =
    .ok { map := 0x2000, machoHdr := 0x2000, size := 0x200 } := by
  have table : FatTable (universalMem cpuTypeI386 cpuTypePowerpc) ({ map := 0x1000 } : LibraryInfo).map 1
      [countedRecord cpuTypeI386] :=
    universalTable (by decide +kernel) (by decide +kernel)
      ⟨by decide +kernel, by decide +kernel, by decide +kernel, by decide +kernel⟩
  have covers : SearchCovers 1 [countedRecord cpuTypeI386] :=
    Or.inl ⟨countedRecord cpuTypeI386, by decide +kernel, by decide⟩
  exact (machoSlice_universal_iff table).mpr covers _ table

end Classgraph
