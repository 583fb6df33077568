import Classgraph.BindOperands
import Classgraph.BindLookup

namespace Classgraph
open Run Machine

/-- What an opcode of the bind information is followed by. -/
inductive BindBody
  | done
  | setDylibOrdinalImm
  | setDylibOrdinalUleb (ordinal : Uleb)
  | setDylibSpecialImm
  | setSymbolTrailingFlagsImm (name : List U8) (noNul : 0 ∉ name)
  | setTypeImm
  | setAddendSleb (addend : Sleb)
  | setSegmentAndOffsetUleb (offset : Uleb)
  | addAddrUleb (delta : Uleb)
  | doBind
  | doBindAddAddrUleb (delta : Uleb)
  | doBindAddAddrImmScaled
  | doBindUlebTimesSkippingUleb (count skip : Uleb) (countFits : count.number < 2 ^ 32)
      (skipFits : skip.number + 4 < 2 ^ 32)

/-- An instruction of the bind information: the opcode and its immediate value share a byte. -/
structure BindInstr where
  body : BindBody
  immediate : BitVec 4 := 0

def BindBody.opcode : BindBody → BitVec 4
  | .done => 0x0
  | .setDylibOrdinalImm => 0x1
  | .setDylibOrdinalUleb _ => 0x2
  | .setDylibSpecialImm => 0x3
  | .setSymbolTrailingFlagsImm _ _ => 0x4
  | .setTypeImm => 0x5
  | .setAddendSleb _ => 0x6
  | .setSegmentAndOffsetUleb _ => 0x7
  | .addAddrUleb _ => 0x8
  | .doBind => 0x9
  | .doBindAddAddrUleb _ => 0xa
  | .doBindAddAddrImmScaled => 0xb
  | .doBindUlebTimesSkippingUleb .. => 0xc

def BindBody.operands : BindBody → List U8
  | .setDylibOrdinalUleb ordinal => ordinal.bytes
  | .setSymbolTrailingFlagsImm name _ => name ++ [0]
  | .setAddendSleb addend => addend.bytes
  | .setSegmentAndOffsetUleb offset => offset.bytes
  | .addAddrUleb delta => delta.bytes
  | .doBindAddAddrUleb delta => delta.bytes
  | .doBindUlebTimesSkippingUleb count skip _ _ => count.bytes ++ skip.bytes
  | _ => []

def BindInstr.bytes (instr : BindInstr) : List U8 := (instr.body.opcode ++ instr.immediate) :: instr.body.operands

/-- A program as it is stored in the file. -/
def programBytes (program : List BindInstr) : List U8 := program.flatMap BindInstr.bytes

theorem programBytes_cons (instr : BindInstr) (rest : List BindInstr) :
    programBytes (instr :: rest) = instr.bytes ++ programBytes rest := List.flatMap_cons

/-- What dyld is told to do: to store the address of a symbol, and an addend, at an address of the image. -/
structure Fixup where
  address : U64
  addend : U64
  name : Option CStr
  deriving DecidableEq, Repr

/-- The registers of the program: the start of the segment and the offset in it, the symbol and the addend. -/
structure BindPlace where
  segment : U64 := 0
  offset : U64 := 0
  addend : U64 := 0
  name : Option CStr := none

def BindPlace.fixup (place : BindPlace) : Fixup := ⟨place.segment + place.offset, place.addend, place.name⟩

def BindPlace.move (place : BindPlace) (delta : U64) : BindPlace := { place with offset := place.offset + delta }

/-- So many places, each one `stride` behind the one before it. -/
def BindPlace.fixups (stride : U64) (count : Nat) (place : BindPlace) : List Fixup :=
  (List.range count).map fun i => (place.move (stride * BitVec.ofNat 64 i)).fixup

/-- The size of a pointer. -/
def pointerSize : U64 := 4

/-- The fixups of an instruction. -/
def BindInstr.fixups (instr : BindInstr) (place : BindPlace) : List Fixup :=
  match instr.body with
  | .doBind | .doBindAddAddrUleb _ | .doBindAddAddrImmScaled => [place.fixup]
  | .doBindUlebTimesSkippingUleb count skip _ _ =>
    place.fixups (BitVec.ofNat 64 skip.number + pointerSize) count.number
  | _ => []

/-- The registers after an instruction. The segments are given by the addresses they start at. -/
def BindInstr.next (vmaddrs : List U32) (instr : BindInstr) (place : BindPlace) : BindPlace :=
  match instr.body with
  | .setSymbolTrailingFlagsImm name _ => { place with name := some (name.map fun b => Char.ofNat b.toNat) }
  | .setAddendSleb addend => { place with addend := BitVec.ofInt 64 addend.number }
  | .setSegmentAndOffsetUleb offset =>
    { place with segment := (vmaddrs[instr.immediate.toNat]?.getD 0).setWidth 64
                 offset := BitVec.ofNat 64 offset.number }
  | .addAddrUleb delta => place.move (BitVec.ofNat 64 delta.number)
  | .doBind => place.move pointerSize
  | .doBindAddAddrUleb delta => place.move (BitVec.ofNat 64 delta.number + pointerSize)
  | .doBindAddAddrImmScaled => place.move (instr.immediate.setWidth 64 * pointerSize + pointerSize)
  | .doBindUlebTimesSkippingUleb count skip _ _ =>
    place.move ((BitVec.ofNat 64 skip.number + pointerSize) * BitVec.ofNat 64 count.number)
  | _ => place

def BindInstr.isDone (instr : BindInstr) : Bool :=
  match instr.body with
  | .done => true
  | _ => false

/-- The fixups of a program, which ends with its bytes or at the first `BIND_OPCODE_DONE`. -/
def programFixups (vmaddrs : List U32) : List BindInstr → BindPlace → List Fixup
  | [], _ => []
  | instr :: rest, place =>
    if instr.isDone then [] else instr.fixups place ++ programFixups vmaddrs rest (instr.next vmaddrs place)

/-! The decoder's view of the same: a symbol is where its name is stored. -/

def BindCursor.place (mem : Mem) (cursor : BindCursor) : BindPlace :=
  ⟨cursor.segStartAddr, cursor.segOffset, cursor.addend, mem.cstr cursor.symbolName⟩

def DyldBindInfo.fixup (mem : Mem) (info : DyldBindInfo) : Fixup :=
  ⟨info.address, info.addend, mem.cstr info.symbolname⟩

/-- The segments are stored at these places, and start at these addresses. -/
def SegmentsAt (mem : Mem) (segs vmaddrs : List U32) : Prop :=
  List.Forall₂ (fun seg vmaddr => SegmentCommand.vmaddr mem seg = .ok vmaddr) segs vmaddrs

theorem SegmentsAt.startAddress {mem : Mem} {segs vmaddrs : List U32} (stored : SegmentsAt mem segs vmaddrs)
    (segIndex : U8) :
    segStartAddress mem segIndex segs = .ok ((vmaddrs[segIndex.toNat]?.getD 0).setWidth 64) := by
  unfold segStartAddress
  generalize segIndex.toNat = i
  induction stored generalizing i with
  | nil => rfl
  | cons here _ ih =>
    cases i with
    | zero =>
      simp only [List.getElem?_cons_zero, here]
      rfl
    | succ i => exact ih i

/-- The opcode and the immediate value of a byte. -/
theorem opcode_masks (opcode immediate : BitVec 4) :
    ((opcode ++ immediate : U8) &&& bindOpcodeMask).toNat = 16 * opcode.toNat ∧
      (opcode ++ immediate : U8) &&& bindImmediateMask = immediate.setWidth 8 := by
  revert opcode immediate
  decide +kernel

section

variable {mem : Mem}

theorem BindCursor.advanceTimes_eq (stride : U64) (count : Nat) (cursor : BindCursor) :
    cursor.advanceTimes stride count = cursor.advance (stride * BitVec.ofNat 64 count) := by
  induction count generalizing cursor with
  | zero => simp [BindCursor.advanceTimes, BindCursor.advance]
  | succ count ih =>
    have next : stride * BitVec.ofNat 64 (count + 1) = stride + stride * BitVec.ofNat 64 count := by
      rw [BitVec.ofNat_add, BitVec.mul_add, BitVec.add_comm]
      exact congrArg (· + _) (BitVec.mul_one stride)
    rw [BindCursor.advanceTimes, ih, next]
    simp only [BindCursor.advance, BitVec.add_assoc]

theorem BindCursor.records_place (stride : U64) (count : Nat) (cursor : BindCursor) :
    (cursor.records stride count).map (DyldBindInfo.fixup mem) = (cursor.place mem).fixups stride count := by
  induction count generalizing cursor with
  | zero => rfl
  | succ count ih =>
    rw [BindCursor.records, List.map_cons, ih, BindPlace.fixups, BindPlace.fixups, List.range_succ_eq_map,
      List.map_cons, List.map_map]
    refine congrArg₂ List.cons ?_ (List.map_congr_left fun i _ => ?_)
    · simp [BindPlace.fixup, BindPlace.move, BindCursor.place, BindCursor.record, DyldBindInfo.fixup]
    · have next : stride * BitVec.ofNat 64 (i + 1) = stride + stride * BitVec.ofNat 64 i := by
        rw [BitVec.ofNat_add, BitVec.mul_add, BitVec.add_comm]
        exact congrArg (· + _) (BitVec.mul_one stride)
      simp only [Function.comp_apply, Nat.succ_eq_add_one, next, BindPlace.move, BindCursor.place, BindCursor.advance,
        BitVec.add_assoc]

variable {segs vmaddrs : List U32} {stop : U32}

/-- The operation of an instruction whose operands are at `p`. -/
def BindInstr.op (vmaddrs : List U32) (instr : BindInstr) (p : U32) : BindOp :=
  match instr.body with
  | .done => .done
  | .setDylibOrdinalImm => .setDylib ((instr.immediate.setWidth 8).setWidth 32)
  | .setDylibOrdinalUleb ordinal => .setDylib ((BitVec.ofNat 64 ordinal.number).setWidth 32)
  | .setDylibSpecialImm =>
    .setDylib (if instr.immediate.setWidth 8 = 0 then 0
      else (bindOpcodeMask ||| instr.immediate.setWidth 8).signExtend 32)
  | .setSymbolTrailingFlagsImm _ _ => .setSymbol p (instr.immediate.setWidth 8 &&& 0x1 ≠ 0)
  | .setTypeImm => .setType (instr.immediate.setWidth 8)
  | .setAddendSleb addend => .setAddend (BitVec.ofInt 64 addend.number)
  | .setSegmentAndOffsetUleb offset =>
    .setSegment (instr.immediate.setWidth 8) ((vmaddrs[instr.immediate.toNat]?.getD 0).setWidth 64)
      (BitVec.ofNat 64 offset.number)
  | .addAddrUleb delta => .addAddr (BitVec.ofNat 64 delta.number)
  | .doBind => .bind 1 pointerSize
  | .doBindAddAddrUleb delta => .bind 1 (BitVec.ofNat 64 delta.number + pointerSize)
  | .doBindAddAddrImmScaled => .bind 1 (instr.immediate.setWidth 64 * pointerSize + pointerSize)
  | .doBindUlebTimesSkippingUleb count skip _ _ => .bind count.number (BitVec.ofNat 64 skip.number + pointerSize)

theorem BindInstr.op_isDone (instr : BindInstr) (p : U32) : (instr.op vmaddrs p).isDone = instr.isDone := by
  obtain ⟨body, immediate⟩ := instr
  cases body <;> rfl

theorem BindInstr.op_records (instr : BindInstr) (p : U32) (cursor : BindCursor) :
    ((instr.op vmaddrs p).records cursor).map (DyldBindInfo.fixup mem) = instr.fixups (cursor.place mem) := by
  obtain ⟨body, immediate⟩ := instr
  cases body with
  | doBindUlebTimesSkippingUleb count skip countFits skipFits => exact cursor.records_place _ _
  | _ => rfl

/-- The name of a symbol, which is stored behind the opcode, without its NUL. -/
theorem symbolName_read {p : U32} {name : List U8} (noNul : 0 ∉ name) (held : mem.HoldsAt p (name ++ [0]))
    (inside : p.toNat + (name ++ [0]).length ≤ stop.toNat) :
    mem.cstr p = some (name.map fun b => Char.ofNat b.toNat) := by
  have bound := stop.isLt
  rw [List.length_append] at inside
  exact held.cstr noNul (by omega)

theorem BindInstr.op_next (instr : BindInstr) {p : U32} (held : mem.HoldsAt p instr.body.operands)
    (inside : p.toNat + instr.body.operands.length ≤ stop.toNat) (cursor : BindCursor) :
    ((instr.op vmaddrs p).next cursor).place mem = instr.next vmaddrs (cursor.place mem) := by
  obtain ⟨body, immediate⟩ := instr
  cases body with
  | setSymbolTrailingFlagsImm name noNul =>
    have string := symbolName_read noNul held inside
    simp only [BindInstr.op, BindOp.next, BindCursor.place, BindInstr.next, string]
  | doBindUlebTimesSkippingUleb count skip countFits skipFits =>
    rw [BindInstr.op, BindOp.next, BindCursor.advanceTimes_eq]
    rfl
  | _ => rfl

/-- A number of places and the distance between them, in the 32 bits that the loop keeps them in. -/
theorem repeat_operands {count skip : Nat} (countFits : count < 2 ^ 32) (skipFits : skip + 4 < 2 ^ 32) :
    ((BitVec.ofNat 64 count : U64).setWidth 32).toNat = count ∧
      (((BitVec.ofNat 64 skip : U64).setWidth 32 + sizeofPointer).setWidth 64 : U64) =
        BitVec.ofNat 64 skip + pointerSize := by
  have size : sizeofPointer.toNat = 4 := rfl
  have size' : pointerSize.toNat = 4 := rfl
  refine ⟨?_, BitVec.eq_of_toNat_eq ?_⟩
  · rw [BitVec.toNat_setWidth, BitVec.toNat_ofNat]
    omega
  · simp only [BitVec.toNat_setWidth, BitVec.toNat_add, BitVec.toNat_ofNat, size, size']
    omega

theorem scaled_immediate (immediate : BitVec 4) :
    (((immediate.setWidth 8 : U8).setWidth 32 * sizeofPointer + sizeofPointer).setWidth 64 : U64) =
      immediate.setWidth 64 * pointerSize + pointerSize := by
  revert immediate
  decide +kernel

/-- An instruction is decoded as its operation. -/
theorem decodeOp_instr (segments : SegmentsAt mem segs vmaddrs) (instr : BindInstr) {p : U32}
    (held : mem.HoldsAt p instr.body.operands) (inside : p.toNat + instr.body.operands.length ≤ stop.toNat) :
    decodeOp mem segs stop ((instr.body.opcode ++ instr.immediate : U8) &&& bindOpcodeMask)
        ((instr.body.opcode ++ instr.immediate : U8) &&& bindImmediateMask) p =
      .ok (some (p + BitVec.ofNat 32 instr.body.operands.length, instr.op vmaddrs p)) := by
  obtain ⟨body, immediate⟩ := instr
  obtain ⟨code, low⟩ := opcode_masks body.opcode immediate
  have stays : p + BitVec.ofNat 32 0 = p := BitVec.add_zero p
  have index : (immediate.setWidth 8).toNat = immediate.toNat := by
    rw [BitVec.toNat_setWidth]
    exact Nat.mod_eq_of_lt (immediate.isLt.trans (by decide))
  dsimp only at held inside ⊢
  rw [decodeOp, code, low]
  cases body with
  | done => exact congrArg (fun q => Except.ok (some (q, BindOp.done))) stays.symm
  | setDylibOrdinalImm => exact congrArg (fun q => Except.ok (some (q, BindOp.setDylib _))) stays.symm
  | setDylibOrdinalUleb ordinal => exact bind_ok.mpr ⟨_, readUleb128_operand ordinal held inside, rfl⟩
  | setDylibSpecialImm => exact congrArg (fun q => Except.ok (some (q, BindOp.setDylib _))) stays.symm
  | setSymbolTrailingFlagsImm name noNul =>
    have read : readCStr mem p = .ok (name.map fun b => Char.ofNat b.toNat) := by
      rw [readCStr, symbolName_read noNul held inside]
    have behind : p + BitVec.ofNat 32 (name.map fun b => Char.ofNat b.toNat).length + 1 =
        p + BitVec.ofNat 32 (name ++ [0]).length := by
      rw [List.length_append, List.length_map, BitVec.ofNat_add, BitVec.add_assoc]
      rfl
    exact bind_ok.mpr ⟨_, read, congrArg (fun q => Except.ok (some (q, BindOp.setSymbol p _))) behind⟩
  | setTypeImm => exact congrArg (fun q => Except.ok (some (q, BindOp.setType _))) stays.symm
  | setAddendSleb addend => exact bind_ok.mpr ⟨_, readSleb128_operand addend held inside, rfl⟩
  | setSegmentAndOffsetUleb offset =>
    refine bind_ok.mpr ⟨_, segments.startAddress _, bind_ok.mpr ⟨_, readUleb128_operand offset held inside, ?_⟩⟩
    rw [index]
    rfl
  | addAddrUleb delta => exact bind_ok.mpr ⟨_, readUleb128_operand delta held inside, rfl⟩
  | doBind => exact congrArg (fun q => Except.ok (some (q, BindOp.bind 1 pointerSize))) stays.symm
  | doBindAddAddrUleb delta => exact bind_ok.mpr ⟨_, readUleb128_operand delta held inside, rfl⟩
  | doBindAddAddrImmScaled =>
    rw [BindInstr.op, ← scaled_immediate]
    exact congrArg (fun q => Except.ok (some (q, BindOp.bind 1 _))) stays.symm
  | doBindUlebTimesSkippingUleb count skip countFits skipFits =>
    obtain ⟨countHeld, skipHeld⟩ := Mem.HoldsAt.append_iff.mp held
    have length : (count.bytes ++ skip.bytes).length = count.bytes.length + skip.bytes.length := List.length_append
    obtain ⟨countSame, strideSame⟩ := repeat_operands countFits skipFits
    rw [BindBody.operands, length] at inside
    have bound := stop.isLt
    have countRead : readUleb128 mem p stop = _ := readUleb128_operand count countHeld (by omega)
    have skipRead : readUleb128 mem _ stop = _ := readUleb128_operand skip skipHeld (by bv_omega)
    refine bind_ok.mpr ⟨_, countRead, bind_ok.mpr ⟨_, skipRead, ?_⟩⟩
    dsimp only
    rw [countSame, strideSame, BitVec.add_assoc, ← BitVec.ofNat_add, ← length]
    rfl

/-- The operations of a program at `p`. -/
def programOps (vmaddrs : List U32) : List BindInstr → U32 → List BindOp
  | [], _ => []
  | instr :: rest, p =>
    if instr.isDone then [.done]
    else instr.op vmaddrs (p + 1) :: programOps vmaddrs rest (p + BitVec.ofNat 32 instr.bytes.length)

theorem programOps_fixups {program : List BindInstr} {p : U32} (held : mem.HoldsAt p (programBytes program))
    (ends : p.toNat + (programBytes program).length = stop.toNat) (cursor : BindCursor) :
    (opsRecords (programOps vmaddrs program p) cursor).map (DyldBindInfo.fixup mem) =
      programFixups vmaddrs program (cursor.place mem) := by
  induction program generalizing p cursor with
  | nil => rfl
  | cons instr rest ih =>
    rw [programBytes_cons] at held ends
    rw [List.length_append] at ends
    obtain ⟨here, later⟩ := Mem.HoldsAt.append_iff.mp held
    have size : instr.bytes.length = instr.body.operands.length + 1 := rfl
    have bound := stop.isLt
    have inside : (p + 1).toNat + instr.body.operands.length ≤ stop.toNat := by bv_omega
    rw [programOps, programFixups]
    split
    · rfl
    · rw [opsRecords, List.map_append, instr.op_records, ih later (by bv_omega), instr.op_next here.2 inside]

/-- A pass over the bytes of a program. -/
theorem bindLoop_program (segments : SegmentsAt mem segs vmaddrs) {program : List BindInstr} {p : U32}
    (held : mem.HoldsAt p (programBytes program)) (ends : p.toNat + (programBytes program).length = stop.toNat)
    {pass : BindPass} {fuel : Nat} {st : BindState} {cursor : BindCursor} {written : List DyldBindInfo}
    (enough : (programBytes program).length < fuel) (tracks : Tracks pass st cursor written) (running : st.done = false)
    (room : pass.Room written.length) :
    Binds pass (bindLoop mem segs stop pass fuel p st) some (opsNext (programOps vmaddrs program p) cursor)
      (written ++ opsRecords (programOps vmaddrs program p) cursor)
      ((programOps vmaddrs program p).any BindOp.isDone) := by
  induction program generalizing p fuel st cursor written with
  | nil =>
    obtain ⟨fuel, rfl⟩ : ∃ k, fuel = k + 1 := ⟨fuel - 1, by omega⟩
    have noBytes : (programBytes []).length = 0 := rfl
    have leaves : st.done ∨ stop ≤ p := Or.inr (by bv_omega)
    rw [bindLoop, if_pos leaves, programOps, opsRecords, List.append_nil]
    exact .pure some tracks running room
  | cons instr rest ih =>
    rw [programBytes_cons] at held ends enough
    rw [List.length_append] at ends enough
    obtain ⟨here, later⟩ := Mem.HoldsAt.append_iff.mp held
    have size : instr.bytes.length = instr.body.operands.length + 1 := rfl
    have bound := stop.isLt
    obtain ⟨fuel, rfl⟩ : ∃ k, fuel = k + 1 := ⟨fuel - 1, by omega⟩
    have before : ¬stop ≤ p := by bv_omega
    have stays : ¬(st.done ∨ stop ≤ p) := by simp [running, before]
    have behind : p + 1 + BitVec.ofNat 32 instr.body.operands.length = p + BitVec.ofNat 32 instr.bytes.length :=
      next_length p instr.body.operands
    have inside : (p + 1).toNat + instr.body.operands.length ≤ stop.toNat := by bv_omega
    have decoded := decodeOp_instr segments instr here.2 inside
    rw [behind] at decoded
    have step := bindOpcode_binds decoded tracks running room
    have read : readByte mem p = .ok (instr.body.opcode ++ instr.immediate) := by rw [readByte, here.1]
    rw [bindLoop, if_neg stays, read, programOps]
    by_cases isDone : instr.isDone = true
    · have op : instr.op vmaddrs (p + 1) = .done := by
        obtain ⟨body, immediate⟩ := instr
        cases body <;> first | rfl | cases isDone
      rw [op] at step
      rw [if_pos isDone, opsRecords, opsRecords, opsNext, ← List.append_assoc]
      refine step.bind ?_
      intro st' tracks' done' room'
      obtain ⟨fuel, rfl⟩ : ∃ k, fuel = k + 1 := ⟨fuel - 1, by omega⟩
      have leaves : st'.done ∨ stop ≤ p + BitVec.ofNat 32 instr.bytes.length := Or.inl done'
      simp only [bindLoop, if_pos leaves]
      rw [List.append_nil]
      exact .pure some tracks' done' room'
    · have goesOn : (instr.op vmaddrs (p + 1)).isDone = false := by
        rw [instr.op_isDone]
        exact Bool.eq_false_iff.mpr isDone
      rw [goesOn] at step
      rw [if_neg isDone, opsRecords, opsNext, List.any_cons, goesOn, Bool.false_or, ← List.append_assoc]
      refine step.bind ?_
      intro st' tracks' running' room'
      exact ih later (by bv_omega) (by omega) tracks' running' room'

/-- A symbol is either missing or stored in the file. -/
def NameKnown (mem : Mem) (symbolName : U32) : Prop := symbolName = 0 ∨ ∃ name, mem.cstr symbolName = some name

theorem BindCursor.records_symbolname (stride : U64) (count : Nat) (cursor : BindCursor) :
    ∀ info ∈ cursor.records stride count, info.symbolname = cursor.symbolName := by
  induction count generalizing cursor with
  | zero => exact nofun
  | succ count ih => exact List.forall_mem_cons.mpr ⟨rfl, ih (cursor.advance stride)⟩

theorem programOps_named {program : List BindInstr} {p : U32} (held : mem.HoldsAt p (programBytes program))
    (ends : p.toNat + (programBytes program).length = stop.toNat) {cursor : BindCursor}
    (known : NameKnown mem cursor.symbolName) :
    ∀ info ∈ opsRecords (programOps vmaddrs program p) cursor, NameKnown mem info.symbolname := by
  induction program generalizing p cursor with
  | nil => exact nofun
  | cons instr rest ih =>
    rw [programBytes_cons] at held ends
    rw [List.length_append] at ends
    obtain ⟨here, later⟩ := Mem.HoldsAt.append_iff.mp held
    have size : instr.bytes.length = instr.body.operands.length + 1 := rfl
    have bound := stop.isLt
    have inside : (p + 1).toNat + instr.body.operands.length ≤ stop.toNat := by bv_omega
    have records : ∀ info ∈ (instr.op vmaddrs (p + 1)).records cursor, NameKnown mem info.symbolname := by
      intro info member
      unfold BindOp.records at member
      split at member
      · rw [BindCursor.records_symbolname _ _ _ info member]
        exact known
      · cases member
    have next : NameKnown mem ((instr.op vmaddrs (p + 1)).next cursor).symbolName := by
      obtain ⟨body, immediate⟩ := instr
      cases body with
      | setSymbolTrailingFlagsImm name noNul => exact Or.inr ⟨_, symbolName_read noNul here.2 inside⟩
      | doBindUlebTimesSkippingUleb count skip countFits skipFits =>
        rw [BindInstr.op, BindOp.next, BindCursor.advanceTimes_eq]
        exact known
      | _ => exact known
    intro info member
    rw [programOps] at member
    split at member
    · cases member
    · rcases List.mem_append.mp member with first | following
      · exact records info first
      · exact ih later (by bv_omega) next info following

/-- The bind information of a program: a record for each fixup, with the place where its symbol's name is stored. -/
theorem getDyldBindInfo_program {malloc : Malloc} (segments : SegmentsAt mem segs vmaddrs) {program : List BindInstr}
    {start : U32} (held : mem.HoldsAt start (programBytes program))
    (ends : start.toNat + (programBytes program).length = stop.toNat) :
    ∃ records, records.map (DyldBindInfo.fixup mem) = programFixups vmaddrs program {} ∧
      (∀ info ∈ records, NameKnown mem info.symbolname) ∧
      getDyldBindInfo malloc mem start stop segs =
        if BlockFits malloc records.length then .ok (some (records, records.length))
        else .error (.outOfBounds .bindInfo) := by
  let ops := programOps vmaddrs program start
  have passes (pass : BindPass) : Binds pass (bindRun mem segs start stop pass) some (opsNext ops {})
      (opsRecords ops {}) (ops.any BindOp.isDone) := by
    refine bindLoop_program segments held ends ?_ ⟨rfl, rfl, fun _ => rfl⟩ rfl .empty
    bv_omega
  refine ⟨opsRecords ops {}, ?_, programOps_named held ends (Or.inl rfl), getDyldBindInfo_binds passes⟩
  have fixups : (opsRecords ops {}).map (DyldBindInfo.fixup mem) =
      programFixups vmaddrs program (BindCursor.place mem {}) := programOps_fixups held ends {}
  rwa [BindCursor.place, mem.cstr_null] at fixups

end

/-- The symbol that a lookup makes of a fixup. Without a symbol it reads the name at the null pointer. -/
def fixupSymbol (env : Env) (slot : Slot) (fixup : Fixup) : Except Fault Symbol :=
  match fixup.name with
  | none => .error (.segv 0)
  | some name => do
    let name := stripUnderscore name
    return ⟨slot, (fixup.address + fixup.addend).setWidth 32, 0, name, ← tryDemangleNoprefix env name⟩

/-- What a lookup makes of the fixups: it stops at the first one of its address. -/
def fixupLookup (env : Env) (slot : Slot) (fixups : List Fixup) (addr : U32) : Except Fault (Option Symbol) :=
  match fixups.find? fun fixup => fixup.address = addr.setWidth 64 with
  | none => .ok none
  | some fixup => do return some (← fixupSymbol env slot fixup)

section

variable {env : Env} {slot : Slot}

theorem bindInfoSymbol_fixup {info : DyldBindInfo} (known : NameKnown env.mem info.symbolname) :
    bindInfoSymbol env slot info = fixupSymbol env slot (info.fixup env.mem) := by
  rw [bindInfoSymbol, fixupSymbol, DyldBindInfo.fixup, readCStr]
  rcases known with missing | stored
  · rw [missing, env.mem.cstr_null]
    rfl
  · obtain ⟨name, stored⟩ := stored
    rw [stored]
    rfl

theorem bindInfoLoop_fixups {lib : LibraryInfo} {addr : U32} {before rest : List DyldBindInfo}
    (table : lib.machoDbi = before ++ rest) (known : ∀ info ∈ rest, NameKnown env.mem info.symbolname) :
    bindInfoLoop env slot lib addr rest.length before.length =
      fixupLookup env slot (rest.map (DyldBindInfo.fixup env.mem)) addr := by
  induction rest generalizing before with
  | nil => rfl
  | cons first rest ih =>
    obtain ⟨firstKnown, restKnown⟩ := List.forall_mem_cons.mp known
    have here : lib.machoDbi[before.length]? = some first := by simp [table]
    have address : (first.fixup env.mem).address = first.address := rfl
    rw [List.length_cons, bindInfoLoop, here, fixupLookup, List.map_cons, List.find?_cons, address]
    by_cases found : first.address = addr.setWidth 64
    · simp only [if_pos found, decide_eq_true found, bindInfoSymbol_fixup firstKnown]
    · have moved : lib.machoDbi = (before ++ [first]) ++ rest := by
        rw [table, List.append_assoc, List.singleton_append]
      have later := ih moved restKnown
      rw [List.length_append, List.length_singleton] at later
      simp only [if_neg found, decide_eq_false found]
      exact later

/-- The records of a bind program that fits into its range: there is one for each fixup, if there is a block for
them. -/
theorem machoBind_records {st : MachoParse} {vmaddrs : List U32} (hasInfo : st.lib.machoHasDyldInfo)
    (segments : SegmentsAt env.mem st.segs vmaddrs) {program : List BindInstr}
    (held : env.mem.HoldsAt (st.lib.map + st.lib.machoBindOff) (programBytes program))
    (size : st.lib.machoBindSize.toNat = (programBytes program).length)
    (inside : (st.lib.map + st.lib.machoBindOff).toNat + (programBytes program).length < 2 ^ 32) :
    ∃ records, records.map (DyldBindInfo.fixup env.mem) = programFixups vmaddrs program {} ∧
      (∀ info ∈ records, NameKnown env.mem info.symbolname) ∧
      machoBind env.malloc env.mem st =
        if BlockFits env.malloc (programFixups vmaddrs program {}).length then
          .ok (boundLib st.lib (some (records, records.length)))
        else .error (.outOfBounds .bindInfo) := by
  have ends : (st.lib.map + st.lib.machoBindOff).toNat + (programBytes program).length =
      (st.lib.map + st.lib.machoBindOff + st.lib.machoBindSize).toNat := by
    rw [BitVec.toNat_add _ st.lib.machoBindSize, size, Nat.mod_eq_of_lt inside]
  obtain ⟨records, fixups, known, decoded⟩ := getDyldBindInfo_program segments held ends
  have length : records.length = (programFixups vmaddrs program {}).length := by rw [← fixups, List.length_map]
  refine ⟨records, fixups, known, ?_⟩
  rw [machoBind_eq hasInfo, decoded, length]
  split
  · rfl
  · rfl

theorem machoBind_program {st : MachoParse} {vmaddrs : List U32} (hasInfo : st.lib.machoHasDyldInfo)
    (segments : SegmentsAt env.mem st.segs vmaddrs) {program : List BindInstr}
    (held : env.mem.HoldsAt (st.lib.map + st.lib.machoBindOff) (programBytes program))
    (size : st.lib.machoBindSize.toNat = (programBytes program).length)
    (inside : (st.lib.map + st.lib.machoBindOff).toNat + (programBytes program).length < 2 ^ 32)
    (fits : BlockFits env.malloc (programFixups vmaddrs program {}).length) :
    ∃ records, machoBind env.malloc env.mem st = .ok (boundLib st.lib (some (records, records.length))) ∧
      records.map (DyldBindInfo.fixup env.mem) = programFixups vmaddrs program {} ∧
      ∀ info ∈ records, NameKnown env.mem info.symbolname := by
  obtain ⟨records, fixups, known, run⟩ := machoBind_records hasInfo segments held size inside
  exact ⟨records, run.trans (if_pos fits), fixups, known⟩

/-- Where no old relocation entry is found, the lookup goes through the records. -/
theorem findReloc_fixups {lib : LibraryInfo} (hasInfo : lib.machoHasDyldInfo) {records : List DyldBindInfo}
    (known : ∀ info ∈ records, NameKnown env.mem info.symbolname) {addr : U32} (noReloc : NoReloc env.mem lib addr) :
    symtabMachoFindRelocSymForAddr env slot (boundLib lib (some (records, records.length))) addr =
      fixupLookup env slot (records.map (DyldBindInfo.fixup env.mem)) addr := by
  let bound := boundLib lib (some (records, records.length))
  have noOld : extRelocLoop env slot bound addr bound.machoExtRelocCount.toNat (bound.map + bound.machoExtRelocOff) =
      .ok none :=
    (extRelocLoop_frame lib lib.machoVmranges records records.length addr _ _).trans (extRelocLoop_none.mpr noReloc)
  have table : bound.machoDbi = [] ++ records := rfl
  rw [symtabMachoFindRelocSymForAddr, noOld, ← bindInfoLoop_fixups table known]
  exact if_pos hasInfo

end

/-- Two places of a segment, eight bytes apart, get the address of one symbol. -/
def tableProgram : List BindInstr :=
  [⟨.setSymbolTrailingFlagsImm [0x5f, 0x78] (by decide), 0⟩,
    ⟨.setSegmentAndOffsetUleb (.ofNat 1 0x200 (by decide) (by decide) (by decide)), 0⟩,
    ⟨.setAddendSleb (.ofInt 0 (-1) (by decide)), 0⟩,
    ⟨.doBindUlebTimesSkippingUleb (.ofNat 0 2 (by decide) (by decide) (by decide))
      (.ofNat 0 4 (by decide) (by decide) (by decide)) (by decide) (by decide), 0⟩,
    ⟨.done, 0⟩]

/-- The program, and behind it the start address of the only segment. -/
def tableHost : Env := plainHost 0x1000 (programBytes tableProgram ++ wordBytes [0x2000]) fun _ => .classTypeInfo

def tableParse : MachoParse where
  lib := { isMacho := true, map := 0x1000, machoHasDyldInfo := true, machoBindSize := 0xd }
  segs := [0x100d - 24]

end Classgraph
