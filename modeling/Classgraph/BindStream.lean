import Classgraph.VmRanges

namespace Classgraph
open Run Machine

/-- The place and the symbol that the next record gets. -/
structure BindCursor where
  segStartAddr : U64 := 0
  segOffset : U64 := 0
  symbolName : U32 := 0
  addend : U64 := 0

def BindCursor.record (cursor : BindCursor) : DyldBindInfo :=
  ⟨cursor.segStartAddr + cursor.segOffset, cursor.addend, cursor.symbolName⟩

def BindCursor.advance (cursor : BindCursor) (delta : U64) : BindCursor :=
  { cursor with segOffset := cursor.segOffset + delta }

/-- What an opcode does with its operands: it ends the stream, changes the cursor or what else goes into the records,
or binds the place of the cursor and those that follow it at a distance. -/
inductive BindOp
  | done
  | setDylib (libraryOrdinal : U32)
  | setSymbol (symbolName : U32) (weakImport : Bool)
  | setType (type : U8)
  | setAddend (addend : U64)
  | setSegment (segIndex : U8) (segStartAddr segOffset : U64)
  | addAddr (delta : U64)
  | bind (count : Nat) (stride : U64)
  deriving DecidableEq, Repr

/-- The records of `count` places. -/
def BindCursor.records (stride : U64) : Nat → BindCursor → List DyldBindInfo
  | 0, _ => []
  | count + 1, cursor => cursor.record :: BindCursor.records stride count (cursor.advance stride)

def BindCursor.advanceTimes (stride : U64) : Nat → BindCursor → BindCursor
  | 0, cursor => cursor
  | count + 1, cursor => BindCursor.advanceTimes stride count (cursor.advance stride)

def BindOp.records : BindOp → BindCursor → List DyldBindInfo
  | .bind count stride, cursor => cursor.records stride count
  | _, _ => []

def BindOp.next : BindOp → BindCursor → BindCursor
  | .setSymbol symbolName _, cursor => { cursor with symbolName := symbolName }
  | .setAddend addend, cursor => { cursor with addend := addend }
  | .setSegment _ segStartAddr segOffset, cursor => { cursor with segStartAddr := segStartAddr, segOffset := segOffset }
  | .addAddr delta, cursor => cursor.advance delta
  | .bind count stride, cursor => cursor.advanceTimes stride count
  | _, cursor => cursor

/-- The records of a stream of operations. -/
def opsRecords : List BindOp → BindCursor → List DyldBindInfo
  | [], _ => []
  | op :: rest, cursor => op.records cursor ++ opsRecords rest (op.next cursor)

def opsNext : List BindOp → BindCursor → BindCursor
  | [], cursor => cursor
  | op :: rest, cursor => opsNext rest (op.next cursor)

def BindOp.isDone : BindOp → Bool
  | .done => true
  | _ => false

theorem BindOp.eq_done {op : BindOp} (isDone : op.isDone = true) : op = .done := by
  cases op with
  | done => rfl
  | setDylib libraryOrdinal => cases isDone
  | setSymbol symbolName weakImport => cases isDone
  | setType type => cases isDone
  | setAddend addend => cases isDone
  | setSegment segIndex segStartAddr segOffset => cases isDone
  | addAddr delta => cases isDone
  | bind count stride => cases isDone

/-- The operation of an opcode, and where the next opcode is. -/
def decodeOp (mem : Mem) (segs : List U32) (stop : U32) (opcode immediate : U8) (p : U32) :
    Except Fault (Option (U32 × BindOp)) :=
  match opcode.toNat with
  | 0x00 => return some (p, .done)
  | 0x10 => return some (p, .setDylib (immediate.setWidth 32))
  | 0x20 => do
    let (p, libraryOrdinal) ← readUleb128 mem p stop
    return some (p, .setDylib (libraryOrdinal.setWidth 32))
  | 0x30 => return some (p, .setDylib (if immediate = 0 then 0 else (bindOpcodeMask ||| immediate).signExtend 32))
  | 0x40 => do
    let name ← readCStr mem p
    return some (p + BitVec.ofNat 32 name.length + 1, .setSymbol p (immediate &&& 0x1 ≠ 0))
  | 0x50 => return some (p, .setType immediate)
  | 0x60 => do
    let (p, addend) ← readSleb128 mem p stop
    return some (p, .setAddend addend)
  | 0x70 => do
    let segStartAddr ← segStartAddress mem immediate segs
    let (p, segOffset) ← readUleb128 mem p stop
    return some (p, .setSegment immediate segStartAddr segOffset)
  | 0x80 => do
    let (p, delta) ← readUleb128 mem p stop
    return some (p, .addAddr delta)
  | 0x90 => return some (p, .bind 1 (sizeofPointer.setWidth 64))
  | 0xa0 => do
    let (p, delta) ← readUleb128 mem p stop
    return some (p, .bind 1 (delta + sizeofPointer.setWidth 64))
  | 0xb0 => return some (p, .bind 1 ((immediate.setWidth 32 * sizeofPointer + sizeofPointer).setWidth 64))
  | 0xc0 => do
    let (p, count) ← readUleb128 mem p stop
    let (p, skip) ← readUleb128 mem p stop
    return some (p, .bind (count.setWidth 32).toNat ((skip.setWidth 32 + sizeofPointer).setWidth 64))
  | _ => return none

/-- The operations of the bytes from `p` on, or nothing where one of the opcodes is unknown. -/
def decodeOps (mem : Mem) (segs : List U32) (stop : U32) : Nat → U32 → Except Fault (Option (List BindOp))
  | 0, _ => .error .diverges
  | fuel + 1, p => do
    if stop ≤ p then return some []
    let byte ← readByte mem p
    match ← decodeOp mem segs stop (byte &&& bindOpcodeMask) (byte &&& bindImmediateMask) (p + 1) with
    | none => return none
    | some (_, .done) => return some [.done]
    | some (p, op) => return (← decodeOps mem segs stop fuel p).map (op :: ·)

/-- The operations of a whole range of bytes. -/
def bindOps (mem : Mem) (segs : List U32) (start stop : U32) : Except Fault (Option (List BindOp)) :=
  decodeOps mem segs stop ((stop - start).toNat + 1) start

/-- The range lies in one piece of readable memory, and so does every string that starts in it. -/
structure BindInFile (mem : Mem) (segs : List U32) (start stop : U32) : Prop where
  ordered : start ≤ stop
  bytes : ∀ p, start ≤ p → p < stop → ∃ b, mem.byte p = some b
  strings : ∀ p, start ≤ p → p ≤ stop → ∃ str, mem.cstr p = some str ∧ p.toNat + str.length + 1 < 2 ^ 32
  segments : ∀ seg ∈ segs, ∃ vmaddr, SegmentCommand.vmaddr mem seg = .ok vmaddr

section

variable {mem : Mem} {segs : List U32} {start stop : U32} (inFile : BindInFile mem segs start stop)
include inFile

theorem BindInFile.readByte_returns {p : U32} (after : start ≤ p) (before : p < stop) :
    Returns (readByte mem p) fun _ => True := by
  obtain ⟨b, read⟩ := inFile.bytes p after before
  rw [readByte, read]
  trivial

theorem BindInFile.uleb128Loop_returns {n : Nat} {p : U32} {bit : Nat} {result : U64} (after : start ≤ p)
    (before : p ≤ stop) (rounds : bit + 7 * (n + 1) = 77) :
    Returns (uleb128Loop mem stop (n + 1) p bit result) fun pair => p ≤ pair.1 ∧ pair.1 ≤ stop := by
  induction n generalizing p bit result with
  | zero =>
    rw [uleb128Loop]
    split
    · exact ⟨BitVec.le_refl p, before⟩
    · rename_i notEnd
      refine (inFile.readByte_returns after (by bv_omega)).bind ?_
      intro byte _
      have tooBig : 64 ≤ bit ∨ ((byte &&& 0x7f).setWidth 64 <<< bit) >>> bit ≠ (byte &&& 0x7f).setWidth 64 :=
        Or.inl (by omega)
      simp only [if_pos tooBig]
      exact ⟨BitVec.le_refl p, before⟩
  | succ n ih =>
    rw [uleb128Loop]
    split
    · exact ⟨BitVec.le_refl p, before⟩
    · rename_i notEnd
      refine (inFile.readByte_returns after (by bv_omega)).bind ?_
      intro byte _
      dsimp only
      split
      · exact ⟨BitVec.le_refl p, before⟩
      · split
        · refine (ih (by bv_omega) (by bv_omega) (by omega)).imp ?_
          intro pair bounds
          exact ⟨by bv_omega, bounds.2⟩
        · exact ⟨by bv_omega, by bv_omega⟩

theorem BindInFile.readUleb128_returns {p : U32} (after : start ≤ p) (before : p ≤ stop) :
    Returns (readUleb128 mem p stop) fun pair => p ≤ pair.1 ∧ pair.1 ≤ stop :=
  inFile.uleb128Loop_returns after before rfl

theorem BindInFile.sleb128Loop_returns {n : Nat} {p : U32} {bit : Nat} {result : U64} (after : start ≤ p)
    (before : p ≤ stop) (rounds : stop.toNat < p.toNat + n) :
    Returns (sleb128Loop mem stop n p bit result) fun pair => p ≤ pair.1 ∧ pair.1 ≤ stop := by
  induction n generalizing p bit result with
  | zero => bv_omega
  | succ n ih =>
    rw [sleb128Loop]
    split
    · exact ⟨BitVec.le_refl p, before⟩
    · rename_i notEnd
      refine (inFile.readByte_returns after (by bv_omega)).bind ?_
      intro byte _
      dsimp only
      split
      · refine (ih (by bv_omega) (by bv_omega) (by bv_omega)).imp ?_
        intro pair bounds
        exact ⟨by bv_omega, bounds.2⟩
      · split
        · exact ⟨by bv_omega, by bv_omega⟩
        · exact ⟨by bv_omega, by bv_omega⟩

theorem BindInFile.readSleb128_returns {p : U32} (after : start ≤ p) (before : p ≤ stop) :
    Returns (readSleb128 mem p stop) fun pair => p ≤ pair.1 ∧ pair.1 ≤ stop :=
  inFile.sleb128Loop_returns after before (by bv_omega)

theorem BindInFile.segStartAddress_returns (segIndex : U8) :
    Returns (segStartAddress mem segIndex segs) fun _ => True := by
  unfold segStartAddress
  split
  · trivial
  · rename_i seg found
    obtain ⟨vmaddr, read⟩ := inFile.segments seg (List.mem_of_getElem? found)
    rw [read]
    trivial

/-- An opcode never moves back. -/
theorem BindInFile.decodeOp_returns {opcode immediate : U8} {p : U32} (after : start ≤ p) (before : p ≤ stop) :
    Returns (decodeOp mem segs stop opcode immediate p) fun decoded => ∀ q op, decoded = some (q, op) → p ≤ q := by
  have uleb {q : U32} (later : p ≤ q) (bound : q ≤ stop) :
      Returns (readUleb128 mem q stop) fun pair => p ≤ pair.1 ∧ pair.1 ≤ stop := by
    refine (inFile.readUleb128_returns (by bv_omega) bound).imp ?_
    intro pair bounds
    exact ⟨by bv_omega, bounds.2⟩
  have stays {q : U32} {op : BindOp} (later : p ≤ q) :
      Returns (pure (some (q, op)) : Except Fault (Option (U32 × BindOp)))
        fun decoded => ∀ q op, decoded = some (q, op) → p ≤ q := by
    intro other op' same
    cases same
    exact later
  have here := BitVec.le_refl p
  unfold decodeOp
  split
  · exact stays here
  · exact stays here
  · exact (uleb here before).bind fun pair bounds => stays bounds.1
  · exact stays here
  · obtain ⟨str, read, room⟩ := inFile.strings p after before
    rw [readCStr, read]
    exact stays (by bv_omega)
  · exact stays here
  · exact (inFile.readSleb128_returns after before).bind fun pair bounds => stays bounds.1
  · exact (inFile.segStartAddress_returns _).bind fun _ _ => (uleb here before).bind fun pair bounds => stays bounds.1
  · exact (uleb here before).bind fun pair bounds => stays bounds.1
  · exact stays here
  · exact (uleb here before).bind fun pair bounds => stays bounds.1
  · exact stays here
  · exact (uleb here before).bind fun first bounds =>
      (uleb bounds.1 bounds.2).bind fun second later => stays later.1
  · intro q op same
    cases same

/-- Every range in the file can be decoded. -/
theorem BindInFile.decodeOps_returns {fuel : Nat} {p : U32} (after : start ≤ p)
    (enough : stop.toNat - p.toNat < fuel) : Returns (decodeOps mem segs stop fuel p) fun _ => True := by
  induction fuel generalizing p with
  | zero => omega
  | succ fuel ih =>
    rw [decodeOps]
    split
    · trivial
    · rename_i before
      refine (inFile.readByte_returns after (by bv_omega)).bind ?_
      intro byte _
      refine (inFile.decodeOp_returns (by bv_omega) (by bv_omega)).bind ?_
      intro decoded further
      split
      · trivial
      · trivial
      · rename_i q op _
        have later := further q op rfl
        exact (ih (by bv_omega) (by bv_omega)).bind fun _ _ => trivial

end

def BindState.cursor (st : BindState) : BindCursor := ⟨st.segStartAddr, st.segOffset, st.symbolName, st.addend⟩

/-- The block of the second pass has room for so many records. -/
def BindPass.Room : BindPass → Nat → Prop
  | .count, _ => True
  | .store size, records => records * sizeofDyldBindInfo ≤ size

theorem BindPass.Room.mono {pass : BindPass} {few many : Nat} (room : pass.Room many) (less : few ≤ many) :
    pass.Room few := by
  cases pass with
  | count => trivial
  | store size => exact (Nat.mul_le_mul_right sizeofDyldBindInfo less).trans room

theorem BindPass.Room.empty {pass : BindPass} : pass.Room 0 := by
  cases pass with
  | count => trivial
  | store size => exact Nat.zero_le _

/-- The state of a pass after the given records. The first pass has only counted them. -/
structure Tracks (pass : BindPass) (st : BindState) (cursor : BindCursor) (written : List DyldBindInfo) : Prop where
  cursor : st.cursor = cursor
  count : st.n = written.length
  stored : pass ≠ .count → st.dbi = written

/-- A part of a pass that leads to the given records: it returns if the block has room for all of them, and
stores behind its end otherwise. -/
structure Binds {α : Type} (pass : BindPass) (run : Except Fault α) (result : BindState → α) (cursor : BindCursor)
    (written : List DyldBindInfo) (done : Bool) : Prop where
  fits : pass.Room written.length → ∃ st, run = .ok (result st) ∧ Tracks pass st cursor written ∧ st.done = done
  full : ¬pass.Room written.length → run = .error (.outOfBounds .bindInfo)

section

variable {α β : Type} {pass : BindPass} {st : BindState} {cursor cursor' : BindCursor}
  {written more : List DyldBindInfo} {done done' : Bool}

theorem Binds.pure (result : BindState → α) (tracks : Tracks pass st cursor written) (isDone : st.done = done)
    (room : pass.Room written.length) : Binds pass (.ok (result st)) result cursor written done :=
  ⟨fun _ => ⟨st, rfl, tracks, isDone⟩, fun noRoom => absurd room noRoom⟩

/-- The rule for a sequence. -/
theorem Binds.bind {first : Except Fault α} {middle : BindState → α} {second : α → Except Fault β}
    {result : BindState → β} (head : Binds pass first middle cursor written done)
    (tail : ∀ st, Tracks pass st cursor written → st.done = done → pass.Room written.length →
      Binds pass (second (middle st)) result cursor' (written ++ more) done') :
    Binds pass (first >>= second) result cursor' (written ++ more) done' := by
  have less : written.length ≤ (written ++ more).length := by simp
  refine ⟨?_, ?_⟩
  · intro room
    have roomBefore := room.mono less
    obtain ⟨st, run, tracks, isDone⟩ := head.fits roomBefore
    rw [run]
    exact (tail st tracks isDone roomBefore).fits room
  · intro noRoom
    by_cases roomBefore : pass.Room written.length
    · obtain ⟨st, run, tracks, isDone⟩ := head.fits roomBefore
      rw [run]
      exact (tail st tracks isDone roomBefore).full noRoom
    · rw [head.full roomBefore]
      rfl

theorem bindRecord_binds (tracks : Tracks pass st cursor written) :
    Binds pass (bindRecord pass st) id cursor (written ++ [cursor.record]) st.done := by
  have total : st.n + 1 = (written ++ [cursor.record]).length := by
    rw [tracks.count, List.length_append, List.length_singleton]
  cases pass with
  | count =>
    have counted : Tracks .count { st with n := st.n + 1 } cursor (written ++ [cursor.record]) :=
      ⟨tracks.cursor, total, fun second => absurd rfl second⟩
    exact Binds.pure id counted rfl trivial
  | store size =>
    rw [bindRecord, total]
    refine ⟨?_, ?_⟩
    · intro room
      have fits : (written ++ [cursor.record]).length * sizeofDyldBindInfo ≤ size := room
      rw [if_pos fits]
      refine ⟨_, rfl, ⟨tracks.cursor, rfl, ?_⟩, rfl⟩
      intro second
      rw [tracks.stored second, ← tracks.cursor]
      rfl
    · intro noRoom
      have tooMany : ¬(written ++ [cursor.record]).length * sizeofDyldBindInfo ≤ size := noRoom
      exact if_neg tooMany

/-- Moving the cursor. -/
theorem Tracks.advance (tracks : Tracks pass st cursor written) (delta : U64) :
    Tracks pass { st with segOffset := st.segOffset + delta } (cursor.advance delta) written := by
  refine ⟨?_, tracks.count, tracks.stored⟩
  rw [← tracks.cursor]
  rfl

theorem bindRepeat_binds (skip : U32) (count : Nat) (tracks : Tracks pass st cursor written)
    (room : pass.Room written.length) :
    Binds pass (bindRepeat pass skip count st) id (cursor.advanceTimes ((skip + sizeofPointer).setWidth 64) count)
      (written ++ cursor.records ((skip + sizeofPointer).setWidth 64) count) st.done := by
  induction count generalizing st cursor written with
  | zero =>
    rw [BindCursor.records, List.append_nil]
    exact Binds.pure id tracks rfl room
  | succ count ih =>
    rw [BindCursor.records, List.append_cons]
    refine (bindRecord_binds tracks).bind ?_
    intro st' tracks' isDone room'
    rw [← isDone]
    exact ih (tracks'.advance _) room'

variable {mem : Mem} {segs : List U32} {stop : U32} {opcode immediate : U8} {p q : U32}

/-- An opcode does in a pass what its operation says. -/
theorem bindOpcode_binds {op : BindOp} (decoded : decodeOp mem segs stop opcode immediate p = .ok (some (q, op)))
    (tracks : Tracks pass st cursor written) (running : st.done = false) (room : pass.Room written.length) :
    Binds pass (bindOpcode mem segs stop pass opcode immediate p st) (fun st' => some (q, st')) (op.next cursor)
      (written ++ op.records cursor) op.isDone := by
  have known {q : U32} {op : BindOp} {run : Except Fault (Option (U32 × BindState))}
      (binds : Binds pass run (fun st' => some (q, st')) (op.next cursor) (written ++ op.records cursor) op.isDone) :
      ∀ q' op', some (q, op) = some (q', op') →
        Binds pass run (fun st' => some (q', st')) (op'.next cursor) (written ++ op'.records cursor) op'.isDone := by
    intro q' op' same
    cases same
    exact binds
  have keeps (q : U32) {st' : BindState} {cursor' : BindCursor} {done : Bool} (sameCount : st'.n = st.n)
      (sameDbi : st'.dbi = st.dbi) (isCursor : st'.cursor = cursor') (isDone : st'.done = done) :
      Binds pass (.ok (some (q, st'))) (fun st' => some (q, st')) cursor' (written ++ []) done := by
    rw [List.append_nil]
    refine .pure (fun st' => some (q, st')) ⟨isCursor, sameCount.trans tracks.count, ?_⟩ isDone room
    intro second
    exact sameDbi.trans (tracks.stored second)
  have one {q : U32} {run : BindState → Except Fault (Option (U32 × BindState))} {stride : U64}
      (moves : ∀ st', run st' = .ok (some (q, { st' with segOffset := st'.segOffset + stride }))) :
      Binds pass (bindRecord pass st >>= run) (fun st' => some (q, st')) (cursor.advance stride)
        (written ++ [cursor.record]) false := by
    have recorded := bindRecord_binds tracks
    rw [← List.append_nil (written ++ [cursor.record])]
    refine recorded.bind ?_
    intro st' tracks' isDone room'
    rw [id, moves, List.append_nil]
    exact .pure (fun next => some (q, next)) (tracks'.advance stride) (isDone.trans running) room'
  have guides : Guides (fun next run => ∀ q op, next = some (q, op) →
      Binds pass run (fun st' => some (q, st')) (op.next cursor) (written ++ op.records cursor) op.isDone)
      (decodeOp mem segs stop opcode immediate p) (bindOpcode mem segs stop pass opcode immediate p st) := by
    unfold decodeOp
    generalize isCode : opcode.toNat = code
    split
    all_goals rw [bindOpcode, isCode]
    · exact .pure (known (keeps _ rfl rfl tracks.cursor rfl))
    · exact .pure (known (keeps _ rfl rfl tracks.cursor running))
    · exact .same_bind fun _ _ => .pure (known (keeps _ rfl rfl tracks.cursor running))
    · exact .pure (known (keeps _ rfl rfl tracks.cursor running))
    · refine .same_bind fun _ _ => .pure (known (keeps _ rfl rfl ?_ running))
      exact congrArg (BindOp.next (.setSymbol p _)) tracks.cursor
    · exact .pure (known (keeps _ rfl rfl tracks.cursor running))
    · refine .same_bind fun addend _ => .pure (known (keeps _ rfl rfl ?_ running))
      exact congrArg (BindOp.next (.setAddend addend.2)) tracks.cursor
    · refine .same_bind fun segStartAddr _ => .same_bind fun segOffset _ => .pure (known (keeps _ rfl rfl ?_ running))
      exact congrArg (BindOp.next (.setSegment immediate segStartAddr segOffset.2)) tracks.cursor
    · refine .same_bind fun delta _ => .pure (known (keeps _ rfl rfl ?_ running))
      exact congrArg (BindOp.next (.addAddr delta.2)) tracks.cursor
    · exact .pure (known (one fun _ => rfl))
    · -- the pass binds before it reads the operand
      intro next returned
      obtain ⟨⟨q, delta⟩, read, returned⟩ := bind_ok.mp returned
      cases returned
      simp only [read]
      exact known (one fun _ => rfl)
    · exact .pure (known (one fun _ => rfl))
    · refine .same_bind fun count _ => .same_bind fun skip _ => .pure (known ?_)
      have repeated := bindRepeat_binds (skip.2.setWidth 32) (count.2.setWidth 32).toNat tracks room
      rw [← List.append_nil (written ++ _)]
      refine repeated.bind ?_
      intro st' tracks' isDone room'
      rw [List.append_nil]
      exact .pure (fun next => some (_, next)) tracks' (isDone.trans running) room'
    · refine .pure ?_
      intro q op none
      cases none
  exact guides _ decoded q op rfl

theorem bindOpcode_unknown (decoded : decodeOp mem segs stop opcode immediate p = .ok none) :
    bindOpcode mem segs stop pass opcode immediate p st = .ok none := by
  unfold decodeOp at decoded
  unfold bindOpcode
  generalize opcode.toNat = code at decoded ⊢
  split
  case h_14 => rfl
  -- every known opcode has an operation
  all_goals
    dsimp only at decoded
    try obtain ⟨_, _, decoded⟩ := bind_ok.mp decoded
    try obtain ⟨_, _, decoded⟩ := bind_ok.mp decoded
    cases decoded

theorem decodeOps_next {fuel : Nat} {byte : U8} {op : BindOp} (before : ¬stop ≤ p) (read : readByte mem p = .ok byte)
    (opRead : decodeOp mem segs stop (byte &&& bindOpcodeMask) (byte &&& bindImmediateMask) (p + 1) =
      .ok (some (q, op))) :
    decodeOps mem segs stop (fuel + 1) p =
      if op.isDone then .ok (some [.done])
      else decodeOps mem segs stop fuel q >>= fun rest => .ok (rest.map (op :: ·)) := by
  rw [decodeOps, if_neg before, read]
  simp only [bind, Except.bind, opRead]
  cases op with
  | done => rfl
  | setDylib libraryOrdinal => rfl
  | setSymbol symbolName weakImport => rfl
  | setType type => rfl
  | setAddend addend => rfl
  | setSegment segIndex segStartAddr segOffset => rfl
  | addAddr delta => rfl
  | bind count stride => rfl

theorem decodeOps_unknown {fuel : Nat} {byte : U8} (before : ¬stop ≤ p) (read : readByte mem p = .ok byte)
    (opRead : decodeOp mem segs stop (byte &&& bindOpcodeMask) (byte &&& bindImmediateMask) (p + 1) = .ok none) :
    decodeOps mem segs stop (fuel + 1) p = .ok none := by
  rw [decodeOps, if_neg before, read]
  simp only [bind, Except.bind, opRead]
  rfl

/-- A pass over a stream all of whose opcodes are known. -/
theorem bindLoop_binds {start : U32} (inFile : BindInFile mem segs start stop) {fuel : Nat} {ops : List BindOp}
    (after : start ≤ p) (enough : stop.toNat - p.toNat < fuel)
    (decoded : decodeOps mem segs stop fuel p = .ok (some ops)) (tracks : Tracks pass st cursor written)
    (running : st.done = false) (room : pass.Room written.length) :
    Binds pass (bindLoop mem segs stop pass fuel p st) some (opsNext ops cursor) (written ++ opsRecords ops cursor)
      (ops.any BindOp.isDone) := by
  induction fuel generalizing p st cursor written ops with
  | zero => cases decoded
  | succ fuel ih =>
    rw [bindLoop]
    by_cases ended : stop ≤ p
    · have leaves : st.done ∨ stop ≤ p := Or.inr ended
      rw [decodeOps, if_pos ended] at decoded
      rw [if_pos leaves]
      cases decoded
      rw [opsRecords, List.append_nil]
      exact .pure some tracks running room
    · have stays : ¬(st.done ∨ stop ≤ p) := by simp [running, ended]
      obtain ⟨byte, read, _⟩ := (inFile.readByte_returns after (by bv_omega)).exists
      have opReturns : Returns (decodeOp mem segs stop (byte &&& bindOpcodeMask) (byte &&& bindImmediateMask) (p + 1))
          fun decoded => ∀ q op, decoded = some (q, op) → p + 1 ≤ q :=
        inFile.decodeOp_returns (by bv_omega) (by bv_omega)
      obtain ⟨next, opRead, further⟩ := opReturns.exists
      rw [if_neg stays, read]
      cases next with
      | none =>
        rw [decodeOps_unknown ended read opRead] at decoded
        cases decoded
      | some pair =>
        obtain ⟨q, op⟩ := pair
        have later := further q op rfl
        have step := bindOpcode_binds opRead tracks running room
        rw [decodeOps_next ended read opRead] at decoded
        cases isDone : op.isDone with
        | true =>
          rw [if_pos isDone] at decoded
          cases decoded
          obtain rfl : op = .done := BindOp.eq_done isDone
          rw [opsRecords, opsRecords, opsNext, ← List.append_assoc]
          refine step.bind ?_
          intro st' tracks' done' room'
          obtain ⟨rest, rfl⟩ : ∃ rest, fuel = rest + 1 := ⟨fuel - 1, by bv_omega⟩
          have leaves : st'.done ∨ stop ≤ q := Or.inl done'
          simp only [bindLoop, if_pos leaves]
          rw [List.append_nil]
          exact .pure some tracks' done' room'
        | false =>
          have continues : ¬op.isDone = true := by simp [isDone]
          rw [if_neg continues] at decoded
          obtain ⟨rest, restDecoded, decoded⟩ := bind_ok.mp decoded
          cases rest with
          | none => cases decoded
          | some rest =>
            cases decoded
            rw [isDone] at step
            rw [opsRecords, opsNext, List.any_cons, isDone, Bool.false_or, ← List.append_assoc]
            refine step.bind ?_
            intro st' tracks' running' room'
            exact ih (by bv_omega) (by bv_omega) restDecoded tracks' running' room'

/-- The first pass leaves the function at an unknown opcode. -/
theorem bindLoop_unknown {start : U32} (inFile : BindInFile mem segs start stop) {fuel : Nat} (after : start ≤ p)
    (enough : stop.toNat - p.toNat < fuel) (decoded : decodeOps mem segs stop fuel p = .ok none)
    (tracks : Tracks .count st cursor written) (running : st.done = false) :
    bindLoop mem segs stop .count fuel p st = .ok none := by
  induction fuel generalizing p st cursor written with
  | zero => cases decoded
  | succ fuel ih =>
    rw [bindLoop]
    by_cases ended : stop ≤ p
    · rw [decodeOps, if_pos ended] at decoded
      cases decoded
    · have stays : ¬(st.done ∨ stop ≤ p) := by simp [running, ended]
      obtain ⟨byte, read, _⟩ := (inFile.readByte_returns after (by bv_omega)).exists
      have opReturns : Returns (decodeOp mem segs stop (byte &&& bindOpcodeMask) (byte &&& bindImmediateMask) (p + 1))
          fun decoded => ∀ q op, decoded = some (q, op) → p + 1 ≤ q :=
        inFile.decodeOp_returns (by bv_omega) (by bv_omega)
      obtain ⟨next, opRead, further⟩ := opReturns.exists
      rw [if_neg stays, read]
      cases next with
      | none => exact bind_ok.mpr ⟨byte, rfl, bind_ok.mpr ⟨none, bindOpcode_unknown opRead, rfl⟩⟩
      | some pair =>
        obtain ⟨q, op⟩ := pair
        have later := further q op rfl
        obtain ⟨st', step, tracks', done'⟩ := (bindOpcode_binds opRead tracks running trivial).fits trivial
        rw [decodeOps_next ended read opRead] at decoded
        cases isDone : op.isDone with
        | true =>
          rw [if_pos isDone] at decoded
          cases decoded
        | false =>
          have continues : ¬op.isDone = true := by simp [isDone]
          rw [if_neg continues] at decoded
          obtain ⟨rest, restDecoded, decoded⟩ := bind_ok.mp decoded
          cases rest with
          | some rest => cases decoded
          | none =>
            have loop := ih (by bv_omega) (by bv_omega) restDecoded tracks' (done'.trans isDone)
            exact bind_ok.mpr ⟨byte, rfl, bind_ok.mpr ⟨some (q, st'), step, loop⟩⟩

end

/-- The second pass can store so many records: there are none, or their size fits into 32 bits and `allocate` returns
a block of that size. -/
def BlockFits (malloc : Malloc) (records : Nat) : Prop :=
  records = 0 ∨ records * sizeofDyldBindInfo < 2 ^ 32 ∧ malloc (records * sizeofDyldBindInfo)

instance (malloc : Malloc) (records : Nat) : Decidable (BlockFits malloc records) :=
  inferInstanceAs (Decidable (_ ∨ _))

theorem allocate_room {malloc : Malloc} {records : Nat} :
    (allocate malloc (records * sizeofDyldBindInfo % 2 ^ 32)).Room records ↔ BlockFits malloc records := by
  have none : records = 0 ↔ records * sizeofDyldBindInfo = 0 := by
    rw [sizeofDyldBindInfo]
    omega
  rw [BlockFits, allocate, BindPass.Room, none]
  generalize records * sizeofDyldBindInfo = size
  by_cases small : size < 2 ^ 32
  · rw [Nat.mod_eq_of_lt small]
    split
    · rename_i block
      exact iff_of_true (Nat.le_refl size) (Or.inr ⟨small, block⟩)
    · rename_i noBlock
      rw [Nat.le_zero]
      exact (or_iff_left fun both => noBlock both.2).symm
  · refine iff_of_false ?_ ?_
    · split <;> omega
    · rintro (empty | block)
      · omega
      · exact small block.1

/-- Two passes over the same records. -/
theorem getDyldBindInfo_binds {malloc : Malloc} {mem : Mem} {segs : List U32} {start stop : U32} {cursor : BindCursor}
    {written : List DyldBindInfo} {done : Bool}
    (passes : ∀ pass, Binds pass (bindRun mem segs start stop pass) some cursor written done) :
    getDyldBindInfo malloc mem start stop segs =
      if BlockFits malloc written.length then .ok (some (written, written.length))
      else .error (.outOfBounds .bindInfo) := by
  obtain ⟨counted, countRun, countTracks, _⟩ := (passes .count).fits trivial
  have total := countTracks.count
  have second := passes (allocate malloc (written.length * sizeofDyldBindInfo % 2 ^ 32))
  rw [getDyldBindInfo, countRun]
  by_cases fits : BlockFits malloc written.length
  · obtain ⟨stored, storeRun, storeTracks, _⟩ := second.fits (allocate_room.mpr fits)
    have returned : some (stored.dbi, counted.n) = some (written, written.length) := by
      rw [storeTracks.stored nofun, total]
    rw [if_pos fits]
    rw [← total] at storeRun
    exact bind_ok.mpr ⟨some counted, rfl, bind_ok.mpr ⟨some stored, storeRun, congrArg Except.ok returned⟩⟩
  · have noRoom := second.full fun room => fits (allocate_room.mp room)
    rw [if_neg fits]
    rw [← total] at noRoom
    exact bind_error.mpr (Or.inr ⟨some counted, rfl, bind_error.mpr (Or.inl noRoom)⟩)

section

variable {malloc : Malloc} {mem : Mem} {segs : List U32} {start stop : U32} (inFile : BindInFile mem segs start stop)
include inFile

/-- There is a round for each byte of the range, and one to leave. -/
theorem BindInFile.rounds : stop.toNat - start.toNat < (stop - start).toNat + 1 := by
  have ordered := inFile.ordered
  bv_omega

theorem BindInFile.bindOps_returns : ∃ ops, bindOps mem segs start stop = .ok ops := by
  obtain ⟨ops, decoded, _⟩ := (inFile.decodeOps_returns (BitVec.le_refl start) inFile.rounds).exists
  exact ⟨ops, decoded⟩

theorem BindInFile.bindRun_binds {pass : BindPass} {ops : List BindOp}
    (decoded : bindOps mem segs start stop = .ok (some ops)) :
    Binds pass (bindRun mem segs start stop pass) some (opsNext ops {}) (opsRecords ops {})
      (ops.any BindOp.isDone) :=
  bindLoop_binds inFile (BitVec.le_refl start) inFile.rounds decoded ⟨rfl, rfl, fun _ => rfl⟩ rfl .empty

/-- The second pass stores the records that the first one has counted, if it gets a block for them. -/
theorem BindInFile.getDyldBindInfo_known {ops : List BindOp} (decoded : bindOps mem segs start stop = .ok (some ops)) :
    getDyldBindInfo malloc mem start stop segs =
      if BlockFits malloc (opsRecords ops {}).length then
        .ok (some (opsRecords ops {}, (opsRecords ops {}).length))
      else .error (.outOfBounds .bindInfo) :=
  getDyldBindInfo_binds fun _ => inFile.bindRun_binds decoded

theorem BindInFile.getDyldBindInfo_unknown (decoded : bindOps mem segs start stop = .ok none) :
    getDyldBindInfo malloc mem start stop segs = .ok none := by
  have start' : Tracks .count {} {} [] := ⟨rfl, rfl, fun _ => rfl⟩
  have run : bindRun mem segs start stop .count = .ok none :=
    bindLoop_unknown inFile (BitVec.le_refl start) inFile.rounds decoded start' rfl
  rw [getDyldBindInfo, run]
  rfl

end

end Classgraph
