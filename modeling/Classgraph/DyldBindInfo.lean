import Classgraph.Loader

namespace Classgraph
open Machine

def bindOpcodeMask : U8 := 0xf0
def bindImmediateMask : U8 := 0x0f

/-- `segs[segIndex]->vmaddr`, or 0 for an index out of range. -/
def segStartAddress (mem : Mem) (segIndex : U8) (segs : List U32) : Except Fault U64 :=
  match segs[segIndex.toNat]? with
  | none => .ok 0
  | some seg => do return (← SegmentCommand.vmaddr mem seg).setWidth 64

/-- The loop of `read_uleb128`. From bit 70 on every byte is refused, so that
eleven rounds are enough. -/
def uleb128Loop (mem : Mem) (stop : U32) : Nat → U32 → Nat → U64 → Except Fault (U32 × U64)
  | 0, _, _, _ => .error .diverges
  | n + 1, p, bit, result => do
    if p = stop then return (p, 0)
    let byte ← readByte mem p
    let slice : U64 := (byte &&& 0x7f).setWidth 64
    if 64 ≤ bit ∨ (slice <<< bit) >>> bit ≠ slice then return (p, 0)
    if byte &&& 0x80 ≠ 0 then uleb128Loop mem stop n (p + 1) (bit + 7) (result ||| slice <<< bit)
    else return (p + 1, result ||| slice <<< bit)

def readUleb128 (mem : Mem) (p stop : U32) : Except Fault (U32 × U64) := uleb128Loop mem stop 11 p 0 0

def sleb128Loop (mem : Mem) (stop : U32) : Nat → U32 → Nat → U64 → Except Fault (U32 × U64)
  | 0, _, _, _ => .error .diverges
  | n + 1, p, bit, result => do
    if p = stop then return (p, 0)
    let byte ← readByte mem p
    let result := result ||| (byte &&& 0x7f).setWidth 64 <<< bit
    if byte &&& 0x80 ≠ 0 then sleb128Loop mem stop n (p + 1) (bit + 7) result
    else if byte &&& 0x40 ≠ 0 then return (p + 1, result ||| BitVec.allOnes 64 <<< (bit + 7))
    else return (p + 1, result)

def readSleb128 (mem : Mem) (p stop : U32) : Except Fault (U32 × U64) := sleb128Loop mem stop (2 ^ 32) p 0 0

/-- The first pass counts the records; the second stores them into a block of
the given number of bytes. -/
inductive BindPass
  | count
  | store (size : Nat)

/-- `malloc`, whose result nothing checks: behind the null pointer no byte can be stored. -/
def allocate (malloc : Malloc) (size : Nat) : BindPass := .store (if malloc size then size else 0)

/-- The decoder's variables that a record or a later opcode depends on. A null
`symbolName` is the address 0. -/
structure BindState where
  segStartAddr : U64 := 0
  segOffset : U64 := 0
  symbolName : U32 := 0
  addend : U64 := 0
  done : Bool := false
  n : Nat := 0
  dbi : List DyldBindInfo := []

/-- `sizeof(struct dyld_bind_info)` on i386. -/
def sizeofDyldBindInfo : Nat := 40

def sizeofPointer : U32 := 4

def bindRecord (pass : BindPass) (st : BindState) : Except Fault BindState :=
  match pass with
  | .count => .ok { st with n := st.n + 1 }
  | .store size =>
    if (st.n + 1) * sizeofDyldBindInfo ≤ size then
      .ok { st with n := st.n + 1,
                    dbi := st.dbi ++ [⟨st.segStartAddr + st.segOffset, st.addend, st.symbolName⟩] }
    else .error (.outOfBounds .bindInfo)

def bindRepeat (pass : BindPass) (skip : U32) : Nat → BindState → Except Fault BindState
  | 0, st => .ok st
  | count + 1, st => do
    let st ← bindRecord pass st
    bindRepeat pass skip count { st with segOffset := st.segOffset + (skip + sizeofPointer).setWidth 64 }

/-- One opcode, whose byte has been read and passed. An opcode that the switch
does not know makes the whole function return, which is the value `none`. -/
def bindOpcode (mem : Mem) (segs : List U32) (stop : U32) (pass : BindPass) (opcode immediate : U8) (p : U32)
    (st : BindState) : Except Fault (Option (U32 × BindState)) :=
  match opcode.toNat with
  | 0x00 => return some (p, { st with done := true })
  | 0x10 => return some (p, st)
  | 0x20 => do
    let (p, _) ← readUleb128 mem p stop
    return some (p, st)
  | 0x30 => return some (p, st)
  | 0x40 => do
    let name ← readCStr mem p
    return some (p + BitVec.ofNat 32 name.length + 1, { st with symbolName := p })
  | 0x50 => return some (p, st)
  | 0x60 => do
    let (p, addend) ← readSleb128 mem p stop
    return some (p, { st with addend := addend })
  | 0x70 => do
    let segStartAddr ← segStartAddress mem immediate segs
    let (p, segOffset) ← readUleb128 mem p stop
    return some (p, { st with segStartAddr := segStartAddr, segOffset := segOffset })
  | 0x80 => do
    let (p, delta) ← readUleb128 mem p stop
    return some (p, { st with segOffset := st.segOffset + delta })
  | 0x90 => do
    let st ← bindRecord pass st
    return some (p, { st with segOffset := st.segOffset + sizeofPointer.setWidth 64 })
  | 0xa0 => do
    let st ← bindRecord pass st
    let (p, delta) ← readUleb128 mem p stop
    return some (p, { st with segOffset := st.segOffset + (delta + sizeofPointer.setWidth 64) })
  | 0xb0 => do
    let st ← bindRecord pass st
    let delta := immediate.setWidth 32 * sizeofPointer + sizeofPointer
    return some (p, { st with segOffset := st.segOffset + delta.setWidth 64 })
  | 0xc0 => do
    let (p, count) ← readUleb128 mem p stop
    let (p, skip) ← readUleb128 mem p stop
    let st ← bindRepeat pass (skip.setWidth 32) (count.setWidth 32).toNat st
    return some (p, st)
  | _ => return none

/-- The loop of one pass. The opcode byte itself is consumed in every round, so that
a round for each byte of the range and a last one to leave are enough. -/
def bindLoop (mem : Mem) (segs : List U32) (stop : U32) (pass : BindPass) :
    Nat → U32 → BindState → Except Fault (Option BindState)
  | 0, _, _ => .error .diverges
  | fuel + 1, p, st => do
    if st.done ∨ stop ≤ p then return some st
    let byte ← readByte mem p
    match ← bindOpcode mem segs stop pass (byte &&& bindOpcodeMask) (byte &&& bindImmediateMask) (p + 1) st with
    | none => return none
    | some (p, st) => bindLoop mem segs stop pass fuel p st

def bindRun (mem : Mem) (segs : List U32) (start stop : U32) (pass : BindPass) :
    Except Fault (Option BindState) :=
  bindLoop mem segs stop pass ((stop - start).toNat + 1) start {}

/-- The records and their number, or nothing where the function returns on an
unknown opcode of the first pass. The size of the block is a 32-bit product. -/
def getDyldBindInfo (malloc : Malloc) (mem : Mem) (start stop : U32) (segs : List U32) :
    Except Fault (Option (List DyldBindInfo × Nat)) := do
  match ← bindRun mem segs start stop .count with
  | none => return none
  | some counted =>
    match ← bindRun mem segs start stop (allocate malloc (counted.n * sizeofDyldBindInfo % 2 ^ 32)) with
    | none => return some ([], counted.n)
    | some stored => return some (stored.dbi, counted.n)

end Classgraph
