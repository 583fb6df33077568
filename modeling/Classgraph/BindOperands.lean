import Mathlib.Tactic.Ring
import Classgraph.General.Leb128
import Classgraph.General.Run
import Classgraph.DyldBindInfo

namespace Classgraph
open Run Machine Leb128

theorem shiftLeft_toNat (slice : U64) {bit : Nat} (bound : bit ≤ 64) :
    (slice <<< bit).toNat = 2 ^ bit * (slice.toNat % 2 ^ (64 - bit)) := by
  have split : 2 ^ 64 = 2 ^ bit * 2 ^ (64 - bit) := by rw [← Nat.pow_add, Nat.add_sub_cancel' bound]
  rw [BitVec.toNat_shiftLeft, Nat.shiftLeft_eq, split, Nat.mul_comm, Nat.mul_mod_mul_left]

/-- A group is added above the bits that are already there. -/
theorem or_shiftLeft_toNat {result : U64} (slice : U64) {bit : Nat} (bound : bit ≤ 64)
    (below : result.toNat < 2 ^ bit) :
    (result ||| slice <<< bit).toNat = result.toNat + 2 ^ bit * (slice.toNat % 2 ^ (64 - bit)) := by
  rw [BitVec.toNat_or, shiftLeft_toNat slice bound, Nat.or_comm, ← Nat.two_pow_add_eq_or_of_lt below, Nat.add_comm]

/-- The test for a group that has bits beyond the 64th. -/
theorem shiftLeft_shiftRight_ne {slice : U64} {bit : Nat} (bound : bit ≤ 64) :
    (slice <<< bit) >>> bit ≠ slice ↔ 2 ^ (64 - bit) ≤ slice.toNat := by
  have back : ((slice <<< bit) >>> bit).toNat = slice.toNat % 2 ^ (64 - bit) := by
    rw [BitVec.toNat_ushiftRight, shiftLeft_toNat slice bound, Nat.shiftRight_eq_div_pow,
      Nat.mul_div_cancel_left _ (Nat.two_pow_pos bit)]
  rw [← not_lt, not_iff_not, ← BitVec.toNat_inj, back]
  constructor
  · intro same
    rw [← same]
    exact Nat.mod_lt _ (Nat.two_pow_pos _)
  · exact Nat.mod_eq_of_lt

theorem group_toNat (byte : U8) : ((byte &&& 0x7f).setWidth 64 : U64).toNat = payload byte := by
  rw [BitVec.toNat_setWidth, and_payload]
  exact Nat.mod_eq_of_lt ((payload_lt byte).trans (by decide))

/-- The loops' result once group number `i` is added to it. -/
abbrev withGroup (result : U64) (byte : U8) (i : Nat) : U64 := result ||| (byte &&& 0x7f).setWidth 64 <<< (7 * i)

section

variable {result : U64} {byte : U8} {i : Nat} (bound : 7 * i ≤ 64) (below : result.toNat < 2 ^ (7 * i))
  (fits : payload byte < 2 ^ (64 - 7 * i))
include bound below fits

theorem withGroup_toNat : (withGroup result byte i).toNat = result.toNat + 2 ^ (7 * i) * payload byte := by
  rw [withGroup, or_shiftLeft_toNat _ bound below, group_toNat, Nat.mod_eq_of_lt fits]

theorem withGroup_lt : (withGroup result byte i).toNat < 2 ^ (7 * (i + 1)) := by
  have group := Nat.mul_le_mul_left (2 ^ (7 * i)) (Nat.le_of_lt_succ (payload_lt byte))
  rw [withGroup_toNat bound below fits, Nat.mul_succ, Nat.pow_add]
  omega

/-- The groups that follow are worth 128 times as much. -/
theorem withGroup_unsigned (rest : List U8) :
    (withGroup result byte i).toNat + 2 ^ (7 * (i + 1)) * unsigned rest =
      result.toNat + 2 ^ (7 * i) * unsigned (byte :: rest) := by
  rw [withGroup_toNat bound below fits, Nat.mul_succ, Nat.pow_add, unsigned]
  ring

theorem withGroup_signed {rest : List U8} (more : rest ≠ []) :
    ((withGroup result byte i).toNat + 2 ^ (7 * (i + 1)) * signed rest : Int) =
      result.toNat + 2 ^ (7 * i) * signed (byte :: rest) := by
  rw [withGroup_toNat bound below fits, Nat.mul_succ, pow_add, signed_cons more]
  push_cast
  ring

end

theorem next_length (p : U32) (rest : List U8) :
    p + 1 + BitVec.ofNat 32 rest.length = p + BitVec.ofNat 32 (rest.length + 1) := by
  rw [BitVec.ofNat_add, BitVec.add_comm (BitVec.ofNat 32 rest.length), ← BitVec.add_assoc]
  rfl

section

variable {mem : Mem} {stop : U32}

/-- The loop from group `i` on, over the bytes of a number that fits. -/
theorem uleb128Loop_fits {n i : Nat} {p : U32} {result : U64} {bytes : List U8} (rounds : i + n = 11)
    (held : mem.HoldsAt p bytes) (complete : Complete bytes) (inside : p.toNat + bytes.length ≤ stop.toNat)
    (below : result.toNat < 2 ^ (7 * i)) (short : i + bytes.length ≤ 10)
    (fits : result.toNat + 2 ^ (7 * i) * unsigned bytes < 2 ^ 64) :
    uleb128Loop mem stop n p (7 * i) result =
      .ok (p + BitVec.ofNat 32 bytes.length, BitVec.ofNat 64 (result.toNat + 2 ^ (7 * i) * unsigned bytes)) := by
  induction bytes generalizing n i p result with
  | nil => exact False.elim complete
  | cons byte rest ih =>
    rw [List.length_cons] at inside short
    obtain ⟨n, rfl⟩ : ∃ k, n = k + 1 := ⟨n - 1, by omega⟩
    have notEnd : p ≠ stop := by bv_omega
    have bound : 7 * i ≤ 64 := by omega
    have split : 2 ^ (7 * i) * 2 ^ (64 - 7 * i) = 2 ^ 64 := by rw [← Nat.pow_add, Nat.add_sub_cancel' bound]
    have groupFits : payload byte < 2 ^ (64 - 7 * i) := by
      have part : 2 ^ (7 * i) * payload byte ≤ 2 ^ (7 * i) * unsigned (byte :: rest) :=
        Nat.mul_le_mul_left _ (Nat.le_add_right ..)
      exact Nat.lt_of_mul_lt_mul_left (a := 2 ^ (7 * i)) (by omega)
    have accepted : ¬(64 ≤ 7 * i ∨ ((byte &&& 0x7f).setWidth 64 <<< (7 * i)) >>> (7 * i) ≠
        ((byte &&& 0x7f).setWidth 64 : U64)) := by
      rw [shiftLeft_shiftRight_ne bound, group_toNat]
      omega
    have total := withGroup_unsigned bound below groupFits rest
    rw [uleb128Loop, if_neg notEnd, readByte, held.1]
    simp only [bind, Except.bind, if_neg accepted]
    rcases complete.cases with ⟨last, rfl⟩ | ⟨continues, complete⟩
    · have noMore : ¬byte &&& 0x80 ≠ 0 := fun more => last ((and_continues byte).mp more)
      rw [if_neg noMore]
      refine congrArg Except.ok (Prod.ext rfl (BitVec.eq_of_toNat_eq ?_))
      rw [BitVec.toNat_ofNat, Nat.mod_eq_of_lt fits]
      exact total
    · rw [if_pos ((and_continues byte).mpr continues), ← total, List.length_cons, ← next_length]
      exact ih (i := i + 1) (by omega) held.2 complete (by bv_omega) (withGroup_lt bound below groupFits) (by omega)
        (by rw [total]; exact fits)

/-- A number that is too long or too large is given up, with the result 0. -/
theorem uleb128Loop_refuses {n i : Nat} {p : U32} {result : U64} {bytes : List U8} (rounds : i + n = 11)
    (held : mem.HoldsAt p bytes) (complete : Complete bytes) (below : result.toNat < 2 ^ (7 * i)) (started : i ≤ 10)
    (refused : ¬(i + bytes.length ≤ 10 ∧ result.toNat + 2 ^ (7 * i) * unsigned bytes < 2 ^ 64)) :
    ∃ q, uleb128Loop mem stop n p (7 * i) result = .ok (q, 0) := by
  induction bytes generalizing n i p result with
  | nil => exact False.elim complete
  | cons byte rest ih =>
    obtain ⟨n, rfl⟩ : ∃ k, n = k + 1 := ⟨n - 1, by omega⟩
    rw [uleb128Loop, readByte, held.1]
    by_cases ended : p = stop
    · exact ⟨p, if_pos ended⟩
    rw [if_neg ended]
    simp only [bind, Except.bind]
    split
    · exact ⟨p, rfl⟩
    rename_i accepted
    obtain ⟨before, noOverflow⟩ := not_or.mp accepted
    have bound : 7 * i ≤ 64 := by omega
    have groupFits : payload byte < 2 ^ (64 - 7 * i) := by
      rw [shiftLeft_shiftRight_ne bound, group_toNat] at noOverflow
      omega
    have total := withGroup_unsigned bound below groupFits rest
    rcases complete.cases with ⟨last, rfl⟩ | ⟨continues, complete⟩
    · -- after the last group nothing has been too large
      have value := (withGroup result byte i).isLt
      rw [unsigned, Nat.mul_zero, Nat.add_zero] at total
      rw [List.length_singleton, ← total] at refused
      exact absurd ⟨by omega, value⟩ refused
    · rw [if_pos ((and_continues byte).mpr continues)]
      refine ih (i := i + 1) (by omega) held.2 complete (withGroup_lt bound below groupFits) (by omega) ?_
      rw [total, Nat.add_right_comm]
      exact refused

/-- A range that ends before the number does is given up in the same way. -/
theorem uleb128Loop_truncated {n i : Nat} {p : U32} {result : U64} {bytes : List U8} (rounds : i + n = 11)
    (held : mem.HoldsAt p bytes) (continues : ∀ byte ∈ bytes, Continues byte)
    (ends : p + BitVec.ofNat 32 bytes.length = stop) (started : i ≤ 10) :
    ∃ q, uleb128Loop mem stop n p (7 * i) result = .ok (q, 0) := by
  induction bytes generalizing n i p result with
  | nil =>
    obtain ⟨n, rfl⟩ : ∃ k, n = k + 1 := ⟨n - 1, by omega⟩
    have ended : p = stop := by rw [← ends, List.length_nil, BitVec.add_zero]
    exact ⟨p, by rw [uleb128Loop, if_pos ended]; rfl⟩
  | cons byte rest ih =>
    obtain ⟨n, rfl⟩ : ∃ k, n = k + 1 := ⟨n - 1, by omega⟩
    rw [uleb128Loop, readByte, held.1]
    by_cases ended : p = stop
    · exact ⟨p, if_pos ended⟩
    rw [if_neg ended]
    simp only [bind, Except.bind]
    split
    · exact ⟨p, rfl⟩
    rename_i accepted
    have before := (not_or.mp accepted).1
    rw [List.length_cons, ← next_length] at ends
    rw [if_pos ((and_continues byte).mpr (continues byte (List.mem_cons_self ..)))]
    exact ih (i := i + 1) (by omega) held.2 (fun other member => continues other (List.mem_cons_of_mem _ member)) ends
      (by omega)

/-- The extension of the sign from bit `bit` on. -/
theorem or_allOnes_toNat {result : U64} {bit : Nat} (bound : bit ≤ 64) (below : result.toNat < 2 ^ bit) :
    (result ||| BitVec.allOnes 64 <<< bit).toNat + 2 ^ bit = result.toNat + 2 ^ 64 := by
  have split : 2 ^ bit * 2 ^ (64 - bit) = 2 ^ 64 := by rw [← Nat.pow_add, Nat.add_sub_cancel' bound]
  have positive := Nat.two_pow_pos (64 - bit)
  have ones : (BitVec.allOnes 64).toNat % 2 ^ (64 - bit) = 2 ^ (64 - bit) - 1 := by
    have parts : 2 ^ 64 - 1 = 2 ^ (64 - bit) - 1 + 2 ^ (64 - bit) * (2 ^ bit - 1) := by
      rw [Nat.mul_sub, Nat.mul_comm, split, Nat.mul_one]
      have less := Nat.le_mul_of_pos_left (2 ^ (64 - bit)) (Nat.two_pow_pos bit)
      omega
    rw [BitVec.toNat_allOnes, parts, Nat.add_mul_mod_self_left]
    exact Nat.mod_eq_of_lt (by omega)
  have less := Nat.le_mul_of_pos_right (2 ^ bit) positive
  rw [or_shiftLeft_toNat _ bound below, ones, Nat.mul_sub, split, Nat.mul_one]
  omega

/-- The loop for a number in two's complement. Up to nine bytes no shift is by more than the width of the result. -/
theorem sleb128Loop_fits {n i : Nat} {p : U32} {result : U64} {bytes : List U8} (rounds : bytes.length ≤ n)
    (held : mem.HoldsAt p bytes) (complete : Complete bytes) (inside : p.toNat + bytes.length ≤ stop.toNat)
    (below : result.toNat < 2 ^ (7 * i)) (short : i + bytes.length ≤ 9) :
    sleb128Loop mem stop n p (7 * i) result =
      .ok (p + BitVec.ofNat 32 bytes.length, BitVec.ofInt 64 (result.toNat + 2 ^ (7 * i) * signed bytes)) := by
  induction bytes generalizing n i p result with
  | nil => exact False.elim complete
  | cons byte rest ih =>
    rw [List.length_cons] at inside short rounds
    obtain ⟨n, rfl⟩ : ∃ k, n = k + 1 := ⟨n - 1, by omega⟩
    have notEnd : p ≠ stop := by bv_omega
    have bound : 7 * i ≤ 64 := by omega
    have groupFits : payload byte < 2 ^ (64 - 7 * i) :=
      (payload_lt byte).trans_le (Nat.pow_le_pow_right Nat.two_pos (by omega : 7 ≤ 64 - 7 * i))
    rw [sleb128Loop, if_neg notEnd, readByte, held.1]
    simp only [bind, Except.bind]
    rcases complete.cases with ⟨last, rfl⟩ | ⟨continues, complete⟩
    · have noMore : ¬byte &&& 0x80 ≠ 0 := fun more => last ((and_continues byte).mp more)
      have total := withGroup_toNat bound below groupFits
      have value := (withGroup result byte i).isLt
      have cast : (2 : Int) ^ (7 * i) * payload byte = (2 ^ (7 * i) * payload byte : Nat) := by push_cast; rfl
      rw [if_neg noMore]
      by_cases positive : payload byte < 64
      · have noSign : ¬byte &&& 0x40 ≠ 0 := fun sign => (and_sign byte).mp sign positive
        rw [if_neg noSign]
        refine congrArg Except.ok (Prod.ext rfl (BitVec.eq_of_toNat_eq ?_))
        rw [BitVec.toNat_ofInt, signed, if_pos positive, cast]
        change (withGroup result byte i).toNat = _
        omega
      · have sign := (and_sign byte).mpr positive
        have extended := or_allOnes_toNat (by omega) (withGroup_lt bound below groupFits)
        have power : 2 ^ (7 * (i + 1)) = 2 ^ (7 * i) * 128 := by rw [Nat.mul_succ, Nat.pow_add]
        rw [if_pos sign]
        refine congrArg Except.ok (Prod.ext rfl (BitVec.eq_of_toNat_eq ?_))
        have ends := (withGroup result byte i ||| BitVec.allOnes 64 <<< (7 * (i + 1))).isLt
        rw [BitVec.toNat_ofInt, signed, if_neg positive, Int.mul_sub]
        change (withGroup result byte i ||| BitVec.allOnes 64 <<< (7 * (i + 1))).toNat = _
        rw [total, power] at extended
        have cast' : (2 : Int) ^ (7 * i) * 128 = (2 ^ (7 * i) * 128 : Nat) := by push_cast; rfl
        rw [cast, cast']
        omega
    · rw [if_pos ((and_continues byte).mpr continues), ← withGroup_signed bound below groupFits complete.ne_nil,
        List.length_cons, ← next_length]
      exact ih (i := i + 1) (by omega) held.2 complete (by bv_omega) (withGroup_lt bound below groupFits) (by omega)

theorem readUleb128_fits {p : U32} {bytes : List U8} (held : mem.HoldsAt p bytes) (complete : Complete bytes)
    (inside : p.toNat + bytes.length ≤ stop.toNat) (short : bytes.length ≤ 10) (fits : unsigned bytes < 2 ^ 64) :
    readUleb128 mem p stop = .ok (p + BitVec.ofNat 32 bytes.length, BitVec.ofNat 64 (unsigned bytes)) := by
  have start : (0 : U64).toNat + 2 ^ (7 * 0) * unsigned bytes = unsigned bytes := by simp
  have below : (0 : U64).toNat < 2 ^ (7 * 0) := Nat.two_pow_pos _
  have rounds : 0 + 11 = 11 := rfl
  have run := uleb128Loop_fits rounds held complete inside below (by rwa [Nat.zero_add]) (by rwa [start])
  rwa [start] at run

/-- `read_uleb128` is exact: it returns the number and the place behind it if the number fits into 64 bits and takes at
most ten bytes, and 0 for every other number and for one that the range cuts off. -/
theorem readUleb128_exact {p : U32} {bytes : List U8} (held : mem.HoldsAt p bytes) :
    (Complete bytes → p.toNat + bytes.length ≤ stop.toNat → bytes.length ≤ 10 → unsigned bytes < 2 ^ 64 →
      readUleb128 mem p stop = .ok (p + BitVec.ofNat 32 bytes.length, BitVec.ofNat 64 (unsigned bytes))) ∧
    (Complete bytes → ¬(bytes.length ≤ 10 ∧ unsigned bytes < 2 ^ 64) → ∃ q, readUleb128 mem p stop = .ok (q, 0)) ∧
    ((∀ byte ∈ bytes, Continues byte) → p + BitVec.ofNat 32 bytes.length = stop →
      ∃ q, readUleb128 mem p stop = .ok (q, 0)) := by
  have rounds : 0 + 11 = 11 := rfl
  refine ⟨readUleb128_fits held, ?_, ?_⟩
  · intro complete refused
    have start : (0 : U64).toNat + 2 ^ (7 * 0) * unsigned bytes = unsigned bytes := by simp
    have below : (0 : U64).toNat < 2 ^ (7 * 0) := Nat.two_pow_pos _
    refine uleb128Loop_refuses rounds held complete below (Nat.zero_le _) ?_
    rwa [start, Nat.zero_add]
  · intro continues ends
    exact uleb128Loop_truncated rounds held continues ends (Nat.zero_le _)

/-- The number of three bytes. -/
theorem readUleb128_exact_three :
    Mem.HoldsAt (.ofBytes 0x1000 [0xe5, 0x8e, 0x26]) 0x1000 [0xe5, 0x8e, 0x26] ∧
      readUleb128 (.ofBytes 0x1000 [0xe5, 0x8e, 0x26]) 0x1000 0x1003 = .ok (0x1003, 624485) := by
  have held : Mem.HoldsAt (.ofBytes 0x1000 [0xe5, 0x8e, 0x26]) 0x1000 [0xe5, 0x8e, 0x26] := by decide
  have complete : Complete [0xe5, 0x8e, 0x26] := by decide
  exact ⟨held, (readUleb128_exact held).1 complete (by decide) (by decide) (by decide)⟩

end

/-- An operand that `read_uleb128` accepts, in any of its encodings. -/
structure Uleb where
  bytes : List U8
  complete : Complete bytes
  short : bytes.length ≤ 10
  fits : unsigned bytes < 2 ^ 64

def Uleb.number (operand : Uleb) : Nat := unsigned operand.bytes

/-- An operand in two's complement, short enough for `read_sleb128` to shift by less than 64 bits only. -/
structure Sleb where
  bytes : List U8
  complete : Complete bytes
  short : bytes.length ≤ 9

def Sleb.number (operand : Sleb) : Int := signed operand.bytes

/-- A number in so many bytes before the last one. -/
def Uleb.ofNat (more n : Nat) (short : more < 10) (fits : n < 128 ^ (more + 1)) (small : n < 2 ^ 64) : Uleb where
  bytes := unsignedBytes more n
  complete := unsignedBytes_complete more n
  short := (unsignedBytes_length more n).le.trans short
  fits := (unsigned_unsignedBytes fits).symm ▸ small

def Sleb.ofInt (more : Nat) (x : Int) (short : more < 9) : Sleb where
  bytes := signedBytes more x
  complete := signedBytes_complete more x
  short := (signedBytes_length more x).le.trans short

/-- Every number of 64 bits is an operand. -/
theorem Uleb.number_ofNat {more n : Nat} (short : more < 10) (fits : n < 128 ^ (more + 1)) (small : n < 2 ^ 64) :
    (Uleb.ofNat more n short fits small).number = n := unsigned_unsignedBytes fits

theorem Sleb.number_ofInt {more : Nat} {x : Int} (short : more < 9) (above : -(64 * 128 ^ more) ≤ x)
    (below : x < 64 * 128 ^ more) : (Sleb.ofInt more x short).number = x := signed_signedBytes above below

section

variable {mem : Mem} {p stop : U32}

theorem readUleb128_operand (operand : Uleb) (held : mem.HoldsAt p operand.bytes)
    (inside : p.toNat + operand.bytes.length ≤ stop.toNat) :
    readUleb128 mem p stop = .ok (p + BitVec.ofNat 32 operand.bytes.length, BitVec.ofNat 64 operand.number) :=
  readUleb128_fits held operand.complete inside operand.short operand.fits

theorem readSleb128_operand (operand : Sleb) (held : mem.HoldsAt p operand.bytes)
    (inside : p.toNat + operand.bytes.length ≤ stop.toNat) :
    readSleb128 mem p stop = .ok (p + BitVec.ofNat 32 operand.bytes.length, BitVec.ofInt 64 operand.number) := by
  have short := operand.short
  have start : ((0 : U64).toNat + 2 ^ (7 * 0) * signed operand.bytes : Int) = operand.number := by simp [Sleb.number]
  have below : (0 : U64).toNat < 2 ^ (7 * 0) := Nat.two_pow_pos _
  have rounds : operand.bytes.length ≤ 2 ^ 32 := by omega
  have run := sleb128Loop_fits rounds held operand.complete inside below (by rwa [Nat.zero_add])
  rwa [start] at run

end

end Classgraph
