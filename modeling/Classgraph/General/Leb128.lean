import Mathlib.Algebra.Group.Int.Defs
import Mathlib.Algebra.Group.Nat.Defs
import Mathlib.Data.List.Basic

namespace Leb128

/-- The seven bits of a byte that are part of the number. -/
def payload (byte : BitVec 8) : Nat := byte.toNat % 128

/-- Whether another byte of the number follows. -/
def Continues (byte : BitVec 8) : Prop := 128 ≤ byte.toNat

/-- The bytes of one number: all but the last say that another one follows. -/
def Complete : List (BitVec 8) → Prop
  | [] => False
  | [byte] => ¬Continues byte
  | byte :: rest => Continues byte ∧ Complete rest

instance (byte : BitVec 8) : Decidable (Continues byte) := inferInstanceAs (Decidable (128 ≤ byte.toNat))

instance decidableComplete : ∀ bytes, Decidable (Complete bytes)
  | [] => .isFalse id
  | [byte] => inferInstanceAs (Decidable (¬Continues byte))
  | byte :: next :: rest =>
    have := decidableComplete (next :: rest)
    inferInstanceAs (Decidable (Continues byte ∧ Complete (next :: rest)))

/-- The number that the bytes stand for, lowest bits first. -/
def unsigned : List (BitVec 8) → Nat
  | [] => 0
  | byte :: rest => payload byte + 128 * unsigned rest

/-- The number in two's complement: the highest payload bit is the sign. -/
def signed : List (BitVec 8) → Int
  | [] => 0
  | [byte] => if payload byte < 64 then payload byte else payload byte - 128
  | byte :: rest => payload byte + 128 * signed rest

/-- A number in so many bytes before the last one. -/
def unsignedBytes : Nat → Nat → List (BitVec 8)
  | 0, n => [BitVec.ofNat 8 (n % 128)]
  | more + 1, n => BitVec.ofNat 8 (n % 128 + 128) :: unsignedBytes more (n / 128)

def signedBytes : Nat → Int → List (BitVec 8)
  | 0, x => [BitVec.ofNat 8 (x % 128).toNat]
  | more + 1, x => BitVec.ofNat 8 ((x % 128).toNat + 128) :: signedBytes more (x / 128)

theorem payload_lt (byte : BitVec 8) : payload byte < 128 := Nat.mod_lt _ (by decide)

/-- The masks that take a byte apart. -/
theorem and_payload (byte : BitVec 8) : (byte &&& 0x7f).toNat = payload byte := by
  have mask : (0x7f : BitVec 8).toNat = 2 ^ 7 - 1 := rfl
  rw [BitVec.toNat_and, mask, Nat.and_two_pow_sub_one_eq_mod]
  rfl

theorem and_continues (byte : BitVec 8) : byte &&& 0x80 ≠ 0 ↔ Continues byte := by
  revert byte
  unfold Continues
  decide +kernel

theorem and_sign (byte : BitVec 8) : byte &&& 0x40 ≠ 0 ↔ ¬payload byte < 64 := by
  revert byte
  unfold payload
  decide +kernel

theorem payload_ofNat {n : Nat} (small : n < 128) : payload (BitVec.ofNat 8 n) = n := by
  rw [payload, BitVec.toNat_ofNat]
  omega

theorem payload_ofNat_continued {n : Nat} (small : n < 128) : payload (BitVec.ofNat 8 (n + 128)) = n := by
  rw [payload, BitVec.toNat_ofNat]
  omega

theorem not_continues_ofNat {n : Nat} (small : n < 128) : ¬Continues (BitVec.ofNat 8 n) := by
  rw [Continues, BitVec.toNat_ofNat]
  omega

theorem continues_ofNat {n : Nat} (small : n < 128) : Continues (BitVec.ofNat 8 (n + 128)) := by
  rw [Continues, BitVec.toNat_ofNat]
  omega

theorem Complete.ne_nil {bytes : List (BitVec 8)} (complete : Complete bytes) : bytes ≠ [] := by
  rintro rfl
  exact complete

theorem Complete.cons {byte : BitVec 8} {rest : List (BitVec 8)} (continues : Continues byte)
    (complete : Complete rest) : Complete (byte :: rest) := by
  cases rest with
  | nil => exact False.elim complete
  | cons next rest => exact ⟨continues, complete⟩

/-- A number ends with its first byte or goes on with the bytes of a shorter one. -/
theorem Complete.cases {byte : BitVec 8} {rest : List (BitVec 8)} (complete : Complete (byte :: rest)) :
    (¬Continues byte ∧ rest = []) ∨ Continues byte ∧ Complete rest := by
  cases rest with
  | nil => exact Or.inl ⟨complete, rfl⟩
  | cons next rest => exact Or.inr complete

theorem signed_cons {byte : BitVec 8} {rest : List (BitVec 8)} (more : rest ≠ []) :
    signed (byte :: rest) = payload byte + 128 * signed rest := by
  cases rest with
  | nil => exact absurd rfl more
  | cons next rest => rfl

theorem unsignedBytes_length (more n : Nat) : (unsignedBytes more n).length = more + 1 := by
  induction more generalizing n with
  | zero => rfl
  | succ more ih => rw [unsignedBytes, List.length_cons, ih]

theorem unsignedBytes_complete (more n : Nat) : Complete (unsignedBytes more n) := by
  have small (n : Nat) : n % 128 < 128 := Nat.mod_lt _ (by decide)
  induction more generalizing n with
  | zero => exact not_continues_ofNat (small n)
  | succ more ih => exact .cons (continues_ofNat (small n)) (ih _)

/-- Reading back what was written. -/
theorem unsigned_unsignedBytes {more n : Nat} (fits : n < 128 ^ (more + 1)) : unsigned (unsignedBytes more n) = n := by
  have small (n : Nat) : n % 128 < 128 := Nat.mod_lt _ (by decide)
  induction more generalizing n with
  | zero =>
    rw [unsignedBytes, unsigned, unsigned, payload_ofNat (small n)]
    omega
  | succ more ih =>
    have rest : n / 128 < 128 ^ (more + 1) := Nat.div_lt_of_lt_mul (by rw [← Nat.pow_succ']; exact fits)
    rw [unsignedBytes, unsigned, ih rest, payload_ofNat_continued (small n)]
    omega

theorem signedBytes_length (more : Nat) (x : Int) : (signedBytes more x).length = more + 1 := by
  induction more generalizing x with
  | zero => rfl
  | succ more ih => rw [signedBytes, List.length_cons, ih]

theorem signedBytes_complete (more : Nat) (x : Int) : Complete (signedBytes more x) := by
  have small (x : Int) : (x % 128).toNat < 128 := by omega
  induction more generalizing x with
  | zero => exact not_continues_ofNat (small x)
  | succ more ih => exact .cons (continues_ofNat (small x)) (ih _)

theorem signed_signedBytes {more : Nat} {x : Int} (above : -(64 * 128 ^ more) ≤ x) (below : x < 64 * 128 ^ more) :
    signed (signedBytes more x) = x := by
  have small (x : Int) : (x % 128).toNat < 128 := by omega
  induction more generalizing x with
  | zero =>
    rw [signedBytes, signed, payload_ofNat (small x)]
    rw [Int.pow_zero] at above below
    split
    · omega
    · omega
  | succ more ih =>
    have nonempty := (signedBytes_complete more (x / 128)).ne_nil
    have power : (128 : Int) ^ (more + 1) = 128 * 128 ^ more := by rw [Int.pow_succ, Int.mul_comm]
    rw [power] at above below
    generalize (128 : Int) ^ more = base at above below ih
    rw [signedBytes, signed_cons nonempty, ih (by omega) (by omega), payload_ofNat_continued (small x)]
    omega

end Leb128
