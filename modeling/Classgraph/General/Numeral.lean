import Mathlib.Data.List.Basic

namespace Numeral

/-- The digits of a number, highest first. -/
def write (base n : Nat) : List Char := (Nat.toDigits base n).map Char.toUpper

def digits : List Char := "0123456789ABCDEF".toList

def digitValue (digit : Char) : Nat :=
  if digit.toNat < 'A'.toNat then digit.toNat - '0'.toNat else digit.toNat - 'A'.toNat + 10

/-- The number that digits stand for. Zeros in front of them do not count. -/
def read (base : Nat) (numeral : List Char) : Nat :=
  numeral.foldl (fun n digit => base * n + digitValue digit) 0

variable {base n : Nat}

theorem digitValue_digitChar : ∀ n < 16, digitValue n.digitChar.toUpper = n := by decide

theorem digitChar_mem : ∀ n < 16, n.digitChar.toUpper ∈ digits := by decide

theorem read_concat (numeral : List Char) (digit : Char) :
    read base (numeral ++ [digit]) = base * read base numeral + digitValue digit := by
  rw [read, List.foldl_append]
  rfl

theorem write_step (more : 1 < base) :
    write base n = if n < base then [n.digitChar.toUpper]
      else write base (n / base) ++ [(n % base).digitChar.toUpper] := by
  rw [write, Nat.toDigits_eq_if more]
  split
  · rfl
  · rw [List.map_append]
    rfl

theorem read_write (more : 1 < base) (small : base ≤ 16) : read base (write base n) = n := by
  induction n using Nat.strongRecOn with
  | ind n ih =>
    rw [write_step more]
    split
    · rename_i below
      have value := digitValue_digitChar n (by omega)
      rw [read, List.foldl_cons, List.foldl_nil, value, Nat.mul_zero, Nat.zero_add]
    · have lower : n / base < n := Nat.div_lt_self (by omega) more
      have last : n % base < base := Nat.mod_lt n (by omega)
      have value := digitValue_digitChar (n % base) (by omega)
      rw [read_concat, ih (n / base) lower, value, Nat.div_add_mod]

theorem write_digits (more : 1 < base) (small : base ≤ 16) : ∀ digit ∈ write base n, digit ∈ digits := by
  induction n using Nat.strongRecOn with
  | ind n ih =>
    rw [write_step more]
    split
    · exact List.forall_mem_singleton.mpr (digitChar_mem n (by omega))
    · have lower : n / base < n := Nat.div_lt_self (by omega) more
      have last : n % base < base := Nat.mod_lt n (by omega)
      have digit := digitChar_mem (n % base) (by omega)
      exact List.forall_mem_append.mpr ⟨ih (n / base) lower, List.forall_mem_singleton.mpr digit⟩

theorem read_zeros (zeros : Nat) (numeral : List Char) :
    read base (List.replicate zeros '0' ++ numeral) = read base numeral := by
  induction zeros with
  | zero => rfl
  | succ zeros ih =>
    have zero : base * 0 + digitValue '0' = 0 := rfl
    rw [List.replicate_succ, List.cons_append, read, List.foldl_cons, zero]
    exact ih

end Numeral
