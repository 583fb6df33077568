import Mathlib.Algebra.Group.Nat.Defs

namespace Machine

abbrev U8 := BitVec 8
abbrev U16 := BitVec 16
abbrev U32 := BitVec 32
abbrev U64 := BitVec 64

/-- A 32-bit address space. An address that no mapping holds has no byte, and
the null pointer is never mapped. -/
structure Mem where
  byte : U32 → Option U8
  null : byte 0 = none

/-- The address space whose only mapping holds `bytes` from `base` on. -/
def Mem.ofBytes (base : U32) (bytes : List U8) : Mem where
  byte p := if p = 0 then none else bytes[(p - base).toNat]?
  null := if_pos rfl

/-- The bytes of little-endian words. -/
def wordBytes (words : List U32) : List U8 :=
  words.flatMap fun x => [x.extractLsb' 0 8, x.extractLsb' 8 8, x.extractLsb' 16 8, x.extractLsb' 24 8]

/-- The part of an address space that lies below an address. -/
def Mem.below (m : Mem) (limit : Nat) : Mem where
  byte p := if p.toNat < limit then m.byte p else none
  null := ite_eq_right_iff.mpr fun _ => m.null

/-- The part of an address space that lies in a range. -/
def Mem.window (m : Mem) (start size : U32) : Mem where
  byte p := if p - start < size then m.byte p else none
  null := ite_eq_right_iff.mpr fun _ => m.null

/-- A little-endian 16-bit value. -/
def Mem.half (m : Mem) (p : U32) : Option U16 := do
  let b0 ← m.byte p
  let b1 ← m.byte (p + 1)
  return b1 ++ b0

/-- A little-endian 32-bit value. -/
def Mem.word (m : Mem) (p : U32) : Option U32 := do
  let b0 ← m.byte p
  let b1 ← m.byte (p + 1)
  let b2 ← m.byte (p + 2)
  let b3 ← m.byte (p + 3)
  return b3 ++ b2 ++ b1 ++ b0

/-- The characters from `p` up to the first NUL among the next `n` bytes. -/
def Mem.chars (m : Mem) : Nat → U32 → Option (List Char)
  | 0, _ => none
  | n + 1, p => do
    let b ← m.byte p
    if b = 0 then return [] else return Char.ofNat b.toNat :: (← m.chars n (p + 1))

/-- The NUL-terminated string at `p`. A string cannot be longer than the address space. -/
def Mem.cstr (m : Mem) (p : U32) : Option (List Char) := m.chars (2 ^ 32) p

/-- The memory holds the bytes from `p` on. -/
def Mem.HoldsAt (m : Mem) : U32 → List U8 → Prop
  | _, [] => True
  | p, b :: rest => m.byte p = some b ∧ m.HoldsAt (p + 1) rest

instance Mem.decidableHoldsAt (m : Mem) : ∀ p bytes, Decidable (m.HoldsAt p bytes)
  | _, [] => .isTrue trivial
  | p, b :: rest =>
    have := m.decidableHoldsAt (p + 1) rest
    inferInstanceAs (Decidable (m.byte p = some b ∧ m.HoldsAt (p + 1) rest))

/-- A 32-bit value with its four bytes in the opposite order. -/
def swap32 (x : U32) : U32 :=
  x.extractLsb' 0 8 ++ x.extractLsb' 8 8 ++ x.extractLsb' 16 8 ++ x.extractLsb' 24 8

theorem append_toNat {n k : Nat} (high : BitVec n) (low : BitVec k) :
    (high ++ low).toNat = high.toNat * 2 ^ k + low.toNat := by
  rw [BitVec.toNat_append, ← Nat.shiftLeft_add_eq_or_of_lt low.isLt, Nat.shiftLeft_eq]

theorem swap32_toNat {x : U32} {a b c d : Nat} (bytes : a < 256 ∧ b < 256 ∧ c < 256 ∧ d < 256)
    (value : x.toNat = a * 2 ^ 24 + b * 2 ^ 16 + c * 2 ^ 8 + d) :
    (swap32 x).toNat = d * 2 ^ 24 + c * 2 ^ 16 + b * 2 ^ 8 + a := by
  have first : (a * 2 ^ 24 + b * 2 ^ 16 + c * 2 ^ 8 + d) / 2 ^ 0 % 2 ^ 8 = d := by omega
  have second : (a * 2 ^ 24 + b * 2 ^ 16 + c * 2 ^ 8 + d) / 2 ^ 8 % 2 ^ 8 = c := by omega
  have third : (a * 2 ^ 24 + b * 2 ^ 16 + c * 2 ^ 8 + d) / 2 ^ 16 % 2 ^ 8 = b := by omega
  have fourth : (a * 2 ^ 24 + b * 2 ^ 16 + c * 2 ^ 8 + d) / 2 ^ 24 % 2 ^ 8 = a := by omega
  simp only [swap32, append_toNat, BitVec.extractLsb'_toNat, Nat.shiftRight_eq_div_pow, value]
  rw [first, second, third, fourth]
  omega

/-- Reversing the bytes twice gives the value back. -/
theorem swap32_swap32 (x : U32) : swap32 (swap32 x) = x := by
  have value : x.toNat = x.toNat / 2 ^ 24 * 2 ^ 24 + x.toNat / 2 ^ 16 % 256 * 2 ^ 16 +
      x.toNat / 2 ^ 8 % 256 * 2 ^ 8 + x.toNat % 256 := by omega
  have first : x.toNat / 2 ^ 24 < 256 := by omega
  have second : x.toNat / 2 ^ 16 % 256 < 256 := by omega
  have third : x.toNat / 2 ^ 8 % 256 < 256 := by omega
  have fourth : x.toNat % 256 < 256 := by omega
  refine BitVec.eq_of_toNat_eq ?_
  rw [swap32_toNat ⟨fourth, third, second, first⟩ (swap32_toNat ⟨first, second, third, fourth⟩ value)]
  exact value.symm

theorem entry_zero (start size : U32) : start + size * BitVec.ofNat 32 0 = start := by
  rw [BitVec.mul_zero, BitVec.add_zero]

/-- The next entry of a table lies one entry further. -/
theorem entry_succ (start size : U32) (i : Nat) :
    start + size * BitVec.ofNat 32 (i + 1) = start + size * BitVec.ofNat 32 i + size := by
  have next : BitVec.ofNat 32 (i + 1) = BitVec.ofNat 32 i + 1 := BitVec.ofNat_add ..
  rw [next, BitVec.mul_add, ← BitVec.add_assoc]
  exact congrArg _ (BitVec.mul_one size)

/-- An entry of a table as an entry of the table without its first one. -/
theorem entry_shift (start size : U32) (i : Nat) :
    start + size * BitVec.ofNat 32 (i + 1) = start + size + size * BitVec.ofNat 32 i := by
  rw [entry_succ, BitVec.add_assoc, BitVec.add_comm _ size, BitVec.add_assoc]

/-- A word below the limit is still there, and a byte from the limit on is not. -/
theorem Mem.below_word {m : Mem} {limit : Nat} {p : U32} (inside : p.toNat + 4 ≤ limit) (bounded : limit ≤ 2 ^ 32) :
    (m.below limit).word p = m.word p := by
  have first : p.toNat < limit := by omega
  have second : (p + 1).toNat < limit := by bv_omega
  have third : (p + 2).toNat < limit := by bv_omega
  have fourth : (p + 3).toNat < limit := by bv_omega
  simp only [Mem.word, Mem.below, if_pos first, if_pos second, if_pos third, if_pos fourth]

theorem Mem.below_byte {m : Mem} {limit : Nat} {p : U32} (outside : limit ≤ p.toNat) : (m.below limit).byte p = none :=
  if_neg (Nat.not_lt.mpr outside)

theorem Mem.HoldsAt.append_iff {m : Mem} {p : U32} {first rest : List U8} :
    m.HoldsAt p (first ++ rest) ↔ m.HoldsAt p first ∧ m.HoldsAt (p + BitVec.ofNat 32 first.length) rest := by
  induction first generalizing p with
  | nil => simp [Mem.HoldsAt]
  | cons b first ih =>
    have next : p + 1 + BitVec.ofNat 32 first.length = p + BitVec.ofNat 32 (first.length + 1) := by
      rw [BitVec.ofNat_add, BitVec.add_comm (BitVec.ofNat 32 first.length), ← BitVec.add_assoc]
      rfl
    rw [List.cons_append, Mem.HoldsAt, Mem.HoldsAt, ih, and_assoc, next, List.length_cons]

/-- A string of the bytes before the first NUL. -/
theorem Mem.HoldsAt.cstr {m : Mem} {p : U32} {bytes : List U8} (held : m.HoldsAt p (bytes ++ [0]))
    (noNul : 0 ∉ bytes) (room : bytes.length < 2 ^ 32) :
    m.cstr p = some (bytes.map fun b => Char.ofNat b.toNat) := by
  have chars : ∀ n p, bytes.length < n → m.HoldsAt p (bytes ++ [0]) →
      m.chars n p = some (bytes.map fun b => Char.ofNat b.toNat) := by
    clear held room
    induction bytes with
    | nil =>
      intro n p enough held
      obtain ⟨n, rfl⟩ : ∃ k, n = k + 1 := ⟨n - 1, by simp only [List.length_nil] at enough; omega⟩
      rw [Mem.chars, held.1]
      rfl
    | cons b bytes ih =>
      intro n p enough held
      obtain ⟨n, rfl⟩ : ∃ k, n = k + 1 := ⟨n - 1, by simp only [List.length_cons] at enough; omega⟩
      have notNul : b ≠ 0 := fun isNul => noNul (isNul ▸ List.mem_cons_self ..)
      have rest := ih (fun member => noNul (List.mem_cons_of_mem _ member)) n (p + 1)
        (Nat.lt_of_succ_lt_succ enough) held.2
      rw [Mem.chars, held.1]
      simp only [Option.bind_eq_bind, Option.bind_some, if_neg notNul, rest, List.map_cons]
      rfl
  exact chars (2 ^ 32) p room held

/-- No byte of the range lies in the area. -/
def Outside (area : U32 → Prop) (p : U32) (size : Nat) : Prop := ∀ k < size, ¬area (p + BitVec.ofNat 32 k)

theorem Outside.mono {area : U32 → Prop} {p : U32} {size part : Nat} (outside : Outside area p size)
    (inside : part ≤ size) : Outside area p part := fun k before => outside k (Nat.lt_of_lt_of_le before inside)

theorem Outside.part {area : U32 → Prop} {p : U32} {size offset part : Nat} (outside : Outside area p size)
    (inside : offset + part ≤ size) : Outside area (p + BitVec.ofNat 32 offset) part := by
  intro k before
  rw [BitVec.add_assoc, ← BitVec.ofNat_add]
  exact outside (offset + k) (by omega)

/-- The string at `p`, up to its NUL or to the end of the readable memory, has no byte in the area. -/
def Mem.StringOutside (m : Mem) (area : U32 → Prop) (p : U32) : Prop :=
  ∀ n, (∀ k < n, ∃ b, m.byte (p + BitVec.ofNat 32 k) = some b ∧ b ≠ 0) → ¬area (p + BitVec.ofNat 32 n)

/-- A string that ends at a NUL before which nothing lies in the area. -/
theorem Mem.StringOutside.of_nul {m : Mem} {area : U32 → Prop} {p last : U32} (ordered : p ≤ last)
    (nul : m.byte last = some 0) (outside : ∀ q, p ≤ q → q ≤ last → ¬area q) : m.StringOutside area p := by
  intro n before
  have inside : n ≤ (last - p).toNat := by
    refine Nat.le_of_not_lt fun beyond => ?_
    obtain ⟨b, read, notNul⟩ := before (last - p).toNat beyond
    have here : p + BitVec.ofNat 32 (last - p).toNat = last := by
      rw [BitVec.ofNat_toNat]
      bv_omega
    rw [here, nul] at read
    exact notNul (Option.some.inj read).symm
  exact outside _ (by bv_omega) (by bv_omega)

/-- Two memories that agree on every byte outside an area. -/
def AgreeOutside (area : U32 → Prop) (m m' : Mem) : Prop := ∀ p, ¬area p → m.byte p = m'.byte p

section

variable {area : U32 → Prop} {m m' : Mem} (agree : AgreeOutside area m m')
include agree

theorem AgreeOutside.byte {p : U32} (outside : Outside area p 1) : m.byte p = m'.byte p := by
  have here := outside 0 (by omega)
  rw [BitVec.add_zero] at here
  exact agree p here

theorem AgreeOutside.word {p : U32} (outside : Outside area p 4) : m.word p = m'.word p := by
  have first : m.byte p = m'.byte p := agree.byte (outside.mono (Nat.le_add_left 1 3))
  have second : m.byte (p + 1) = m'.byte (p + 1) := agree.byte (outside.part (Nat.le_add_left 2 2))
  have third : m.byte (p + 2) = m'.byte (p + 2) := agree.byte (outside.part (Nat.le_add_left 3 1))
  have fourth : m.byte (p + 3) = m'.byte (p + 3) := agree.byte (outside.part (Nat.le_refl 4))
  simp only [Mem.word, first, second, third, fourth]

theorem AgreeOutside.chars {p : U32} (outside : m.StringOutside area p) {n i : Nat}
    (before : ∀ k < i, ∃ b, m.byte (p + BitVec.ofNat 32 k) = some b ∧ b ≠ 0) :
    m.chars n (p + BitVec.ofNat 32 i) = m'.chars n (p + BitVec.ofNat 32 i) := by
  induction n generalizing i with
  | zero => rfl
  | succ n ih =>
    have here := agree _ (outside i before)
    rw [Mem.chars, Mem.chars, ← here]
    cases read : m.byte (p + BitVec.ofNat 32 i) with
    | none => rfl
    | some b =>
      simp only [Option.bind_eq_bind, Option.bind_some]
      split
      · rfl
      · rename_i notEnd
        have next : p + BitVec.ofNat 32 i + 1 = p + BitVec.ofNat 32 (i + 1) := by
          rw [BitVec.ofNat_add, BitVec.add_assoc]
          rfl
        rw [next, ih]
        intro k less
        by_cases isLast : k = i
        · rw [isLast]
          exact ⟨b, read, notEnd⟩
        · exact before k (by omega)

theorem AgreeOutside.cstr {p : U32} (outside : m.StringOutside area p) : m.cstr p = m'.cstr p := by
  have all := agree.chars outside (n := 2 ^ 32) (fun k (less : k < 0) => absurd less (Nat.not_lt_zero k))
  rwa [BitVec.add_zero] at all

end

theorem Mem.chars_end {m : Mem} {n : Nat} {p : U32} {str : List Char} (read : m.chars n p = some str) :
    p.toNat + str.length < 2 ^ 32 := by
  induction n generalizing p str with
  | zero => cases read
  | succ n ih =>
    rw [Mem.chars] at read
    cases byteRead : m.byte p with
    | none =>
      rw [byteRead] at read
      cases read
    | some b =>
      simp only [byteRead, Option.bind_eq_bind, Option.bind_some] at read
      split at read
      · cases read
        exact p.isLt
      · obtain ⟨rest, restRead, same⟩ := Option.bind_eq_some_iff.mp read
        cases same
        have bound := ih restRead
        -- the string does not wrap around, since nothing is mapped at the null pointer
        have notLast : p + 1 ≠ 0 := by
          intro isNull
          rw [isNull] at restRead
          cases n with
          | zero => cases restRead
          | succ n =>
            rw [Mem.chars, m.null] at restRead
            cases restRead
        rw [List.length_cons]
        bv_omega

/-- A string ends in the address space. -/
theorem Mem.cstr_end {m : Mem} {p : U32} {str : List Char} (read : m.cstr p = some str) :
    p.toNat + str.length < 2 ^ 32 := Mem.chars_end read

/-- There is no string at the null pointer. -/
theorem Mem.cstr_null (m : Mem) : m.cstr 0 = none := by
  have first : m.chars (4294967295 + 1) 0 = none := by rw [Mem.chars, m.null]; rfl
  exact first

/-- A memory of which another one holds every byte. -/
def Mem.Within (m whole : Mem) : Prop := ∀ p b, m.byte p = some b → whole.byte p = some b

theorem Mem.window_within (m : Mem) (start size : U32) : (m.window start size).Within m := by
  intro p b read
  rw [window] at read
  dsimp only at read
  split at read
  · exact read
  · cases read

section

variable {m whole : Mem} (within : m.Within whole)
include within

theorem Mem.Within.half {p : U32} {x : U16} (read : m.half p = some x) : whole.half p = some x := by
  obtain ⟨b0, read0, read⟩ := Option.bind_eq_some_iff.mp read
  obtain ⟨b1, read1, read⟩ := Option.bind_eq_some_iff.mp read
  rw [Mem.half, within _ _ read0, Option.bind_eq_bind, Option.bind_some, within _ _ read1]
  exact read

theorem Mem.Within.word {p : U32} {x : U32} (read : m.word p = some x) : whole.word p = some x := by
  obtain ⟨b0, read0, read⟩ := Option.bind_eq_some_iff.mp read
  obtain ⟨b1, read1, read⟩ := Option.bind_eq_some_iff.mp read
  obtain ⟨b2, read2, read⟩ := Option.bind_eq_some_iff.mp read
  obtain ⟨b3, read3, read⟩ := Option.bind_eq_some_iff.mp read
  simp only [Mem.word, within _ _ read0, within _ _ read1, within _ _ read2, within _ _ read3]
  exact read

theorem Mem.Within.chars {n : Nat} {p : U32} {str : List Char} (read : m.chars n p = some str) :
    whole.chars n p = some str := by
  induction n generalizing p str with
  | zero => cases read
  | succ n ih =>
    obtain ⟨b, readByte, read⟩ := Option.bind_eq_some_iff.mp read
    rw [Mem.chars, within _ _ readByte, Option.bind_eq_bind, Option.bind_some]
    split at read
    · rename_i isNul
      rw [if_pos isNul]
      exact read
    · rename_i notNul
      obtain ⟨rest, readRest, same⟩ := Option.bind_eq_some_iff.mp read
      rw [if_neg notNul, ih readRest]
      exact same

theorem Mem.Within.cstr {p : U32} {str : List Char} (read : m.cstr p = some str) : whole.cstr p = some str :=
  Mem.Within.chars within read

end

end Machine
