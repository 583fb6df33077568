import Std.Data.TreeMap.Lemmas
import Std.Data.TreeSet.Lemmas
import Mathlib.Data.List.Nodup

namespace Writes
open Std

section Map

variable {κ α : Type} [DecidableEq κ] {key : α → κ}

/-- The last entry of a list that has the key `k`. -/
def lastWith (key : α → κ) (k : κ) (entries : List α) : Option α := entries.findRev? fun entry => key entry = k

theorem lastWith_cons (k : κ) (entry : α) (entries : List α) :
    lastWith key k (entry :: entries) =
      (lastWith key k entries).or (if key entry = k then some entry else none) := by
  simp only [lastWith, List.findRev?]
  cases entries.findRev? fun entry => key entry = k <;> simp

theorem lastWith_spec {k : κ} {entries : List α} {last : α} (found : lastWith key k entries = some last) :
    last ∈ entries ∧ key last = k := by
  induction entries with
  | nil => simp [lastWith, List.findRev?] at found
  | cons entry entries ih =>
    rw [lastWith_cons] at found
    rcases Option.or_eq_some_iff.mp found with later | ⟨_, here⟩
    · exact ⟨List.mem_cons_of_mem _ (ih later).1, (ih later).2⟩
    · split at here
      · rename_i same
        cases here
        exact ⟨List.mem_cons_self .., same⟩
      · cases here

theorem lastWith_exists (key : α → κ) {entries : List α} {entry : α} (member : entry ∈ entries) :
    ∃ last, lastWith key (key entry) entries = some last := by
  induction entries with
  | nil => cases member
  | cons first entries ih =>
    rw [lastWith_cons]
    cases later : lastWith key (key entry) entries with
    | some last => exact ⟨last, rfl⟩
    | none =>
      rcases List.mem_cons.mp member with same | rest
      · exact ⟨first, by simp [same]⟩
      · obtain ⟨last, found⟩ := ih rest
        rw [later] at found
        cases found

/-- In an ordered list the last entry of a key is above every other entry of it. -/
theorem lastWith_last {R : α → α → Prop} (refl : ∀ entry, R entry entry) {k : κ} {entries : List α} {entry last : α}
    (ordered : entries.Pairwise R) (found : lastWith key k entries = some last) (member : entry ∈ entries)
    (same : key entry = k) : R entry last := by
  induction entries with
  | nil => cases member
  | cons first entries ih =>
    rw [List.pairwise_cons] at ordered
    rw [lastWith_cons] at found
    rcases List.mem_cons.mp member with rfl | rest
    · rcases Option.or_eq_some_iff.mp found with later | ⟨_, here⟩
      · exact ordered.1 last (lastWith_spec later).1
      · rw [if_pos same] at here
        cases here
        exact refl entry
    · obtain ⟨other, later⟩ := lastWith_exists key rest
      rw [same] at later
      rw [later, Option.some_or] at found
      cases found
      exact ih ordered.2 later rest

/-- Two keys that select the same entries. -/
theorem lastWith_congr {key' : α → κ} {k k' : κ} {entries : List α}
    (same : ∀ entry ∈ entries, key entry = k ↔ key' entry = k') :
    lastWith key k entries = lastWith key' k' entries := by
  induction entries with
  | nil => rfl
  | cons entry entries ih =>
    obtain ⟨here, rest⟩ := List.forall_mem_cons.mp same
    rw [lastWith_cons, lastWith_cons, ih rest]
    simp only [here]

/-- Entries with other keys do not matter. -/
theorem lastWith_filter {keep : α → Bool} {k : κ} {entries : List α}
    (kept : ∀ entry ∈ entries, key entry = k → keep entry) :
    lastWith key k (entries.filter keep) = lastWith key k entries := by
  induction entries with
  | nil => rfl
  | cons entry entries ih =>
    obtain ⟨here, rest⟩ := List.forall_mem_cons.mp kept
    rw [lastWith_cons, ← ih rest]
    by_cases keeps : keep entry
    · rw [List.filter_cons_of_pos keeps, lastWith_cons]
    · have other : key entry ≠ k := fun same => keeps (here same)
      rw [List.filter_cons_of_neg keeps, if_neg other, Option.or_none]

/-- Where no two entries share a key, the last entry of a key is the only one. -/
theorem lastWith_distinct {entries : List α} (distinct : (entries.map key).Nodup) {k : κ} {entry : α} :
    lastWith key k entries = some entry ↔ entry ∈ entries ∧ key entry = k := by
  refine ⟨lastWith_spec, ?_⟩
  rintro ⟨member, rfl⟩
  obtain ⟨last, found⟩ := lastWith_exists key member
  obtain ⟨lastMember, same⟩ := lastWith_spec found
  rw [found, List.inj_on_of_nodup_map distinct lastMember member same]

/-- Writing entries under their keys one by one leaves each key with its last entry. -/
theorem getElem?_foldl_insert {cmp : κ → κ → Ordering} [TransCmp cmp] [LawfulEqCmp cmp] (entries : List α)
    (map : TreeMap κ α cmp) (k : κ) :
    (entries.foldl (fun map entry => map.insert (key entry) entry) map)[k]? =
      (lastWith key k entries).or map[k]? := by
  induction entries generalizing map with
  | nil => rfl
  | cons entry entries ih =>
    rw [List.foldl_cons, ih, lastWith_cons, TreeMap.getElem?_insert, Option.or_assoc]
    congr 1
    by_cases same : key entry = k
    · rw [if_pos same, if_pos (by rw [same]; exact ReflCmp.compare_self), Option.some_or]
    · rw [if_neg same, if_neg (fun eq => same (LawfulEqCmp.eq_of_compare eq)), Option.none_or]

end Map

section Set

variable {α : Type} {cmp : α → α → Ordering} [TransCmp cmp]

/-- The comparison as an equality test, for the lemmas on the elements of a set. -/
private theorem lawfulBEqCmp_of (cmp : α → α → Ordering) : @LawfulBEqCmp α ⟨fun a b => cmp a b == .eq⟩ cmp :=
  let : BEq α := ⟨fun a b => cmp a b == .eq⟩
  ⟨beq_iff_eq.symm⟩

theorem mem_set_iff (set : TreeSet α cmp) (a : α) : a ∈ set ↔ ∃ b ∈ set.toList, cmp b a = .eq := by
  let : BEq α := ⟨fun a b => cmp a b == .eq⟩
  have : LawfulBEqCmp cmp := lawfulBEqCmp_of cmp
  rw [← TreeSet.contains_iff_mem, ← TreeSet.contains_toList, List.contains_iff_exists_mem_beq]
  constructor
  · rintro ⟨b, inSet, equal⟩
    exact ⟨b, inSet, OrientedCmp.eq_symm (beq_iff_eq.mp equal)⟩
  · rintro ⟨b, inSet, equal⟩
    have equal' : (cmp a b == .eq) = true := beq_iff_eq.mpr (OrientedCmp.eq_symm equal)
    exact ⟨b, inSet, equal'⟩

theorem mem_toList_insert (set : TreeSet α cmp) (a b : α) :
    b ∈ (set.insert a).toList ↔ b ∈ set.toList ∨ b = a ∧ ∀ c ∈ set.toList, cmp c a ≠ .eq := by
  let : BEq α := ⟨fun a b => cmp a b == .eq⟩
  have : LawfulBEqCmp cmp := lawfulBEqCmp_of cmp
  rw [TreeSet.toList_insert_perm.mem_iff]
  by_cases member : a ∈ set
  · obtain ⟨c, inSet, same⟩ := (mem_set_iff set a).mp member
    rw [if_pos member]
    exact ⟨Or.inl, fun either => either.elim id fun new => absurd same (new.2 c inSet)⟩
  · have fresh : ∀ c ∈ set.toList, cmp c a ≠ .eq := fun c inSet same =>
      member ((mem_set_iff set a).mpr ⟨c, inSet, same⟩)
    rw [if_neg member, List.mem_cons]
    exact ⟨fun either => either.elim (fun new => Or.inr ⟨new, fresh⟩) Or.inl,
      fun either => either.elim Or.inr fun new => Or.inl new.1⟩

/-- Inserting elements one by one keeps, of those that compare equal, the first. -/
theorem mem_toList_foldl_insert (elements : List α) (set : TreeSet α cmp) (a : α) :
    a ∈ (elements.foldl TreeSet.insert set).toList ↔
      a ∈ set.toList ∨ (∀ c ∈ set.toList, cmp c a ≠ .eq) ∧ elements.find? (fun b => cmp b a = .eq) = some a := by
  induction elements generalizing set with
  | nil => simp
  | cons first elements ih =>
    simp only [List.foldl_cons, ih, mem_toList_insert, List.find?_cons]
    by_cases same : cmp first a = .eq
    · rw [decide_eq_true same]
      constructor
      · rintro ((old | ⟨rfl, fresh⟩) | ⟨none, _⟩)
        · exact Or.inl old
        · exact Or.inr ⟨fresh, rfl⟩
        · by_cases member : first ∈ set
          · obtain ⟨c, inSet, equal⟩ := (mem_set_iff set first).mp member
            exact absurd (TransCmp.eq_trans equal same) (none c (Or.inl inSet))
          · refine absurd same (none first (Or.inr ⟨rfl, fun c inSet equal => ?_⟩))
            exact member ((mem_set_iff set first).mpr ⟨c, inSet, equal⟩)
      · rintro (old | ⟨fresh, found⟩)
        · exact Or.inl (Or.inl old)
        · cases found
          exact Or.inl (Or.inr ⟨rfl, fresh⟩)
    · rw [decide_eq_false same]
      constructor
      · rintro ((old | ⟨rfl, _⟩) | ⟨none, found⟩)
        · exact Or.inl old
        · exact absurd ReflCmp.compare_self same
        · exact Or.inr ⟨fun c inSet => none c (Or.inl inSet), found⟩
      · rintro (old | ⟨none, found⟩)
        · exact Or.inl (Or.inl old)
        · refine Or.inr ⟨?_, found⟩
          rintro c (inSet | ⟨rfl, _⟩)
          · exact none c inSet
          · exact same

end Set

end Writes
