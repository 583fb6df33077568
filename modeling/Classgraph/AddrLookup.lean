import Classgraph.Dependencies
import Classgraph.Roots

namespace Classgraph
open Machine

/-- Every used slot is visited, since the used slots are the first ones. -/
theorem Registered.mem_libWalk {env : Env} {path : CStr} {libs : Libs} {opened : List CStr}
    (table : Registered env path libs opened) {i : Slot} (used : (libs i).name.isSome) : i ∈ libWalk libs := by
  rw [libWalk, table.named.walk table.bound, List.mem_filter]
  exact ⟨List.mem_finRange _, used⟩

/-- `symtab_lookup_addr` with the variable that `entry` points to: the loop over the pairs of the cache. -/
def lookupPairs (lib : Slot) (addr : U32) : List (U32 × Symbol) → Symbol → Bool × Symbol
  | [], entry => (false, entry)
  | pair :: rest, entry => if addr = pair.1 ∧ lib = pair.2.lib then (true, pair.2) else lookupPairs lib addr rest entry

/-- `symtab_addr_abs` with the variable that `entry` points to: the loop over the libraries. -/
def addrAbsLibs (libs : Libs) (symcache : Symcache) (addr : U32) : List Slot → Symbol → Bool × Symbol
  | [], entry => (false, entry)
  | lib :: rest, entry =>
    if (libs lib).baseaddr ≤ addr then
      match lookupPairs lib (addr - (libs lib).baseaddr) symcache.toList entry with
      | (true, entry) => (true, entry)
      | (false, entry) => addrAbsLibs libs symcache addr rest entry
    else addrAbsLibs libs symcache addr rest entry

/-- The return value of `symtab_addr_abs` and the content of the variable afterwards. -/
def symtabAddrAbsEntry (libs : Libs) (symcache : Symcache) (addr : U32) (entry : Symbol) : Bool × Symbol :=
  addrAbsLibs libs symcache addr (libWalk libs) entry

/-- The variable is written only where a symbol is found. -/
def writeFound (entry : Symbol) : Option Symbol → Bool × Symbol
  | some found => (true, found)
  | none => (false, entry)

section

variable {libs : Libs} {symcache : Symcache} {addr : U32}

theorem lookupPairs_eq (lib : Slot) (pairs : List (U32 × Symbol)) (entry : Symbol) :
    lookupPairs lib addr pairs entry =
      writeFound entry ((pairs.find? fun pair => addr = pair.1 ∧ lib = pair.2.lib).map Prod.snd) := by
  induction pairs with
  | nil => rfl
  | cons pair rest ih =>
    rw [lookupPairs, List.find?_cons]
    by_cases matching : addr = pair.1 ∧ lib = pair.2.lib
    · rw [if_pos matching, decide_eq_true matching]
      rfl
    · rw [if_neg matching, decide_eq_false matching, ih]

theorem symtabAddrAbsEntry_eq (entry : Symbol) :
    symtabAddrAbsEntry libs symcache addr entry = writeFound entry (symtabAddrAbs libs symcache addr) := by
  unfold symtabAddrAbsEntry symtabAddrAbs
  induction libWalk libs with
  | nil => rfl
  | cons lib rest ih =>
    rw [addrAbsLibs, List.findSome?_cons]
    by_cases above : (libs lib).baseaddr ≤ addr
    · rw [if_pos above, if_pos above, lookupPairs_eq, ← symtabLookupAddr]
      cases symtabLookupAddr symcache lib (addr - (libs lib).baseaddr) with
      | none => exact ih
      | some found => rfl
    · rw [if_neg above, if_neg above]
      exact ih

/-- A library that is visited before the one found has nothing cached for the address. -/
theorem symtabAddrAbs_first {entry sym : Symbol} (found : symtabAddrAbs libs symcache addr = some entry)
    (visited : sym.lib ∈ libWalk libs) (above : (libs sym.lib).baseaddr ≤ addr)
    (cached : symcache[addr - (libs sym.lib).baseaddr]? = some sym) : entry.lib ≤ sym.lib := by
  obtain ⟨before, lib, after, walk, hit, missed⟩ := List.findSome?_eq_some_iff.mp found
  have isLib : entry.lib = lib := by
    split at hit
    · exact (symtabLookupAddr_some.mp hit).2
    · cases hit
  have ordered := libWalkFrom_increasing libs numLibs libFirst
  rw [← libWalk, walk, List.pairwise_append] at ordered
  rw [walk, List.mem_append, List.mem_cons] at visited
  rw [isLib]
  rcases visited with early | here | late
  · have miss := missed sym.lib early
    rw [if_pos above, symtabLookupAddr_some.mpr ⟨cached, rfl⟩] at miss
    cases miss
  · exact here.ge
  · exact ((List.pairwise_cons.mp ordered.2.1).1 sym.lib late).le

end

/-- A cached symbol whose absolute address is the given one. -/
structure CachedAt (libs : Libs) (symcache : Symcache) (addr : U32) (sym : Symbol) : Prop where
  cached : Cached symcache sym
  sum : (libs sym.lib).baseaddr.toNat + sym.addr.toNat = addr.toNat

section

variable {env : Env} {path : CStr} {libs : Libs} {opened : List CStr} {active : List (List CStr)}
  {lFilter : CStr → Bool} {syms : List Symbol} {addr : U32} {sym : Symbol}

/-- The cache holds every symbol under its own address, so that the lookup by distance finds it. -/
theorem cachedAt_iff : CachedAt libs (fillGlobals lFilter syms).symcache addr sym ↔
    (libs sym.lib).baseaddr ≤ addr ∧
      (fillGlobals lFilter syms).symcache[addr - (libs sym.lib).baseaddr]? = some sym := by
  constructor
  · intro cachedAt
    obtain ⟨⟨key, cached⟩, sum⟩ := cachedAt
    have own := (symcache_mem cached).2
    have above : (libs sym.lib).baseaddr ≤ addr := by
      rw [BitVec.le_def, ← sum]
      exact Nat.le_add_right ..
    rw [(sub_base_eq above).mpr sum, own]
    exact ⟨above, cached⟩
  · intro lookup
    exact ⟨⟨_, lookup.2⟩, (sub_base_eq lookup.1).mp (symcache_mem lookup.2).2.symm⟩

/-- The lookup by absolute address succeeds exactly if some cached symbol lies there, and then returns
one of the library that was loaded first among those that have one. -/
theorem symtabAddrAbs_spec (reach : LoadReach env path libs opened active)
    (owned : ∀ sym ∈ syms, (libs sym.lib).name.isSome) (lFilter : CStr → Bool) (addr : U32) (entry : Symbol) :
    ((symtabAddrAbsEntry libs (fillGlobals lFilter syms).symcache addr entry).1 = true ↔
        ∃ sym, CachedAt libs (fillGlobals lFilter syms).symcache addr sym) ∧
      (∀ found, symtabAddrAbsEntry libs (fillGlobals lFilter syms).symcache addr entry = (true, found) →
        CachedAt libs (fillGlobals lFilter syms).symcache addr found ∧
          ∀ sym, CachedAt libs (fillGlobals lFilter syms).symcache addr sym → found.lib ≤ sym.lib) ∧
      ∀ after, symtabAddrAbsEntry libs (fillGlobals lFilter syms).symcache addr entry = (false, after) →
        after = entry := by
  have visited {sym : Symbol} (cachedAt : CachedAt libs (fillGlobals lFilter syms).symcache addr sym) :
      sym.lib ∈ libWalk libs := by
    obtain ⟨key, cached⟩ := cachedAt.cached
    exact reach.registered.mem_libWalk (owned sym (keptSyms_mem (symcache_mem cached).1))
  simp only [symtabAddrAbsEntry_eq]
  cases found : symtabAddrAbs libs (fillGlobals lFilter syms).symcache addr with
  | none =>
    refine ⟨⟨fun returned => absurd returned Bool.false_ne_true, ?_⟩, (fun _ returned => nomatch returned), ?_⟩
    · intro someCached
      obtain ⟨sym, cachedAt⟩ := someCached
      obtain ⟨above, cached⟩ := cachedAt_iff.mp cachedAt
      obtain ⟨other, hit⟩ := symtabAddrAbs_exists (visited cachedAt) above cached
      rw [found] at hit
      cases hit
    · intro after returned
      exact (Prod.mk.inj returned).2.symm
  | some sym =>
    obtain ⟨_, above, cached⟩ := symtabAddrAbs_sound found
    have cachedAt : CachedAt libs (fillGlobals lFilter syms).symcache addr sym := cachedAt_iff.mpr ⟨above, cached⟩
    refine ⟨⟨fun _ => ⟨sym, cachedAt⟩, fun _ => rfl⟩, ?_, fun _ returned => nomatch returned⟩
    intro returned written
    cases (Prod.mk.inj written).2
    refine ⟨cachedAt, ?_⟩
    intro other otherAt
    obtain ⟨otherAbove, otherCached⟩ := cachedAt_iff.mp otherAt
    exact symtabAddrAbs_first found (visited otherAt) otherAbove otherCached

end

/-- Two symbols at one absolute address, the second of which belongs to the library loaded first. -/
def overlappingSyms : List Symbol := [namedAt 1 0x8 "_ZTI1B", namedAt 0 0x10008 "_ZTI1A"]

theorem overlapping_first : ∃ found,
    symtabAddrAbsEntry cyclicLibs (fillGlobals (fun _ => true) overlappingSyms).symcache 0x20008 (namedAt 0 0 "") =
      (true, found) ∧ found.lib ≤ 0 := by
  have owned : ∀ sym ∈ overlappingSyms, (cyclicLibs sym.lib).name.isSome := by decide +kernel
  obtain ⟨returns, first, _⟩ := symtabAddrAbs_spec cyclicReach owned (fun _ => true) 0x20008 (namedAt 0 0 "")
  have cachedAt :
      CachedAt cyclicLibs (fillGlobals (fun _ => true) overlappingSyms).symcache 0x20008
        (namedAt 0 0x10008 "_ZTI1A") := ⟨⟨0x10008, by decide +kernel⟩, by decide +kernel⟩
  have returned := returns.mpr ⟨_, cachedAt⟩
  generalize symtabAddrAbsEntry cyclicLibs (fillGlobals (fun _ => true) overlappingSyms).symcache 0x20008
    (namedAt 0 0 "") = written at returned first
  obtain ⟨flag, found⟩ := written
  cases returned
  exact ⟨found, rfl, (first found rfl).2 _ cachedAt⟩

end Classgraph
