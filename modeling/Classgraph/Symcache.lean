import Classgraph.General.Writes
import Classgraph.LibWalk
import Classgraph.Main

namespace Classgraph
open Writes Machine

/-- The symbols of an enumeration that the callback of `main` keeps. -/
def keptSyms (lFilter : CStr → Bool) (syms : List Symbol) : List Symbol :=
  syms.filter fun sym => strncmpEq sym.name "_ZTI".toList 4 && lFilter sym.name

theorem fillGlobals_eq (lFilter : CStr → Bool) (syms : List Symbol) :
    fillGlobals lFilter syms =
      { syms := (keptSyms lFilter syms).foldl Std.TreeSet.insert {}
        symcache := (keptSyms lFilter syms).foldl (fun map sym => map.insert sym.addr sym) {} } := by
  have general (globals : Globals) : syms.foldl (mainCallback lFilter) globals =
      { syms := (keptSyms lFilter syms).foldl Std.TreeSet.insert globals.syms
        symcache := (keptSyms lFilter syms).foldl (fun map sym => map.insert sym.addr sym) globals.symcache } := by
    induction syms generalizing globals with
    | nil => rfl
    | cons sym syms ih =>
      rw [List.foldl_cons, ih]
      cases typeinfo : strncmpEq sym.name "_ZTI".toList 4 <;> cases wanted : lFilter sym.name <;>
        simp only [keptSyms, mainCallback, typeinfo, wanted, List.filter_cons, List.foldl_cons, Bool.and_true,
          Bool.and_false, Bool.and_self, Bool.not_true, Bool.not_false, Bool.false_eq_true, if_true, if_false]
  exact general {}

/-- Under every address the cache holds the symbol that the enumeration delivered last. -/
theorem fillGlobals_symcache (lFilter : CStr → Bool) (syms : List Symbol) (addr : U32) :
    (fillGlobals lFilter syms).symcache[addr]? = lastWith Symbol.addr addr (keptSyms lFilter syms) := by
  rw [fillGlobals_eq, getElem?_foldl_insert]
  simp

theorem keptSyms_mem {lFilter : CStr → Bool} {syms : List Symbol} {sym : Symbol}
    (member : sym ∈ keptSyms lFilter syms) : sym ∈ syms := List.mem_of_mem_filter member

theorem symcache_mem {lFilter : CStr → Bool} {syms : List Symbol} {addr : U32} {sym : Symbol}
    (cached : (fillGlobals lFilter syms).symcache[addr]? = some sym) :
    sym ∈ keptSyms lFilter syms ∧ sym.addr = addr := by
  rw [fillGlobals_symcache] at cached
  exact lastWith_spec cached

/-- The search through the whole cache finds what is stored under the address, provided
that it belongs to the library asked for. -/
theorem symtabLookupAddr_some {symcache : Symcache} {lib : Slot} {addr : U32} {sym : Symbol} :
    symtabLookupAddr symcache lib addr = some sym ↔ symcache[addr]? = some sym ∧ sym.lib = lib := by
  rw [symtabLookupAddr, Option.map_eq_some_iff]
  constructor
  · rintro ⟨⟨key, value⟩, found, rfl⟩
    have matching := List.find?_some found
    simp only [decide_eq_true_eq] at matching
    obtain ⟨rfl, rfl⟩ := matching
    exact ⟨Std.TreeMap.mem_toList_iff_getElem?_eq_some.mp (List.mem_of_find?_eq_some found), rfl⟩
  · rintro ⟨cached, rfl⟩
    have member := Std.TreeMap.mem_toList_iff_getElem?_eq_some.mpr cached
    cases found : symcache.toList.find? fun pair => addr = pair.1 ∧ sym.lib = pair.2.lib with
    | none => simpa using List.find?_eq_none.mp found _ member
    | some pair =>
      have matching := List.find?_some found
      simp only [decide_eq_true_eq] at matching
      have stored := Std.TreeMap.mem_toList_iff_getElem?_eq_some.mp (List.mem_of_find?_eq_some found)
      rw [← matching.1, cached] at stored
      exact ⟨pair, rfl, (Option.some.inj stored).symm⟩

section

variable {libs : Libs} {symcache : Symcache} {addr : U32}

/-- What the search over the libraries returns is a cached symbol of a visited library, stored
under the distance of the address from that library's base. -/
theorem symtabAddrAbs_sound {entry : Symbol} (found : symtabAddrAbs libs symcache addr = some entry) :
    entry.lib ∈ libWalk libs ∧ (libs entry.lib).baseaddr ≤ addr ∧
      symcache[addr - (libs entry.lib).baseaddr]? = some entry := by
  obtain ⟨lib, visited, step⟩ := List.exists_of_findSome?_eq_some found
  split at step
  · rename_i above
    obtain ⟨cached, rfl⟩ := symtabLookupAddr_some.mp step
    exact ⟨visited, above, cached⟩
  · cases step

theorem symtabAddrAbs_exists {sym : Symbol} (visited : sym.lib ∈ libWalk libs)
    (above : (libs sym.lib).baseaddr ≤ addr) (cached : symcache[addr - (libs sym.lib).baseaddr]? = some sym) :
    ∃ entry, symtabAddrAbs libs symcache addr = some entry := by
  cases found : symtabAddrAbs libs symcache addr with
  | some entry => exact ⟨entry, rfl⟩
  | none =>
    have step := List.findSome?_eq_none_iff.mp found sym.lib visited
    rw [if_pos above, symtabLookupAddr_some.mpr ⟨cached, rfl⟩] at step
    cases step

end

end Classgraph
