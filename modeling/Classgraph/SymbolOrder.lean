import Mathlib.Data.List.Sort
import Classgraph.Filter

namespace Classgraph
open Writes Machine

/-- The class of a line without indentation. -/
def Line.rootName : Line → Option CStr
  | .cls 0 _ sym => some sym.nameDemangled
  | _ => none

section

variable {env : Env} {libs : Libs} {symcache : Symcache}

theorem rootName_some {line : Line} {name : CStr} (root : line.rootName = some name) :
    ∃ typeChar sym, line = .cls 0 typeChar sym := by
  unfold Line.rootName at root
  split at root
  · rename_i typeChar sym
    exact ⟨typeChar, sym, rfl⟩
  · cases root

/-- Below a class there are no lines without indentation. -/
theorem typeinfoBases_noRoot (fuel level : Nat) (head : TypeinfoHead) :
    (typeinfoBases env libs symcache level head (recurseTypeinfo env libs symcache fuel (level + 1))).events.filterMap
      Line.rootName = [] := by
  rw [List.filterMap_eq_nil_iff]
  intro line member
  cases root : line.rootName with
  | none => rfl
  | some name =>
    obtain ⟨typeChar, sym, rfl⟩ := rootName_some root
    obtain ⟨base, _, inBase⟩ := typeinfoBases_cls member
    rcases recurseTypeinfo_level inBase with here | deeper
    · cases here.1
    · exact absurd deeper.1 (Nat.not_lt_zero _)

/-- The call for a root prints one line without indentation at most. -/
theorem recurseTypeinfo_rootName (fuel level : Nat) (sym : Symbol) :
    ((recurseTypeinfo env libs symcache fuel level sym).events.filterMap Line.rootName).Sublist
      [sym.nameDemangled] := by
  cases fuel with
  | zero => exact List.nil_sublist _
  | succ fuel =>
    rw [recurseTypeinfo]
    split
    · exact List.nil_sublist _
    · split
      · exact List.nil_sublist _
      · split
        · exact List.nil_sublist _
        · rename_i head _
          have quiet : (head.warnings.map Line.warn).filterMap Line.rootName = [] := by
            simp [List.filterMap_map, Function.comp_def, Line.rootName]
          rw [Emits.flow_emit, Emits.append_of_ended rfl, Emits.emit_append, List.filterMap_append, quiet,
            List.nil_append, List.filterMap_cons]
          split
          · rw [typeinfoBases_noRoot]
            exact List.nil_sublist _
          · rename_i name root
            rw [typeinfoBases_noRoot]
            cases level with
            | zero =>
              cases root
              exact List.Sublist.refl _
            | succ level => cases root

/-- Calls that print one line without indentation at most print them in the order of the calls. -/
theorem flatMap_rootNames (fuel level : Nat) (roots : List Symbol) :
    (roots.flatMap fun root => (recurseTypeinfo env libs symcache fuel level root).events.filterMap
      Line.rootName).Sublist (roots.map Symbol.nameDemangled) := by
  induction roots with
  | nil => exact List.nil_sublist _
  | cons root roots ih => exact (recurseTypeinfo_rootName fuel level root).append ih

theorem mainPrint_sorted (env : Env) (libs : Libs) (lFilter : CStr → Bool) :
    ((mainPrint env libs lFilter).events.filterMap Line.rootName).Pairwise fun left right =>
      compare left right = .lt := by
  unfold mainPrint
  dsimp only
  split
  · exact .nil
  · let globals := fillGlobals lFilter (symtabForeach env libs).events
    let calls := recurseTypeinfo env libs globals.symcache callDepth 0
    have names : ((mainRoots libs globals).map Symbol.nameDemangled).Pairwise fun left right =>
        compare left right = .lt := List.pairwise_map.mpr (mainRoots_sorted libs globals)
    have emitted := (Emits.flow_prefix ((mainRoots libs globals).map calls)).sublist.filterMap Line.rootName
    rw [List.flatMap_map, List.filterMap_flatMap] at emitted
    exact names.sublist (emitted.trans (flatMap_rootNames callDepth 0 _))

end

/-- The roots of the whole program appear in strictly increasing order of `strcmp`, so that no name is the name of two
roots: of every run, also one that is cut short. -/
theorem mainRun_sorted (env : Env) (args : List CStr) :
    ((mainRun env args).events.filterMap Line.rootName).Pairwise fun left right => compare left right = .lt := by
  have loaded (libs : Libs) (argFilter : Option CStr) :
      ((mainLoaded env libs argFilter).events.filterMap Line.rootName).Pairwise fun left right =>
        compare left right = .lt := by
    unfold mainLoaded
    split
    · rw [mainThrow_events]
      exact .nil
    · exact mainPrint_sorted ..
  unfold mainRun
  dsimp only
  split
  · split
    · exact .nil
    · exact loaded _ none
  · split
    · exact .nil
    · exact loaded _ (some _)
  · exact .nil

/-- Two library tables that differ only in their symbol tables of ELF files. -/
def SameButSymtabs (libs libs' : Libs) : Prop :=
  ∀ i, libs' i =
    { libs i with elfSymtabData := (libs' i).elfSymtabData, elfSymtabCount := (libs' i).elfSymtabCount }

section

variable {env : Env} {slot : Slot} {lib : LibraryInfo} (data : Option ElfScn) (count : Int)

theorem extRelocLoop_noSymtab (addr : U32) (n : Nat) (reloc : U32) :
    extRelocLoop env slot { lib with elfSymtabData := data, elfSymtabCount := count } addr n reloc =
      extRelocLoop env slot lib addr n reloc := by
  induction n generalizing reloc with
  | zero => rfl
  | succ n ih =>
    rw [extRelocLoop, extRelocLoop]
    simp only [ih]
    rfl

theorem bindInfoLoop_noSymtab (addr : U32) (n i : Nat) :
    bindInfoLoop env slot { lib with elfSymtabData := data, elfSymtabCount := count } addr n i =
      bindInfoLoop env slot lib addr n i := by
  induction n generalizing i with
  | zero => rfl
  | succ n ih =>
    rw [bindInfoLoop, bindInfoLoop]
    simp only [ih]

theorem findReloc_noSymtab (addr : U32) :
    symtabMachoFindRelocSymForAddr env slot { lib with elfSymtabData := data, elfSymtabCount := count } addr =
      symtabMachoFindRelocSymForAddr env slot lib addr := by
  simp only [symtabMachoFindRelocSymForAddr, extRelocLoop_noSymtab, bindInfoLoop_noSymtab]

end

section

variable {env : Env} {libs libs' : Libs} {symcache symcache' : Symcache} (others : SameButSymtabs libs libs')
include others

theorem SameButSymtabs.typeinfoHead (sym : Symbol) : typeinfoHead env libs' sym = typeinfoHead env libs sym := by
  have isElf : (libs' sym.lib).isElf = (libs sym.lib).isElf := by rw [others sym.lib]
  have isMacho : (libs' sym.lib).isMacho = (libs sym.lib).isMacho := by rw [others sym.lib]
  have base : (libs' sym.lib).baseaddr = (libs sym.lib).baseaddr := by rw [others sym.lib]
  have pointer : symtabMachoGetPtr (libs' sym.lib) = symtabMachoGetPtr (libs sym.lib) := by
    rw [others sym.lib]
    rfl
  have reloc : symtabMachoFindRelocSymForAddr env sym.lib (libs' sym.lib) =
      symtabMachoFindRelocSymForAddr env sym.lib (libs sym.lib) := by
    rw [others sym.lib]
    exact funext (findReloc_noSymtab _ _)
  simp only [Classgraph.typeinfoHead, machoTypeinfoHead, elfTypeinfoHead, isElf, isMacho, base, pointer, reloc]

theorem SameButSymtabs.libWalk : libWalk libs' = libWalk libs := by
  have next (lib : Slot) : libNext libs' lib = libNext libs lib := by
    simp only [libNext]
    split
    · rename_i bound
      rw [others ⟨lib.val + 1, bound⟩]
    · rfl
  have walk (fuel : Nat) (lib : Slot) : libWalkFrom libs' fuel lib = libWalkFrom libs fuel lib := by
    induction fuel generalizing lib with
    | zero => rfl
    | succ fuel ih => rw [libWalkFrom, libWalkFrom, next, funext ih]
  exact walk numLibs libFirst

variable (same : ∀ addr : U32, symcache[addr]? = symcache'[addr]?)
include same

theorem SameButSymtabs.symtabAddrAbs (addr : U32) :
    symtabAddrAbs libs' symcache' addr = symtabAddrAbs libs symcache addr := by
  have lookup (lib : Slot) (distance : U32) :
      symtabLookupAddr symcache' lib distance = symtabLookupAddr symcache lib distance := by
    ext entry
    rw [symtabLookupAddr_some, symtabLookupAddr_some, same]
  have base (lib : Slot) : (libs' lib).baseaddr = (libs lib).baseaddr := by rw [others lib]
  simp only [Classgraph.symtabAddrAbs, lookup, base, others.libWalk]

/-- What is printed depends neither on the symbol tables nor on how the cache came about. -/
theorem SameButSymtabs.recurseTypeinfo (fuel level : Nat) (sym : Symbol) :
    recurseTypeinfo env libs' symcache' fuel level sym = recurseTypeinfo env libs symcache fuel level sym := by
  have addrAbs := others.symtabAddrAbs same
  have vmi (addr : U32) : vmiLookup libs' symcache' addr = vmiLookup libs symcache addr := by
    simp only [vmiLookup, same, addrAbs]
  have round : vmiBase env libs' symcache' = vmiBase env libs symcache := by
    funext level rtti recurse i
    simp only [vmiBase, vmi]
  induction fuel generalizing level sym with
  | zero => rfl
  | succ fuel ih =>
    have recursion : Classgraph.recurseTypeinfo env libs' symcache' fuel (level + 1) =
        Classgraph.recurseTypeinfo env libs symcache fuel (level + 1) := funext (ih (level + 1))
    have bases (head : TypeinfoHead) (recurse : Symbol → Emits Fault Line) :
        typeinfoBases env libs' symcache' level head recurse = typeinfoBases env libs symcache level head recurse := by
      simp only [typeinfoBases, siBase, vmiBases, addrAbs, round]
    simp only [Classgraph.recurseTypeinfo, recursion, bases, others.typeinfoHead]

end

section

variable {lFilter : CStr → Bool} {syms syms' : List Symbol} (perm : syms.Perm syms')
include perm

theorem keptSyms_perm : (keptSyms lFilter syms).Perm (keptSyms lFilter syms') := perm.filter _

theorem symcache_perm (addrs : ((keptSyms lFilter syms).map Symbol.addr).Nodup) (addr : U32) :
    (fillGlobals lFilter syms).symcache[addr]? = (fillGlobals lFilter syms').symcache[addr]? := by
  have kept : (keptSyms lFilter syms).Perm (keptSyms lFilter syms') := keptSyms_perm perm
  have addrs' := (kept.map Symbol.addr).nodup_iff.mp addrs
  ext entry
  rw [fillGlobals_symcache, fillGlobals_symcache, lastWith_distinct addrs, lastWith_distinct addrs', kept.mem_iff]

theorem mainRoots_perm {libs libs' : Libs} (others : SameButSymtabs libs libs')
    (names : ((keptSyms lFilter syms).map Symbol.nameDemangled).Nodup) :
    mainRoots libs' (fillGlobals lFilter syms') = mainRoots libs (fillGlobals lFilter syms) := by
  have kept : (keptSyms lFilter syms).Perm (keptSyms lFilter syms') := keptSyms_perm perm
  have names' := (kept.map Symbol.nameDemangled).nodup_iff.mp names
  let before (left right : Symbol) : Prop := compareOn Symbol.nameDemangled left right = .lt
  have irrefl : Std.Irrefl before := ⟨fun sym less => by simp [before, compareOn] at less⟩
  have antisymm : Std.Antisymm before := ⟨by
    intro left right less greater
    have swapped : compareOn Symbol.nameDemangled left right = (compareOn Symbol.nameDemangled right left).swap :=
      Std.OrientedCmp.eq_swap
    rw [less, greater] at swapped
    cases swapped⟩
  refine List.Pairwise.eq_of_mem_iff (r := before) (mainRoots_sorted ..) (mainRoots_sorted ..) ?_
  intro sym
  rw [mem_mainRoots_distinct names, mem_mainRoots_distinct names', kept.mem_iff, others sym.lib]

end

/-- The order of the symbol tables does not matter: where no two of the kept symbols share a demangled name or an
address, the program prints the same for every order in which the tables deliver them. -/
theorem mainPrint_perm {env : Env} {libs libs' : Libs} {lFilter : CStr → Bool} (others : SameButSymtabs libs libs')
    (enumerated : (symtabForeach env libs).stop = none) (enumerated' : (symtabForeach env libs').stop = none)
    (perm : (symtabForeach env libs).events.Perm (symtabForeach env libs').events)
    (names : ((keptSyms lFilter (symtabForeach env libs).events).map Symbol.nameDemangled).Nodup)
    (addrs : ((keptSyms lFilter (symtabForeach env libs).events).map Symbol.addr).Nodup) :
    mainPrint env libs' lFilter = mainPrint env libs lFilter := by
  simp only [mainPrint, enumerated, enumerated', mainRoots_perm perm others names]
  refine congrArg Emits.flow (List.map_congr_left ?_)
  intro root _
  exact others.recurseTypeinfo (symcache_perm perm addrs) callDepth 0 root

/-- The library of `diamondLibs` with its symbols in the opposite order. -/
def reversedLibs : Libs :=
  Function.update diamondLibs 0 { diamondLibs 0 with
    elfSymtabData := some
      { ndx := 0
        shdr := {}
        getsym := fun i => ([(3, 36), (2, 24), (1, 12), (0, 4)] : List (U32 × U64))[i]?.map fun symbol =>
          ⟨symbol.1, symbol.2, 0⟩
        getdyn := fun _ => none } }

theorem reversedLibs_others : SameButSymtabs diamondLibs reversedLibs := by
  intro i
  by_cases first : i = 0
  · rw [first]
    rfl
  · rw [reversedLibs, Function.update_of_ne first]

theorem reversed_same :
    (symtabForeach diamondHost reversedLibs).events ≠ (symtabForeach diamondHost diamondLibs).events ∧
      mainPrint diamondHost reversedLibs (fun _ => true) = mainPrint diamondHost diamondLibs fun _ => true := by
  have forward : symtabForeach diamondHost diamondLibs = ⟨diamondSyms, none⟩ := by decide +kernel
  have backward : symtabForeach diamondHost reversedLibs = ⟨diamondSyms.reverse, none⟩ := by decide +kernel
  rw [forward, backward]
  refine ⟨by decide, mainPrint_perm reversedLibs_others (by rw [forward]) (by rw [backward]) ?_ ?_ ?_⟩
  · rw [forward, backward]
    exact (List.reverse_perm diamondSyms).symm
  · rw [forward]
    decide
  · rw [forward]
    decide

end Classgraph
