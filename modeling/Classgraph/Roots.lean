import Classgraph.Unfolding

namespace Classgraph
open Writes Machine

section

variable {env : Env} {libs : Libs} {symcache : Symcache}

/-- Some address leads to the symbol in the cache. -/
def Cached (symcache : Symcache) (sym : Symbol) : Prop := ∃ addr : U32, symcache[addr]? = some sym

theorem vmiLookup_cached {baseType : U32} {base : Symbol} (found : vmiLookup libs symcache baseType = some base) :
    Cached symcache base := by
  unfold vmiLookup at found
  split at found
  · cases found
    exact ⟨baseType, by assumption⟩
  · exact ⟨_, (symtabAddrAbs_sound found).2.2⟩

theorem vmiBase_cls {level line i : Nat} {rtti : U32} {recurse : Symbol → Emits Fault Line} {typeChar : Char}
    {entry : Symbol} (member : Line.cls line typeChar entry ∈ (vmiBase env libs symcache level rtti recurse i).events) :
    ∃ base, Cached symcache base ∧ Line.cls line typeChar entry ∈ (recurse base).events := by
  simp only [vmiBase] at member
  split at member
  · cases member
  · rcases Emits.mem_append member with offsetLine | inBase
    · cases List.mem_singleton.mp offsetLine
    · split at inBase
      · cases inBase
      · split at inBase
        · rename_i base found
          exact ⟨base, vmiLookup_cached found, inBase⟩
        · cases List.mem_singleton.mp inBase

/-- Every class line below a class comes from the call for a base that the cache holds. -/
theorem typeinfoBases_cls {level line : Nat} {head : TypeinfoHead} {recurse : Symbol → Emits Fault Line}
    {typeChar : Char} {entry : Symbol}
    (member : Line.cls line typeChar entry ∈ (typeinfoBases env libs symcache level head recurse).events) :
    ∃ base, Cached symcache base ∧ Line.cls line typeChar entry ∈ (recurse base).events := by
  unfold typeinfoBases siBase vmiBases at member
  split at member
  · split at member
    · cases member
    · split at member
      · rename_i base found
        exact ⟨base, ⟨_, (symtabAddrAbs_sound found).2.2⟩, member⟩
      · cases List.mem_singleton.mp member
  · split at member
    · split at member
      · cases member
      · obtain ⟨run, inRuns, inRun⟩ := Emits.mem_flow member
        obtain ⟨i, _, rfl⟩ := List.mem_map.mp inRuns
        exact vmiBase_cls inRun
    · cases member

/-- A call prints one class line on its own level, that of the class it was made for, and
the lines of cached classes on deeper levels. -/
theorem recurseTypeinfo_level {fuel level line : Nat} {typeChar : Char} {sym entry : Symbol}
    (member : Line.cls line typeChar entry ∈ (recurseTypeinfo env libs symcache fuel level sym).events) :
    line = level ∧ entry = sym ∨ level < line ∧ Cached symcache entry := by
  induction fuel generalizing level sym with
  | zero => cases member
  | succ fuel ih =>
    rw [recurseTypeinfo] at member
    split at member
    · cases member
    · split at member
      · cases member
      · split at member
        · cases member
        · rcases Emits.mem_append member with inWarnings | member
          · rw [Emits.flow_emit] at inWarnings
            obtain ⟨warning, _, other⟩ := List.mem_map.mp inWarnings
            cases other
          · rcases Emits.mem_append member with here | inBases
            · cases List.mem_singleton.mp here
              exact Or.inl ⟨rfl, rfl⟩
            · obtain ⟨base, cached, inBase⟩ := typeinfoBases_cls inBases
              rcases ih inBase with here | deeper
              · obtain ⟨rfl, rfl⟩ := here
                exact Or.inr ⟨Nat.lt_succ_self level, cached⟩
              · exact Or.inr ⟨Nat.lt_of_succ_lt deeper.1, deeper.2⟩

/-- A call for a class with an address prints its line once the object is found. -/
theorem recurseTypeinfo_line {fuel level : Nat} {sym : Symbol} {head : TypeinfoHead} (nonzero : sym.addr ≠ 0)
    (shallow : level < 256) (found : typeinfoHead env libs sym = .ok head) :
    Line.cls level head.typeChar sym ∈ (recurseTypeinfo env libs symcache (fuel + 1) level sym).events := by
  have fits : ¬(indentStores level).any (sizeofIndent ≤ ·) = true := by
    rw [indent_overrun]
    omega
  rw [recurseTypeinfo, if_neg nonzero, if_neg fits, found]
  simp only
  rw [Emits.flow_emit, Emits.emit_append, Emits.append_of_ended rfl]
  exact List.mem_append_right _ (List.mem_cons_self ..)

/-- Only a call that finds its object prints anything. -/
theorem recurseTypeinfo_found {fuel level : Nat} {sym : Symbol} {line : Line}
    (member : line ∈ (recurseTypeinfo env libs symcache fuel level sym).events) :
    ∃ head, typeinfoHead env libs sym = .ok head := by
  cases fuel with
  | zero => cases member
  | succ fuel =>
    rw [recurseTypeinfo] at member
    split at member
    · cases member
    · split at member
      · cases member
      · split at member
        · cases member
        · rename_i head found
          exact ⟨head, found⟩

/-- A call that ends normally prints the line of its class, unless its address is 0. -/
theorem recurseTypeinfo_prints {fuel level : Nat} {sym : Symbol} (nonzero : sym.addr ≠ 0)
    (ended : (recurseTypeinfo env libs symcache fuel level sym).stop = none) :
    ∃ typeChar, Line.cls level typeChar sym ∈ (recurseTypeinfo env libs symcache fuel level sym).events := by
  cases fuel with
  | zero => cases ended
  | succ fuel =>
    rw [recurseTypeinfo, if_neg nonzero] at ended ⊢
    split at ended
    · cases ended
    · rename_i fits
      rw [if_neg fits]
      split at ended
      · cases ended
      · rename_i head _
        rw [Emits.append_events ended, Emits.emit_append]
        exact ⟨head.typeChar, List.mem_append_right _ (List.mem_cons_self ..)⟩

end

/-- A line without indentation for a type information object of the primary library at `addr`. -/
def PrintsRoot (env : Env) (libs : Libs) (lFilter : CStr → Bool) (addr : U32) : Prop :=
  ∃ typeChar sym, Line.cls 0 typeChar sym ∈ (mainPrint env libs lFilter).events ∧
    (libs sym.lib).isPrimary ∧ sym.addr = addr

/-- A kept symbol of a primary library that comes first, in the order of the enumeration, with its demangled name. -/
structure FirstNamed (libs : Libs) (lFilter : CStr → Bool) (syms : List Symbol) (sym : Symbol) : Prop where
  isPrimary : (libs sym.lib).isPrimary
  first : (keptSyms lFilter syms).find? (fun other => other.nameDemangled = sym.nameDemangled) = some sym

/-- The roots are the kept symbols of primary libraries that come first with their demangled name. -/
theorem mem_mainRoots {libs : Libs} {lFilter : CStr → Bool} {syms : List Symbol} {sym : Symbol} :
    sym ∈ mainRoots libs (fillGlobals lFilter syms) ↔ FirstNamed libs lFilter syms sym := by
  have sameName (other : Symbol) :
      compareOn Symbol.nameDemangled other sym = .eq ↔ other.nameDemangled = sym.nameDemangled := by
    simp [compareOn]
  rw [mainRoots, List.mem_filter, fillGlobals_eq, mem_toList_foldl_insert, and_comm]
  have noOld : ({} : Syms).toList = [] := rfl
  simp only [sameName, noOld, List.not_mem_nil, false_or, false_implies, implies_true, true_and]
  exact ⟨fun root => ⟨root.1, root.2⟩, fun root => ⟨root.isPrimary, root.first⟩⟩

/-- Where names are distinct, every kept symbol of a primary library is a root. -/
theorem mem_mainRoots_distinct {libs : Libs} {lFilter : CStr → Bool} {syms : List Symbol}
    (names : ((keptSyms lFilter syms).map Symbol.nameDemangled).Nodup) {sym : Symbol} :
    sym ∈ mainRoots libs (fillGlobals lFilter syms) ↔ (libs sym.lib).isPrimary ∧ sym ∈ keptSyms lFilter syms := by
  rw [mem_mainRoots]
  refine ⟨fun root => ⟨root.isPrimary, List.mem_of_find?_eq_some root.first⟩, ?_⟩
  rintro ⟨primary, member⟩
  refine ⟨primary, ?_⟩
  cases found : (keptSyms lFilter syms).find? fun other => other.nameDemangled = sym.nameDemangled with
  | none => simpa using List.find?_eq_none.mp found sym member
  | some first =>
    have same : first.nameDemangled = sym.nameDemangled := by simpa using List.find?_some found
    rw [List.inj_on_of_nodup_map names (List.mem_of_find?_eq_some found) member same]

/-- The roots are in the order of `strcmp` on their names. -/
theorem mainRoots_sorted (libs : Libs) (globals : Globals) :
    (mainRoots libs globals).Pairwise fun left right => compareOn Symbol.nameDemangled left right = .lt :=
  Std.TreeSet.ordered_toList.filter _

/-- What stands before a root in the order of the roots has a smaller name. -/
theorem mem_before_root {libs : Libs} {globals : Globals} {before after : List Symbol} {root other : Symbol}
    (split : mainRoots libs globals = before ++ root :: after) (isRoot : other ∈ mainRoots libs globals) :
    other ∈ before ↔ compareOn Symbol.nameDemangled other root = .lt := by
  have sorted := mainRoots_sorted libs globals
  rw [split, List.pairwise_append, List.pairwise_cons] at sorted
  obtain ⟨_, ⟨behind, _⟩, across⟩ := sorted
  refine ⟨fun inBefore => across other inBefore root (List.mem_cons_self ..), ?_⟩
  intro less
  rw [split] at isRoot
  rcases List.mem_append.mp isRoot with inBefore | rest
  · exact inBefore
  · rcases List.mem_cons.mp rest with rfl | inAfter
    · have equal : compareOn Symbol.nameDemangled other other = .eq := Std.ReflCmp.compare_self
      rw [equal] at less
      cases less
    · have greater := behind other inAfter
      rw [Std.OrientedCmp.gt_iff_lt.mpr greater] at less
      cases less

section

variable {env : Env} {libs : Libs} {lFilter : CStr → Bool} (ended : (mainPrint env libs lFilter).stop = none)
include ended

theorem mainPrint_enumerated : symtabForeach env libs = ⟨(symtabForeach env libs).events, none⟩ := by
  unfold mainPrint at ended
  simp only at ended
  split at ended
  · cases ended
  · rename_i enumerated
    exact Emits.ext rfl enumerated

theorem mainPrint_eq : mainPrint env libs lFilter =
    .flow ((mainRoots libs (fillGlobals lFilter (symtabForeach env libs).events)).map
      (recurseTypeinfo env libs (fillGlobals lFilter (symtabForeach env libs).events).symcache callDepth 0)) := by
  have enumerated := mainPrint_enumerated ended
  rw [mainPrint]
  simp only
  split
  · rename_i stopped
    rw [enumerated] at stopped
    cases stopped
  · rfl

end

section

variable {env : Env} {libs : Libs} {lFilter : CStr → Bool}

/-- `main` prints the lines of the calls for the roots, up to the one that is cut short. -/
theorem mem_mainPrint_iff {line : Line} :
    line ∈ (mainPrint env libs lFilter).events ↔ (symtabForeach env libs).stop = none ∧
      ∃ before root after,
        mainRoots libs (fillGlobals lFilter (symtabForeach env libs).events) = before ++ root :: after ∧
        (∀ earlier ∈ before,
          Completes env libs (fillGlobals lFilter (symtabForeach env libs).events).symcache 0 earlier) ∧
        line ∈ (recurseTypeinfo env libs (fillGlobals lFilter (symtabForeach env libs).events).symcache callDepth 0
          root).events := by
  rw [mainPrint]
  dsimp only
  split
  · rename_i fault stopped
    simp [stopped]
  · rename_i enumerated
    rw [Emits.mem_flow_iff]
    simp only [enumerated, true_and]
    constructor
    · rintro ⟨before, run, after, split, ended, inRun⟩
      obtain ⟨first, rest, isRoots, rfl, mapped⟩ := List.map_eq_append_iff.mp split
      obtain ⟨root, after, rfl, rfl, rfl⟩ := List.map_eq_cons_iff.mp mapped
      refine ⟨first, root, after, isRoots, ?_, inRun⟩
      intro earlier member
      exact (recurseTypeinfo_ended rfl (Nat.zero_le _)).mp (ended _ (List.mem_map_of_mem member))
    · rintro ⟨before, root, after, split, completes, inRun⟩
      refine ⟨_, _, _, by rw [split, List.map_append, List.map_cons], ?_, inRun⟩
      intro run member
      obtain ⟨earlier, inBefore, rfl⟩ := List.mem_map.mp member
      exact (recurseTypeinfo_ended rfl (Nat.zero_le _)).mpr (completes earlier inBefore)

end

/-- A library with a class in the unnamed namespace of each of two translation units. -/
def twinLibs : Libs :=
  tableOf [elfTable true 0x10000 [(0x100, "_ZTIN12_GLOBAL__N_11AE"), (0x200, "_ZTIN12_GLOBAL__N_11AE")]]

def twin (addr : U32) : Symbol := namedAt 0 addr "_ZTIN12_GLOBAL__N_11AE"

theorem twinRun : mainPrint silentHost twinLibs (fun _ => true) = ⟨[.cls 0 '-' (twin 0x100)], none⟩ := by
  decide +kernel

end Classgraph
