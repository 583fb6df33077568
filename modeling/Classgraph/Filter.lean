import Mathlib.Logic.Relation
import Classgraph.Roots
import Classgraph.Unfolding

namespace Classgraph
open Writes Machine

/-- The typeinfo symbols of an enumeration, as the program keeps them without a filter. -/
def typeinfoSyms (syms : List Symbol) : List Symbol := keptSyms (fun _ => true) syms

/-- No two symbols share a demangled name, an address relative to the base of their library
or an absolute address. -/
structure Distinct (libs : Libs) (syms : List Symbol) : Prop where
  names : (syms.map Symbol.nameDemangled).Nodup
  addrs : (syms.map Symbol.addr).Nodup
  absAddrs : (syms.map fun sym => (libs sym.lib).baseaddr + sym.addr).Nodup

theorem keptSyms_sublist (lFilter : CStr → Bool) (syms : List Symbol) :
    (keptSyms lFilter syms).Sublist (typeinfoSyms syms) := by
  refine List.monotone_filter_right syms ?_
  intro sym kept
  simp only [Bool.and_eq_true] at kept ⊢
  exact ⟨kept.1, trivial⟩

theorem mem_keptSyms_iff {lFilter : CStr → Bool} {syms : List Symbol} {sym : Symbol} :
    sym ∈ keptSyms lFilter syms ↔ sym ∈ typeinfoSyms syms ∧ lFilter sym.name := by
  simp only [typeinfoSyms, keptSyms, List.mem_filter, Bool.and_eq_true]
  tauto

section

variable {libs : Libs} {lFilter : CStr → Bool} {syms : List Symbol} (distinct : Distinct libs (typeinfoSyms syms))
include distinct

/-- Where addresses are distinct, the cache of a filtered run holds the symbols of the cache
of the unfiltered run that the filter accepts. -/
theorem symcache_filtered (lFilter : CStr → Bool) (addr : U32) :
    (fillGlobals lFilter syms).symcache[addr]? =
      (fillGlobals (fun _ => true) syms).symcache[addr]?.filter fun entry => lFilter entry.name := by
  have filtered : ((keptSyms lFilter syms).map Symbol.addr).Nodup :=
    distinct.addrs.sublist ((keptSyms_sublist lFilter syms).map _)
  ext entry
  rw [Option.filter_eq_some_iff, fillGlobals_symcache, fillGlobals_symcache, ← typeinfoSyms,
    lastWith_distinct filtered, lastWith_distinct distinct.addrs, mem_keptSyms_iff]
  exact and_right_comm

/-- Where absolute addresses are distinct, the order of the libraries does not matter. -/
theorem symtabAddrAbs_iff {addr : U32} {entry : Symbol} :
    symtabAddrAbs libs (fillGlobals lFilter syms).symcache addr = some entry ↔
      entry.lib ∈ libWalk libs ∧ (libs entry.lib).baseaddr ≤ addr ∧
        (fillGlobals lFilter syms).symcache[addr - (libs entry.lib).baseaddr]? = some entry := by
  refine ⟨symtabAddrAbs_sound, ?_⟩
  rintro ⟨visited, above, cached⟩
  obtain ⟨other, found⟩ := symtabAddrAbs_exists visited above cached
  obtain ⟨_, _, otherCached⟩ := symtabAddrAbs_sound found
  obtain ⟨kept, addrSame⟩ := symcache_mem cached
  obtain ⟨otherKept, otherSame⟩ := symcache_mem otherCached
  have same : (libs other.lib).baseaddr + other.addr = (libs entry.lib).baseaddr + entry.addr := by
    rw [addrSame, otherSame]
    bv_omega
  rw [found, List.inj_on_of_nodup_map distinct.absAddrs (mem_keptSyms_iff.mp otherKept).1
    (mem_keptSyms_iff.mp kept).1 same]

theorem symtabAddrAbs_filtered (lFilter : CStr → Bool) (addr : U32) :
    symtabAddrAbs libs (fillGlobals lFilter syms).symcache addr =
      (symtabAddrAbs libs (fillGlobals (fun _ => true) syms).symcache addr).filter fun base => lFilter base.name := by
  ext entry
  rw [symtabAddrAbs_iff distinct, symcache_filtered distinct, Option.filter_eq_some_iff, Option.filter_eq_some_iff,
    symtabAddrAbs_iff distinct]
  tauto

/-- How a lookup of the filtered run follows from that of the unfiltered run. -/
def LookupFiltered (lFilter : CStr → Bool) (unfiltered filtered : Option Symbol) : Prop :=
  filtered = unfiltered ∨
    ∃ base, unfiltered = some base ∧ ¬lFilter base.name ∧ (base.addr = 0 → filtered = none)

omit distinct in
theorem LookupFiltered.of_filter (unfiltered : Option Symbol) :
    LookupFiltered lFilter unfiltered (unfiltered.filter fun base => lFilter base.name) := by
  cases unfiltered with
  | none => exact Or.inl rfl
  | some base =>
    by_cases accepted : lFilter base.name
    · exact Or.inl (Option.filter_some_pos accepted)
    · exact Or.inr ⟨base, rfl, accepted, fun _ => Option.filter_some_eq_none.mpr accepted⟩

theorem vmiLookup_filtered (addr : U32) :
    LookupFiltered lFilter (vmiLookup libs (fillGlobals (fun _ => true) syms).symcache addr)
      (vmiLookup libs (fillGlobals lFilter syms).symcache addr) := by
  simp only [vmiLookup, symcache_filtered distinct lFilter addr]
  cases cached : (fillGlobals (fun _ => true) syms).symcache[addr]? with
  | none =>
    simp only [Option.filter_none, symtabAddrAbs_filtered distinct lFilter]
    exact .of_filter _
  | some base =>
    by_cases accepted : lFilter base.name
    · have kept : (some base).filter (fun entry => lFilter entry.name) = some base := Option.filter_some_pos accepted
      rw [kept]
      exact Or.inl rfl
    · have dropped : (some base).filter (fun entry => lFilter entry.name) = none :=
        Option.filter_some_eq_none.mpr accepted
      refine Or.inr ⟨base, rfl, accepted, ?_⟩
      intro zero
      have atZero : addr = 0 := (symcache_mem cached).2.symm.trans zero
      rw [dropped, Option.eq_none_iff_forall_ne_some]
      intro entry found
      obtain ⟨_, above, entryCached⟩ := symtabAddrAbs_sound found
      have distance : addr - (libs entry.lib).baseaddr = addr := by bv_omega
      rw [distance, symcache_filtered distinct, cached, dropped] at entryCached
      cases entryCached

end

/-- A line of the tree as it is written to the standard output. -/
inductive Shown
  | cls (level : Nat) (typeChar : Char) (nameDemangled : CStr)
  | base (level i : Nat) (offset : Int) (flags : List CStr)
  deriving DecidableEq, Repr

/-- Warnings go to the standard error. -/
def Line.shown : Line → Option Shown
  | .cls level typeChar sym => some (.cls level typeChar sym.nameDemangled)
  | .base level i offset flags => some (.base level i offset flags)
  | .warn _ => none

/-- What a call prints of the tree, and how it ends. -/
def tree (run : Emits Fault Line) : Emits Fault Shown := run.filterMap Line.shown

theorem mem_tree {run : Emits Fault Line} {line : Line} {shown : Shown} (member : line ∈ run.events)
    (view : line.shown = some shown) : shown ∈ (tree run).events := List.mem_filterMap.mpr ⟨line, member, view⟩

/-- A symbol that the lookups for a type information object yield. -/
inductive HeadBase (env : Env) (libs : Libs) (symcache : Symcache) (head : TypeinfoHead) (base : Symbol) : Prop
  | si {baseType} : head.typeChar = '+' → readWord env.mem (head.rtti + 8) = .ok baseType →
      symtabAddrAbs libs symcache baseType = some base → HeadBase env libs symcache head base
  | vmi {count baseType i} : head.typeChar = '#' → readWord env.mem (head.rtti + 12) = .ok count → i < count.toNat →
      readWord env.mem (head.rtti + 16 + 8 * BitVec.ofNat 32 i) = .ok baseType →
      vmiLookup libs symcache baseType = some base → HeadBase env libs symcache head base

/-- An edge that the printed tree follows. -/
structure BaseOf (env : Env) (libs : Libs) (symcache : Symcache) (sym base : Symbol) : Prop where
  nonzero : sym.addr ≠ 0
  resolved : ∃ head, typeinfoHead env libs sym = .ok head ∧ HeadBase env libs symcache head base
  baseNonzero : base.addr ≠ 0

/-- A class in the tree of `sym`. -/
def InTree (env : Env) (libs : Libs) (symcache : Symcache) : Symbol → Symbol → Prop :=
  Relation.ReflTransGen (BaseOf env libs symcache)

section

variable {env : Env} {libs : Libs} {symcache : Symcache}

/-- What is printed for a base is printed below its class. -/
theorem HeadBase.printed {level : Nat} {head : TypeinfoHead} {base : Symbol} {recurse : Symbol → Emits Fault Line}
    (resolved : HeadBase env libs symcache head base)
    (ended : (typeinfoBases env libs symcache level head recurse).stop = none) :
    (recurse base).stop = none ∧
      ∀ line ∈ (recurse base).events, line ∈ (typeinfoBases env libs symcache level head recurse).events := by
  cases resolved with
  | si isSi baseType found =>
    rw [typeinfoBases, if_pos isSi, siBase, baseType] at ended ⊢
    simp only [found] at ended ⊢
    exact ⟨ended, fun _ member => member⟩
  | @vmi count baseType i isVmi baseCount bound entry found =>
    have notSi : head.typeChar ≠ '+' := by simp [isVmi]
    rw [typeinfoBases, if_neg notSi, if_pos isVmi, vmiBases, baseCount] at ended ⊢
    simp only at ended ⊢
    have round :=
      List.mem_map_of_mem (f := vmiBase env libs symcache level head.rtti recurse) (List.mem_range.mpr bound)
    have roundEnded := Emits.flow_ended.mp ended _ round
    have called : (recurse base).stop = none ∧
        ∀ line ∈ (recurse base).events, line ∈ (vmiBase env libs symcache level head.rtti recurse i).events := by
      simp only [vmiBase, entry, found] at roundEnded ⊢
      split at roundEnded
      · cases roundEnded
      · rw [Emits.append_events roundEnded]
        exact ⟨(Emits.append_ended.mp roundEnded).2, fun _ member => List.mem_append_right _ member⟩
    refine ⟨called.1, ?_⟩
    intro line member
    rw [Emits.flow_events ended]
    exact List.mem_flatMap.mpr ⟨_, round, called.2 line member⟩

/-- A call that ends normally prints every class of the tree. -/
theorem InTree.printed (fuel level : Nat) {sym entry : Symbol} (inTree : InTree env libs symcache sym entry)
    (nonzero : sym.addr ≠ 0) (ended : (recurseTypeinfo env libs symcache fuel level sym).stop = none) :
    ∃ line typeChar, Line.cls line typeChar entry ∈ (recurseTypeinfo env libs symcache fuel level sym).events := by
  induction inTree using Relation.ReflTransGen.head_induction_on generalizing fuel level with
  | refl => exact ⟨level, recurseTypeinfo_prints nonzero ended⟩
  | @head sym base edge _ ih =>
    obtain ⟨head, found, resolved⟩ := edge.resolved
    cases fuel with
    | zero => cases ended
    | succ fuel =>
      rw [recurseTypeinfo, if_neg nonzero] at ended ⊢
      split at ended
      · cases ended
      · rename_i fits
        rw [if_neg fits]
        simp only [found] at ended ⊢
        have basesEnded := (Emits.append_ended.mp (Emits.append_ended.mp ended).2).2
        obtain ⟨callEnded, included⟩ := resolved.printed basesEnded
        obtain ⟨line, typeChar, member⟩ := ih fuel (level + 1) edge.baseNonzero callEnded
        rw [Emits.append_events ended, Emits.emit_append]
        exact ⟨line, typeChar, List.mem_append_right _ (List.mem_cons_of_mem _ (included _ member))⟩

end

section

variable {lFilter : CStr → Bool} {recurse recurseFiltered : Symbol → Emits Fault Line}

/-- What is printed where a base is looked up, given what the calls for bases print. -/
theorem follow_tree {unfiltered filtered : Option Symbol} (lookup : LookupFiltered lFilter unfiltered filtered)
    (called : ∀ base, unfiltered = some base → base.addr ≠ 0 →
      lFilter base.name ∧ tree (recurseFiltered base) = tree (recurse base))
    (skipped : ∀ base, base.addr = 0 → recurseFiltered base = .nil ∧ recurse base = .nil) (warning : Warning) :
    tree (match filtered with
      | some base => recurseFiltered base
      | none => .emit (.warn warning)) =
    tree (match unfiltered with
      | some base => recurse base
      | none => .emit (.warn warning)) := by
  rcases lookup with rfl | rejected
  · cases filtered with
    | none => rfl
    | some base =>
      by_cases zero : base.addr = 0
      · simp only [skipped base zero]
      · exact (called base rfl zero).2
  · obtain ⟨base, rfl, notAccepted, absent⟩ := rejected
    by_cases zero : base.addr = 0
    · simp only [absent zero, skipped base zero]
      rfl
    · exact absurd (called base rfl zero).1 notAccepted

variable {env : Env} {libs : Libs} {syms : List Symbol} (distinct : Distinct libs (typeinfoSyms syms))
include distinct

/-- One level of the tree in both runs. -/
theorem typeinfoBases_tree {level : Nat} {head : TypeinfoHead}
    (called : ∀ base, HeadBase env libs (fillGlobals (fun _ => true) syms).symcache head base → base.addr ≠ 0 →
      lFilter base.name ∧ tree (recurseFiltered base) = tree (recurse base))
    (skipped : ∀ base, base.addr = 0 → recurseFiltered base = .nil ∧ recurse base = .nil) :
    tree (typeinfoBases env libs (fillGlobals lFilter syms).symcache level head recurseFiltered) =
      tree (typeinfoBases env libs (fillGlobals (fun _ => true) syms).symcache level head recurse) := by
  unfold typeinfoBases
  by_cases isSi : head.typeChar = '+'
  · simp only [if_pos isSi, siBase]
    cases baseType : readWord env.mem (head.rtti + 8) with
    | error fault => rfl
    | ok addr =>
      have lookup : LookupFiltered lFilter (symtabAddrAbs libs (fillGlobals (fun _ => true) syms).symcache addr)
          (symtabAddrAbs libs (fillGlobals lFilter syms).symcache addr) := by
        rw [symtabAddrAbs_filtered distinct lFilter]
        exact .of_filter _
      refine follow_tree lookup ?_ skipped _
      intro base found
      exact called base (.si isSi baseType found)
  · by_cases isVmi : head.typeChar = '#'
    · simp only [if_neg isSi, if_pos isVmi, vmiBases]
      cases baseCount : readWord env.mem (head.rtti + 12) with
      | error fault => rfl
      | ok count =>
        simp only [tree, Emits.filterMap_flow, List.map_map]
        refine congrArg Emits.flow (List.map_congr_left ?_)
        intro i bound
        simp only [Function.comp_apply, vmiBase]
        cases offsetFlags : readWord env.mem (head.rtti + 16 + 8 * BitVec.ofNat 32 i + 4) with
        | error fault => rfl
        | ok flags =>
          simp only [Emits.filterMap_append]
          congr 1
          cases baseType : readWord env.mem (head.rtti + 16 + 8 * BitVec.ofNat 32 i) with
          | error fault => rfl
          | ok addr =>
            refine follow_tree (vmiLookup_filtered distinct addr) ?_ skipped _
            intro base found
            exact called base (.vmi isVmi baseCount (List.mem_range.mp bound) baseType found)
    · simp only [if_neg isSi, if_neg isVmi]

/-- Where the filter accepts every class of the unfiltered tree, it does not change the tree. -/
theorem recurseTypeinfo_tree {fuel level : Nat} (room : fuel + level = callDepth) {sym : Symbol}
    (accepted : ∀ entry, InTree env libs (fillGlobals (fun _ => true) syms).symcache sym entry → lFilter entry.name) :
    tree (recurseTypeinfo env libs (fillGlobals lFilter syms).symcache fuel level sym) =
      tree (recurseTypeinfo env libs (fillGlobals (fun _ => true) syms).symcache fuel level sym) := by
  induction fuel generalizing level sym with
  | zero => rfl
  | succ fuel ih =>
    simp only [recurseTypeinfo]
    split
    · rfl
    · rename_i nonzero
      split
      · rfl
      · rename_i fits
        cases found : typeinfoHead env libs sym with
        | error fault => rfl
        | ok head =>
          simp only [tree, Emits.filterMap_append]
          refine congrArg₂ _ rfl (congrArg₂ _ rfl ?_)
          have deeper : fuel ≠ 0 := by
            rw [indent_overrun] at fits
            simp only [callDepth] at room
            omega
          refine typeinfoBases_tree distinct ?_ ?_
          · intro base resolved baseNonzero
            have edge : BaseOf env libs _ sym base := ⟨nonzero, ⟨head, found, resolved⟩, baseNonzero⟩
            refine ⟨accepted base (.single edge), ih (by omega) ?_⟩
            intro entry inTree
            exact accepted entry (.head edge inTree)
          · intro base zero
            obtain ⟨rest, rfl⟩ := Nat.exists_eq_succ_of_ne_zero deeper
            simp only [recurseTypeinfo, if_pos zero, and_self]

/-- Where names are distinct, every kept symbol of a primary library is a root. -/
theorem kept_root {sym : Symbol} (kept : sym ∈ keptSyms lFilter syms) (primary : (libs sym.lib).isPrimary) :
    sym ∈ mainRoots libs (fillGlobals lFilter syms) := by
  have names := distinct.names.sublist ((keptSyms_sublist lFilter syms).map Symbol.nameDemangled)
  exact (mem_mainRoots_distinct names).mpr ⟨primary, kept⟩

omit distinct in
/-- The classes that a call for a kept symbol prints are kept. -/
theorem printed_kept {fuel level line : Nat} {typeChar : Char} {sym entry : Symbol}
    (kept : sym ∈ keptSyms lFilter syms)
    (member : Line.cls line typeChar entry ∈
      (recurseTypeinfo env libs (fillGlobals lFilter syms).symcache fuel level sym).events) :
    entry ∈ keptSyms lFilter syms := by
  rcases recurseTypeinfo_level member with here | deeper
  · rw [here.2]
    exact kept
  · obtain ⟨addr, cached⟩ := deeper.2
    exact (symcache_mem cached).1

/-- Every class of the unfiltered tree is in the filtered tree only if the filter accepts it. -/
theorem accepted_of_tree_eq {sym entry : Symbol} (kept : sym ∈ keptSyms lFilter syms)
    (ended : (recurseTypeinfo env libs (fillGlobals (fun _ => true) syms).symcache callDepth 0 sym).stop = none)
    (same : tree (recurseTypeinfo env libs (fillGlobals lFilter syms).symcache callDepth 0 sym) =
      tree (recurseTypeinfo env libs (fillGlobals (fun _ => true) syms).symcache callDepth 0 sym))
    (inTree : InTree env libs (fillGlobals (fun _ => true) syms).symcache sym entry) : lFilter entry.name := by
  obtain ⟨typeinfo, accepted⟩ := mem_keptSyms_iff.mp kept
  by_cases zero : sym.addr = 0
  · rcases inTree.cases_head with rfl | further
    · exact accepted
    · obtain ⟨_, edge, _⟩ := further
      exact absurd zero edge.nonzero
  · obtain ⟨line, typeChar, member⟩ := inTree.printed callDepth 0 zero ended
    have shown : Shown.cls line typeChar entry.nameDemangled ∈
        (tree (recurseTypeinfo env libs (fillGlobals lFilter syms).symcache callDepth 0 sym)).events := by
      rw [same]
      exact mem_tree member rfl
    obtain ⟨filteredLine, filteredMember, view⟩ := List.mem_filterMap.mp shown
    cases filteredLine with
    | base | warn => cases view
    | cls filteredLevel filteredChar other =>
      simp only [Line.shown, Option.some.injEq, Shown.cls.injEq] at view
      have otherKept := printed_kept kept filteredMember
      have otherSame := List.inj_on_of_nodup_map distinct.names (mem_keptSyms_iff.mp otherKept).1
        (printed_kept typeinfo member) view.2.2
      rw [← otherSame]
      exact (mem_keptSyms_iff.mp otherKept).2

omit distinct in
/-- No lookup under a filter leads to a base that the filter rejects. -/
theorem HeadBase.accepted {head : TypeinfoHead} {base : Symbol}
    (resolved : HeadBase env libs (fillGlobals lFilter syms).symcache head base) : lFilter base.name := by
  have cached : Cached (fillGlobals lFilter syms).symcache base := by
    cases resolved with
    | si _ _ found => exact ⟨_, (symtabAddrAbs_sound found).2.2⟩
    | vmi _ _ _ _ found => exact vmiLookup_cached found
  obtain ⟨addr, inCache⟩ := cached
  exact (mem_keptSyms_iff.mp (symcache_mem inCache).1).2

/-- The tree of a kept symbol under a filter is its tree without a filter exactly if the filter
accepts the names of all classes in it: bases that it rejects are neither resolved nor printed. -/
theorem tree_filtered_iff {sym : Symbol} (kept : sym ∈ keptSyms lFilter syms) (primary : (libs sym.lib).isPrimary)
    (ended : (recurseTypeinfo env libs (fillGlobals (fun _ => true) syms).symcache callDepth 0 sym).stop = none) :
    sym ∈ mainRoots libs (fillGlobals lFilter syms) ∧ sym ∈ mainRoots libs (fillGlobals (fun _ => true) syms) ∧
      (tree (recurseTypeinfo env libs (fillGlobals lFilter syms).symcache callDepth 0 sym) =
          tree (recurseTypeinfo env libs (fillGlobals (fun _ => true) syms).symcache callDepth 0 sym) ↔
        ∀ entry, InTree env libs (fillGlobals (fun _ => true) syms).symcache sym entry → lFilter entry.name) ∧
      (∀ head base, HeadBase env libs (fillGlobals lFilter syms).symcache head base → lFilter base.name) ∧
      ∀ level typeChar entry, Line.cls level typeChar entry ∈
        (recurseTypeinfo env libs (fillGlobals lFilter syms).symcache callDepth 0 sym).events → lFilter entry.name := by
  refine ⟨kept_root distinct kept primary, kept_root distinct (mem_keptSyms_iff.mp kept).1 primary, ⟨?_, ?_⟩,
    fun _ _ => HeadBase.accepted, ?_⟩
  · intro same entry inTree
    exact accepted_of_tree_eq distinct kept ended same inTree
  · intro accepted
    exact recurseTypeinfo_tree distinct rfl accepted
  · intro level typeChar entry printed
    exact (mem_keptSyms_iff.mp (printed_kept kept printed)).2

end

theorem diamondDistinct : Distinct diamondLibs (typeinfoSyms diamondSyms) :=
  ⟨by decide +kernel, by decide +kernel, by decide +kernel⟩

theorem diamondTree :
    recurseTypeinfo diamondHost diamondLibs (fillGlobals (fun _ => true) diamondSyms).symcache callDepth 0
      (namedAt 0 12 "_ZTI1B") = ⟨[.cls 0 '+' (namedAt 0 12 "_ZTI1B"), .cls 1 '-' (namedAt 0 4 "_ZTI1A")], none⟩ := by
  decide +kernel

/-- With a filter that accepts only the name of the root, nothing is printed below the root. -/
theorem diamond_cut :
    symtabForeach diamondHost diamondLibs = ⟨diamondSyms, none⟩ ∧ Distinct diamondLibs (typeinfoSyms diamondSyms) ∧
      namedAt 0 12 "_ZTI1B" ∈ keptSyms (· = "_ZTI1B".toList) diamondSyms ∧
      (diamondLibs (namedAt 0 12 "_ZTI1B").lib).isPrimary ∧
      tree (recurseTypeinfo diamondHost diamondLibs (fillGlobals (· = "_ZTI1B".toList) diamondSyms).symcache callDepth 0
          (namedAt 0 12 "_ZTI1B")) ≠
        tree (recurseTypeinfo diamondHost diamondLibs (fillGlobals (fun _ => true) diamondSyms).symcache callDepth 0
          (namedAt 0 12 "_ZTI1B")) := by
  refine ⟨by decide +kernel, diamondDistinct, by decide, by decide, ?_⟩
  rw [diamondTree]
  decide +kernel

theorem diamond_kept :
    tree (recurseTypeinfo diamondHost diamondLibs (fillGlobals (· ≠ "_ZTI1D".toList) diamondSyms).symcache callDepth 0
        (namedAt 0 12 "_ZTI1B")) =
      tree (recurseTypeinfo diamondHost diamondLibs (fillGlobals (fun _ => true) diamondSyms).symcache callDepth 0
        (namedAt 0 12 "_ZTI1B")) := by
  refine (tree_filtered_iff diamondDistinct (by decide) (by decide) (by rw [diamondTree])).2.2.1.mpr ?_
  intro entry inTree
  obtain ⟨line, typeChar, member⟩ := InTree.printed callDepth 0 inTree (by decide) (by rw [diamondTree])
  rw [diamondTree] at member
  simp only [List.mem_cons, Line.cls.injEq, List.not_mem_nil, or_false] at member
  rcases member with root | base
  · rw [root.2.2]
    decide
  · rw [base.2.2]
    decide

end Classgraph
