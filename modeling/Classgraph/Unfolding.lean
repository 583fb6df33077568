import Classgraph.General.PathTree
import Classgraph.Resolution

namespace Classgraph
open PathTree Machine

/-- A type information object: one without bases of a class, one with the pointer to its
only base, or one with an array of pointers to its bases. -/
inductive Typeinfo
  | leaf (typeChar : Char)
  | si (base : U32)
  | vmi (bases : List U32)

def Typeinfo.typeChar : Typeinfo → Char
  | .leaf typeChar => typeChar
  | .si _ => '+'
  | .vmi _ => '#'

/-- The base pointers as they are looked up for each kind of object. -/
def Typeinfo.resolve (libs : Libs) (symcache : Symcache) : Typeinfo → List (Option Symbol)
  | .leaf _ => []
  | .si base => [symtabAddrAbs libs symcache base]
  | .vmi bases => bases.map (vmiLookup libs symcache)

/-- The bases that the printed tree goes on to: those resolved to a symbol with an address. -/
def nextBases (libs : Libs) (symcache : Symcache) (heap : Symbol → Typeinfo) (sym : Symbol) : List (Option Symbol) :=
  ((heap sym).resolve libs symcache).map (Option.filter fun base => base.addr ≠ 0)

/-- The process holds the object `info` where the program looks for that of `sym`. -/
inductive Stored (env : Env) (libs : Libs) (sym : Symbol) : Typeinfo → Prop
  | leaf {head} : typeinfoHead env libs sym = .ok head → head.typeChar ≠ '+' → head.typeChar ≠ '#' →
      Stored env libs sym (.leaf head.typeChar)
  | si {head base} : typeinfoHead env libs sym = .ok head → head.typeChar = '+' →
      readWord env.mem (head.rtti + 8) = .ok base → Stored env libs sym (.si base)
  | vmi {head count bases} : typeinfoHead env libs sym = .ok head → head.typeChar = '#' →
      readWord env.mem (head.rtti + 12) = .ok count → count.toNat = bases.length →
      (∀ i base, bases[i]? = some base →
        readWord env.mem (head.rtti + 16 + 8 * BitVec.ofNat 32 i) = .ok base ∧
          ∃ flags, readWord env.mem (head.rtti + 16 + 8 * BitVec.ofNat 32 i + 4) = .ok flags) →
      Stored env libs sym (.vmi bases)

def Line.isCls : Line → Bool
  | .cls .. => true
  | _ => false

def classLines (run : Emits Fault Line) : List Line := run.events.filter Line.isCls

section

variable {env : Env} {libs : Libs} {symcache : Symcache}

/-- The class lines that a list of looked up bases gives rise to. -/
def linesOf (lines : Symbol → List Line) : Option (Option Symbol) → List Line
  | some (some base) => lines base
  | _ => []

theorem vmiBase_stored {level i : Nat} {rtti base flags : U32} {recurse : Symbol → Emits Fault Line}
    {lines : Symbol → List Line}
    (offsetFlags : readWord env.mem (rtti + 16 + 8 * BitVec.ofNat 32 i + 4) = .ok flags)
    (baseType : readWord env.mem (rtti + 16 + 8 * BitVec.ofNat 32 i) = .ok base)
    (called : ∀ sym, vmiLookup libs symcache base = some sym →
      (recurse sym).stop = none ∧ classLines (recurse sym) = lines sym) :
    (vmiBase env libs symcache level rtti recurse i).stop = none ∧
      classLines (vmiBase env libs symcache level rtti recurse i) =
        linesOf lines (some (vmiLookup libs symcache base)) := by
  simp only [vmiBase, offsetFlags, baseType, Emits.emit_append, classLines]
  cases found : vmiLookup libs symcache base with
  | none => exact ⟨rfl, rfl⟩
  | some sym => exact called sym found

/-- One level of the printed tree. -/
theorem typeinfoBases_stored (level : Nat) {sym : Symbol} {info : Typeinfo} {recurse : Symbol → Emits Fault Line}
    {lines : Symbol → List Line} (stored : Stored env libs sym info)
    (called : ∀ base, some base ∈ info.resolve libs symcache →
      (recurse base).stop = none ∧ classLines (recurse base) = lines base) :
    ∃ head, typeinfoHead env libs sym = .ok head ∧ head.typeChar = info.typeChar ∧
      (typeinfoBases env libs symcache level head recurse).stop = none ∧
      classLines (typeinfoBases env libs symcache level head recurse) =
        (List.range (info.resolve libs symcache).length).flatMap fun i =>
          linesOf lines (info.resolve libs symcache)[i]? := by
  cases stored with
  | @leaf head found notSi notVmi =>
    refine ⟨head, found, rfl, ?_⟩
    rw [typeinfoBases, if_neg notSi, if_neg notVmi]
    exact ⟨rfl, rfl⟩
  | @si head base found isSi baseType =>
    refine ⟨head, found, isSi, ?_⟩
    rw [typeinfoBases, if_pos isSi, siBase, baseType]
    simp only [Typeinfo.resolve] at called ⊢
    cases resolved : symtabAddrAbs libs symcache base with
    | none => exact ⟨rfl, rfl⟩
    | some baseSym =>
      rw [resolved] at called
      have call := called baseSym (List.mem_singleton.mpr rfl)
      simpa [linesOf] using call
  | @vmi head count bases found isVmi baseCount lengthSame entries =>
    refine ⟨head, found, isVmi, ?_⟩
    have notSi : head.typeChar ≠ '+' := by simp [isVmi]
    rw [typeinfoBases, if_neg notSi, if_pos isVmi, vmiBases, baseCount]
    simp only [Typeinfo.resolve, List.length_map, lengthSame] at called ⊢
    have round (i : Nat) (bound : i < bases.length) :
        (vmiBase env libs symcache level head.rtti recurse i).stop = none ∧
          classLines (vmiBase env libs symcache level head.rtti recurse i) =
            linesOf lines (bases.map (vmiLookup libs symcache))[i]? := by
      obtain ⟨base, here⟩ : ∃ base, bases[i]? = some base := ⟨bases[i], List.getElem?_eq_getElem bound⟩
      obtain ⟨baseType, flags, offsetFlags⟩ := entries i base here
      rw [List.getElem?_map, here]
      refine vmiBase_stored offsetFlags baseType ?_
      intro baseSym resolved
      exact called baseSym (List.mem_map.mpr ⟨base, List.mem_of_getElem? here, resolved⟩)
    have ended : (Emits.flow ((List.range bases.length).map
        (vmiBase env libs symcache level head.rtti recurse))).stop = none := by
      rw [Emits.flow_ended]
      intro run member
      obtain ⟨i, bound, rfl⟩ := List.mem_map.mp member
      exact (round i (List.mem_range.mp bound)).1
    refine ⟨ended, ?_⟩
    rw [classLines, Emits.flow_events ended, List.flatMap_map, List.filter_flatMap]
    refine List.flatMap_congr ?_
    intro i bound
    exact (round i (List.mem_range.mp bound)).2

variable {heap : Symbol → Typeinfo}

/-- The class line for a node of the unfolding, on the level of the length of its path. -/
def nodeLine (heap : Symbol → Typeinfo) (level : Nat) (node : List Nat × Symbol) : Line :=
  .cls (level + node.1.length) (heap node.2).typeChar node.2

/-- The class lines that the call for a base of a class prints. -/
def subtreeLines (libs : Libs) (symcache : Symcache) (heap : Symbol → Typeinfo) (fuel level : Nat) (base : Symbol) :
    List Line :=
  if base.addr = 0 then [] else (unfold (nextBases libs symcache heap) fuel base).map (nodeLine heap level)

/-- The indentation buffer is overrun from level 256 on. -/
theorem indent_overrun {level : Nat} : (indentStores level).any (sizeofIndent ≤ ·) = true ↔ 256 ≤ level := by
  rw [List.any_eq_true]
  constructor
  · rintro ⟨offset, inside, after⟩
    have bound := List.mem_range.mp inside
    have behind : sizeofIndent ≤ offset := of_decide_eq_true after
    simp only [sizeofIndent] at behind
    omega
  · intro deep
    have inside : 1024 < 4 * level + 1 := by omega
    exact ⟨1024, List.mem_range.mpr inside, rfl⟩

theorem nextBases_edge {sym base : Symbol} {i : Nat}
    (edge : ((heap sym).resolve libs symcache)[i]? = some (some base)) (nonzero : base.addr ≠ 0) :
    (nextBases libs symcache heap sym)[i]? = some (some base) := by
  simp only [nextBases, List.getElem?_map, edge, Option.map_some, Option.filter, decide_eq_true nonzero, if_true]

/-- The unfolding of a class is its own line, followed by the subtrees of its bases in order. -/
theorem unfold_nodeLine (fuel level : Nat) (sym : Symbol) :
    (unfold (nextBases libs symcache heap) (fuel + 1) sym).map (nodeLine heap level) =
      .cls level (heap sym).typeChar sym ::
        (List.range ((heap sym).resolve libs symcache).length).flatMap fun i =>
          linesOf (subtreeLines libs symcache heap fuel (level + 1)) ((heap sym).resolve libs symcache)[i]? := by
  have count : (nextBases libs symcache heap sym).length = ((heap sym).resolve libs symcache).length :=
    List.length_map _
  rw [unfold, List.map_cons, List.map_flatMap, count]
  refine congrArg₂ List.cons rfl (List.flatMap_congr ?_)
  intro i _
  simp only [nextBases, List.getElem?_map]
  rcases ((heap sym).resolve libs symcache)[i]? with _ | _ | base
  · rfl
  · rfl
  · by_cases zero : base.addr = 0
    · simp [linesOf, subtreeLines, Option.filter, zero]
    · simp only [Option.map_some, Option.filter, decide_eq_true zero, if_true, linesOf, subtreeLines, if_neg zero,
        List.map_map]
      refine List.map_congr_left ?_
      intro node _
      simp only [Function.comp_apply, nodeLine, List.length_cons]
      rw [Nat.add_right_comm, Nat.add_assoc]

theorem recurseTypeinfo_unfold (fuel level : Nat) {sym : Symbol} (room : fuel + level = callDepth)
    (nonzero : sym.addr ≠ 0)
    (stored : ∀ path entry, Path (nextBases libs symcache heap) sym path entry → Stored env libs entry (heap entry))
    (bounded : ∀ path entry, Path (nextBases libs symcache heap) sym path entry → level + path.length ≤ 255) :
    (recurseTypeinfo env libs symcache fuel level sym).stop = none ∧
      classLines (recurseTypeinfo env libs symcache fuel level sym) =
        (unfold (nextBases libs symcache heap) fuel sym).map (nodeLine heap level) := by
  induction fuel generalizing level sym with
  | zero =>
    have shallow := bounded [] sym .nil
    simp only [List.length_nil, callDepth] at shallow room
    omega
  | succ fuel ih =>
    have shallow := bounded [] sym .nil
    simp only [List.length_nil] at shallow
    have called (base : Symbol) (member : some base ∈ (heap sym).resolve libs symcache) :
        (recurseTypeinfo env libs symcache fuel (level + 1) base).stop = none ∧
          classLines (recurseTypeinfo env libs symcache fuel (level + 1) base) =
            subtreeLines libs symcache heap fuel (level + 1) base := by
      obtain ⟨i, edge⟩ := List.mem_iff_getElem?.mp member
      by_cases zero : base.addr = 0
      · obtain ⟨rest, rfl⟩ : ∃ rest, fuel = rest + 1 := ⟨fuel - 1, by simp only [callDepth] at room; omega⟩
        simp only [recurseTypeinfo, subtreeLines, if_pos zero]
        exact ⟨rfl, rfl⟩
      · have step := nextBases_edge edge zero
        rw [subtreeLines, if_neg zero]
        refine ih (level + 1) (by omega) zero ?_ ?_
        · intro path entry rest
          exact stored (i :: path) entry (.cons step rest)
        · intro path entry rest
          have bound := bounded (i :: path) entry (.cons step rest)
          simp only [List.length_cons] at bound
          omega
    obtain ⟨head, found, typeChar, ended, below⟩ := typeinfoBases_stored level (stored [] sym .nil) called
    have fits : ¬(indentStores level).any (sizeofIndent ≤ ·) = true := by
      rw [indent_overrun]
      omega
    rw [recurseTypeinfo, if_neg nonzero, if_neg fits, found]
    simp only
    rw [Emits.flow_emit, Emits.emit_append, Emits.append_of_ended rfl]
    refine ⟨ended, ?_⟩
    have quiet : (head.warnings.map Line.warn).filter Line.isCls = [] := by simp [Line.isCls]
    rw [unfold_nodeLine, ← below, ← typeChar, classLines, List.filter_append, quiet]
    rfl

/-- A round over the base records that ends normally reads both words of its record, and the call for the base that
it looks up ends normally. -/
theorem vmiBase_ended {level i : Nat} {rtti : U32} {recurse : Symbol → Emits Fault Line}
    (ended : (vmiBase env libs symcache level rtti recurse i).stop = none) :
    ∃ base, readWord env.mem (rtti + 16 + 8 * BitVec.ofNat 32 i) = .ok base ∧
      (∃ flags, readWord env.mem (rtti + 16 + 8 * BitVec.ofNat 32 i + 4) = .ok flags) ∧
      ∀ sym, vmiLookup libs symcache base = some sym → (recurse sym).stop = none := by
  simp only [vmiBase] at ended
  split at ended
  · cases ended
  · rename_i flags offsetFlags
    have inBase := (Emits.append_ended.mp ended).2
    split at inBase
    · cases inBase
    · rename_i base baseType
      refine ⟨base, baseType, ⟨flags, offsetFlags⟩, ?_⟩
      intro sym found
      rw [found] at inBase
      exact inBase

/-- The part that prints the bases of a class ends normally only where the object is stored and the calls for
the bases that are looked up end normally. -/
theorem typeinfoBases_ended {level : Nat} {sym : Symbol} {head : TypeinfoHead} {recurse : Symbol → Emits Fault Line}
    (found : typeinfoHead env libs sym = .ok head)
    (ended : (typeinfoBases env libs symcache level head recurse).stop = none) :
    ∃ info, Stored env libs sym info ∧ ∀ base, some base ∈ info.resolve libs symcache → (recurse base).stop = none := by
  unfold typeinfoBases siBase vmiBases at ended
  split at ended
  · rename_i isSi
    split at ended
    · cases ended
    · rename_i baseType read
      refine ⟨.si baseType, .si found isSi read, ?_⟩
      intro base member
      rw [← List.mem_singleton.mp member] at ended
      exact ended
  · rename_i notSi
    split at ended
    · rename_i isVmi
      split at ended
      · cases ended
      · rename_i count counted
        have round (i : Nat) (bound : i < count.toNat) :=
          vmiBase_ended (Emits.flow_ended.mp ended _ (List.mem_map_of_mem (List.mem_range.mpr bound)))
        choose! base read flags called using round
        refine ⟨.vmi ((List.range count.toNat).map base), .vmi found isVmi counted (by simp) ?_, ?_⟩
        · intro i other here
          rw [List.getElem?_map, Option.map_eq_some_iff] at here
          obtain ⟨j, atI, rfl⟩ := here
          obtain ⟨bound, rfl⟩ := List.getElem?_eq_some_iff.mp atI
          rw [List.length_range] at bound
          rw [List.getElem_range]
          exact ⟨read i bound, flags i bound⟩
        · intro sym member
          obtain ⟨other, inBases, looked⟩ := List.mem_map.mp member
          obtain ⟨i, bound, rfl⟩ := List.mem_map.mp inBases
          exact called i (List.mem_range.mp bound) sym looked
    · rename_i notVmi
      exact ⟨.leaf head.typeChar, .leaf found notSi notVmi, fun _ member => absurd member List.not_mem_nil⟩

/-- The call for a class on a level completes: the class has no address, or the indentation fits into its buffer, the
object is stored, and the calls for the bases that are looked up complete one level below. -/
inductive Completes (env : Env) (libs : Libs) (symcache : Symcache) : Nat → Symbol → Prop
  | null {level sym} : sym.addr = 0 → Completes env libs symcache level sym
  | stored {level sym info} : level < 256 → Stored env libs sym info →
      (∀ base, some base ∈ info.resolve libs symcache → Completes env libs symcache (level + 1) base) →
      Completes env libs symcache level sym

theorem recurseTypeinfo_ended {fuel level : Nat} (room : fuel + level = callDepth) (below : level ≤ 256)
    {sym : Symbol} :
    (recurseTypeinfo env libs symcache fuel level sym).stop = none ↔ Completes env libs symcache level sym := by
  constructor
  · intro ended
    induction fuel generalizing level sym with
    | zero => cases ended
    | succ fuel ih =>
      rw [recurseTypeinfo] at ended
      split at ended
      · rename_i zero
        exact .null zero
      · split at ended
        · cases ended
        · rename_i fits
          rw [indent_overrun] at fits
          split at ended
          · cases ended
          · rename_i head found
            obtain ⟨info, stored, called⟩ :=
              typeinfoBases_ended found (Emits.append_ended.mp (Emits.append_ended.mp ended).2).2
            refine .stored (by omega) stored ?_
            intro base member
            exact ih (by omega) (by omega) (called base member)
  · intro completes
    induction completes generalizing fuel with
    | null zero =>
      obtain ⟨rest, rfl⟩ : ∃ rest, fuel = rest + 1 := ⟨fuel - 1, by simp only [callDepth] at room; omega⟩
      rw [recurseTypeinfo, if_pos zero]
      rfl
    | @stored level sym info shallow stored _ ih =>
      obtain ⟨rest, rfl⟩ : ∃ rest, fuel = rest + 1 := ⟨fuel - 1, by simp only [callDepth] at room; omega⟩
      have fits : ¬(indentStores level).any (sizeofIndent ≤ ·) = true := by
        rw [indent_overrun]
        omega
      have calls : ∀ base, some base ∈ info.resolve libs symcache →
          (recurseTypeinfo env libs symcache rest (level + 1) base).stop = none :=
        fun base member => ih base member (by omega) (by omega)
      obtain ⟨head, found, _, ended, _⟩ := typeinfoBases_stored level stored fun base member => ⟨calls base member, rfl⟩
      rw [recurseTypeinfo, if_neg fits, found]
      split
      · rfl
      · simp only
        rw [Emits.flow_emit, Emits.emit_append, Emits.append_of_ended rfl]
        exact ended

/-- The class lines printed for a root are those of the paths from it along the resolved bases,
each path once, in depth-first order. -/
theorem recurseTypeinfo_paths {sym : Symbol} (nonzero : sym.addr ≠ 0)
    (stored : ∀ path entry, Path (nextBases libs symcache heap) sym path entry → Stored env libs entry (heap entry))
    (bounded : ∀ path entry, Path (nextBases libs symcache heap) sym path entry → path.length ≤ 255) :
    (recurseTypeinfo env libs symcache callDepth 0 sym).stop = none ∧
      ∃ paths : List (List Nat × Symbol), paths.Pairwise (fun left right => left.1 < right.1) ∧
        (∀ path entry, (path, entry) ∈ paths ↔ Path (nextBases libs symcache heap) sym path entry) ∧
        classLines (recurseTypeinfo env libs symcache callDepth 0 sym) =
          paths.map fun node => .cls node.1.length (heap node.2).typeChar node.2 := by
  obtain ⟨ended, lines⟩ := recurseTypeinfo_unfold callDepth 0 rfl nonzero stored (by simpa using bounded)
  refine ⟨ended, unfold (nextBases libs symcache heap) callDepth sym, unfold_sorted _ _ _, ?_, ?_⟩
  · intro path entry
    rw [mem_unfold]
    refine ⟨And.left, fun path' => ⟨path', ?_⟩⟩
    have bound := bounded path entry path'
    simp only [callDepth]
    omega
  · rw [lines]
    refine List.map_congr_left ?_
    intro node _
    rw [nodeLine, Nat.zero_add]

end

/-- The type information of `A`, `B : A`, `C : A` and `D : B, C` at 4, 12, 24 and 36. -/
def diamondHost : Env :=
  plainHost 0x10000
    (wordBytes [0, 0, 0, 0, 0, 0x10004, 0, 0, 0x10004, 0, 0, 0, 2, 0x1000c, 0x002, 0x10018, 0x402])
    fun rtti =>
      if rtti = 0x10004 then .classTypeInfo else if rtti = 0x10024 then .vmiClassTypeInfo else .siClassTypeInfo

def diamondLibs : Libs :=
  tableOf [elfTable true 0x10000 [(4, "_ZTI1A"), (12, "_ZTI1B"), (24, "_ZTI1C"), (36, "_ZTI1D")]]

def diamondSyms : List Symbol :=
  [namedAt 0 4 "_ZTI1A", namedAt 0 12 "_ZTI1B", namedAt 0 24 "_ZTI1C", namedAt 0 36 "_ZTI1D"]

def diamondCache : Symcache := (fillGlobals (fun _ => true) diamondSyms).symcache

def diamondHeap (sym : Symbol) : Typeinfo :=
  if sym.addr = 4 then .leaf '-' else if sym.addr = 36 then .vmi [0x1000c, 0x10018] else .si 0x10004

/-- A base that is reached along two paths is printed twice. -/
example : classLines (recurseTypeinfo diamondHost diamondLibs diamondCache callDepth 0 (namedAt 0 36 "_ZTI1D")) =
    [.cls 0 '#' (namedAt 0 36 "_ZTI1D"), .cls 1 '+' (namedAt 0 12 "_ZTI1B"), .cls 2 '-' (namedAt 0 4 "_ZTI1A"),
      .cls 1 '+' (namedAt 0 24 "_ZTI1C"), .cls 2 '-' (namedAt 0 4 "_ZTI1A")] := by
  decide +kernel

theorem diamond_stored : ∀ sym ∈ diamondSyms, Stored diamondHost diamondLibs sym (diamondHeap sym) := by
  have top : typeinfoHead diamondHost diamondLibs (namedAt 0 4 "_ZTI1A") = .ok ⟨'-', 0x10004, []⟩ := rfl
  have left : typeinfoHead diamondHost diamondLibs (namedAt 0 12 "_ZTI1B") = .ok ⟨'+', 0x1000c, []⟩ := rfl
  have right : typeinfoHead diamondHost diamondLibs (namedAt 0 24 "_ZTI1C") = .ok ⟨'+', 0x10018, []⟩ := rfl
  have bottom : typeinfoHead diamondHost diamondLibs (namedAt 0 36 "_ZTI1D") = .ok ⟨'#', 0x10024, []⟩ := rfl
  simp only [diamondSyms, List.forall_mem_cons]
  refine ⟨.leaf top (by decide) (by decide), .si left rfl (by decide), .si right rfl (by decide), ?_, nofun⟩
  have count : readWord diamondHost.mem (0x10024 + 12) = .ok 2 := by decide
  refine .vmi bottom rfl count rfl ?_
  intro i base here
  obtain ⟨bound, _⟩ := List.getElem?_eq_some_iff.mp here
  have cases : i = 0 ∨ i = 1 := by simp at bound; omega
  rcases cases with rfl | rfl
  · cases here
    exact ⟨by decide, 0x002, by decide⟩
  · cases here
    exact ⟨by decide, 0x402, by decide⟩

theorem diamond_ranked {path : List Nat} {entry : Symbol}
    (path' : Path (nextBases diamondLibs diamondCache diamondHeap) (namedAt 0 36 "_ZTI1D") path entry) :
    entry ∈ diamondSyms ∧ path.length + entry.addr.toNat ≤ 36 := by
  have closed : ∀ sym ∈ diamondSyms, ∀ found ∈ nextBases diamondLibs diamondCache diamondHeap sym,
      ∀ base ∈ found, base ∈ diamondSyms ∧ base.addr.toNat < sym.addr.toNat := by
    decide +kernel
  refine path'.ranked (P := (· ∈ diamondSyms)) (fun sym => sym.addr.toNat) ?_ (by decide)
  intro sym member base next
  exact closed sym member _ next base rfl

theorem diamond_paths :
    (recurseTypeinfo diamondHost diamondLibs diamondCache callDepth 0 (namedAt 0 36 "_ZTI1D")).stop = none ∧
      ∃ paths : List (List Nat × Symbol), paths.Pairwise (fun left right => left.1 < right.1) ∧
        (∀ path entry, (path, entry) ∈ paths ↔
          Path (nextBases diamondLibs diamondCache diamondHeap) (namedAt 0 36 "_ZTI1D") path entry) ∧
        classLines (recurseTypeinfo diamondHost diamondLibs diamondCache callDepth 0 (namedAt 0 36 "_ZTI1D")) =
          paths.map fun node => .cls node.1.length (diamondHeap node.2).typeChar node.2 := by
  refine recurseTypeinfo_paths (by decide) ?_ ?_
  · intro path entry path'
    exact diamond_stored entry (diamond_ranked path').1
  · intro path entry path'
    have bound := (diamond_ranked path').2
    omega

end Classgraph
