import Classgraph.Output

namespace Classgraph
open PathTree Writes Machine

/-- The base pointers of an object. -/
def Typeinfo.pointers : Typeinfo → List U32
  | .leaf _ => []
  | .si base => [base]
  | .vmi bases => bases

/-- An object in memory. -/
inductive Typeinfo.StoredAt (mem : Mem) (p : U32) : Typeinfo → Prop
  | leaf {typeChar} : typeChar ≠ '+' → typeChar ≠ '#' → Typeinfo.StoredAt mem p (.leaf typeChar)
  | si {base} : readWord mem (p + 8) = .ok base → Typeinfo.StoredAt mem p (.si base)
  | vmi {count bases} : readWord mem (p + 12) = .ok count → count.toNat = bases.length →
      (∀ i base, bases[i]? = some base → readWord mem (p + 16 + 8 * BitVec.ofNat 32 i) = .ok base ∧
        ∃ flags, readWord mem (p + 16 + 8 * BitVec.ofNat 32 i + 4) = .ok flags) →
      Typeinfo.StoredAt mem p (.vmi bases)

theorem Typeinfo.StoredAt.stored {env : Env} {libs : Libs} {sym : Symbol} {p : U32} {info : Typeinfo}
    {warnings : List Warning} (words : info.StoredAt env.mem p)
    (head : typeinfoHead env libs sym = .ok ⟨info.typeChar, p, warnings⟩) : Stored env libs sym info := by
  cases words with
  | leaf notSi notVmi => exact .leaf head notSi notVmi
  | si base => exact .si head rfl base
  | vmi count length entries => exact .vmi head rfl count length entries

/-- The program looks addresses up among all symbols, and does nothing for one without an address. -/
theorem lastWith_defined (addr : U32) (syms : List Symbol) :
    (lastWith Symbol.addr addr syms).filter (fun sym => sym.addr ≠ 0) =
      lastWith Symbol.addr addr (syms.filter fun sym => sym.addr ≠ 0) := by
  by_cases zero : addr = 0
  · have none : lastWith Symbol.addr addr (syms.filter fun sym => sym.addr ≠ 0) = none := by
      rw [Option.eq_none_iff_forall_ne_some]
      intro sym found
      obtain ⟨member, same⟩ := lastWith_spec found
      exact of_decide_eq_true (List.mem_filter.mp member).2 (same.trans zero)
    rw [none, Option.filter_eq_none_iff]
    intro sym found nonzero
    exact of_decide_eq_true nonzero ((lastWith_spec found).2.trans zero)
  · have nonzero (sym : Symbol) (same : sym.addr = addr) : decide (sym.addr ≠ 0) = true :=
      decide_eq_true fun symZero => zero (same.symm.trans symZero)
    rw [lastWith_filter fun sym _ same => nonzero sym same]
    cases found : lastWith Symbol.addr addr syms with
    | none => rfl
    | some sym => exact if_pos (nonzero sym (lastWith_spec found).2)

/-- Classes with their places in memory, those of the primary library among them, and the type information object at
each address. -/
structure TypeGraph where
  classes : List Symbol
  place : Symbol → U32
  isPrimary : Symbol → Bool
  objects : U32 → Typeinfo

namespace TypeGraph

variable (graph : TypeGraph)

def info (sym : Symbol) : Typeinfo := graph.objects (graph.place sym)

/-- An undefined symbol has the address 0. -/
def defined : List Symbol := graph.classes.filter fun sym => sym.addr ≠ 0

/-- The class that a base pointer stands for. -/
def classAt (addr : U32) : Option Symbol := lastWith graph.place addr graph.defined

def bases (sym : Symbol) : List Symbol := (graph.info sym).pointers.filterMap graph.classAt

/-- The classes of the primary library in the order of their names. Of all classes of one name the first one counts. -/
def roots : List Symbol :=
  (graph.classes.foldl Std.TreeSet.insert ({} : Syms)).toList.filter fun sym => graph.isPrimary sym ∧ sym.addr ≠ 0

/-- Below each class its bases, and below them theirs. -/
def forest : Forest Symbol := .grow graph.bases callDepth graph.roots

/-- No class is its own base, and none is more than 255 levels above another. -/
def Shallow : Prop :=
  ∃ rank : Symbol → Nat, ∀ sym ∈ graph.defined, rank sym ≤ 255 ∧ ∀ base ∈ graph.bases sym, rank base < rank sym

/-- What the program finds in a process are the classes of the graph: it enumerates them, looks up the base pointers
as they are meant, and reads the objects. -/
structure FoundIn (env : Env) (libs : Libs) (lFilter : CStr → Bool) : Prop where
  enumerated : (symtabForeach env libs).stop = none
  kept : keptSyms lFilter (symtabForeach env libs).events = graph.classes
  isPrimary : ∀ sym ∈ graph.classes, (libs sym.lib).isPrimary = graph.isPrimary sym
  next : ∀ sym ∈ graph.defined,
    nextBases libs (fillGlobals lFilter (symtabForeach env libs).events).symcache graph.info sym =
      (graph.info sym).pointers.map graph.classAt
  stored : ∀ sym ∈ graph.defined, Stored env libs sym (graph.info sym)

variable {graph}

theorem mem_defined {sym : Symbol} : sym ∈ graph.defined ↔ sym ∈ graph.classes ∧ sym.addr ≠ 0 := by
  rw [defined, List.mem_filter, decide_eq_true_eq]

theorem classAt_defined {addr : U32} {sym : Symbol} (found : graph.classAt addr = some sym) : sym ∈ graph.defined :=
  (lastWith_spec found).1

theorem bases_defined {sym base : Symbol} (member : base ∈ graph.bases sym) : base ∈ graph.defined := by
  obtain ⟨_, _, found⟩ := List.mem_filterMap.mp member
  exact classAt_defined found

section

variable {env : Env} {libs : Libs} {lFilter : CStr → Bool} (found : graph.FoundIn env libs lFilter)
include found

theorem FoundIn.root {root : Symbol}
    (isRoot : root ∈ mainRoots libs (fillGlobals lFilter (symtabForeach env libs).events)) : root ∈ graph.classes := by
  have first := (mem_mainRoots.mp isRoot).first
  rw [found.kept] at first
  exact List.mem_of_find?_eq_some first

theorem FoundIn.roots :
    (mainRoots libs (fillGlobals lFilter (symtabForeach env libs).events)).filter (fun sym => sym.addr ≠ 0) =
      graph.roots := by
  rw [mainRoots, fillGlobals_eq, found.kept, TypeGraph.roots, List.filter_filter]
  refine List.filter_congr ?_
  intro sym member
  have isClass : sym ∈ graph.classes := by
    rcases (mem_toList_foldl_insert _ _ sym).mp member with old | new
    · cases old
    · exact List.mem_of_find?_eq_some new.2
  rw [found.isPrimary sym isClass, Bool.decide_and, Bool.and_comm, Bool.decide_eq_true]

theorem FoundIn.reduced {sym : Symbol} (isClass : sym ∈ graph.defined) :
    (nextBases libs (fillGlobals lFilter (symtabForeach env libs).events).symcache graph.info sym).reduceOption =
      graph.bases sym := by
  rw [found.next sym isClass, List.reduceOption, List.filterMap_map]
  rfl

/-- The hierarchy that the program prints is that of the graph. -/
theorem FoundIn.hierarchy : Classgraph.hierarchy env libs lFilter graph.info = graph.forest := by
  have kept : ∀ root ∈ graph.roots, root ∈ graph.defined := by
    intro root member
    rw [← found.roots, List.mem_filter, decide_eq_true_eq] at member
    exact mem_defined.mpr ⟨found.root member.1, member.2⟩
  rw [Classgraph.hierarchy, found.roots, forest]
  refine Forest.grow_congr (P := (· ∈ graph.defined)) ?_ callDepth kept
  intro sym isClass
  exact ⟨found.reduced isClass, fun base member => bases_defined member⟩

/-- The classes that the roots lead to are defined. -/
theorem FoundIn.readings (shallow : graph.Shallow) : Readings env libs lFilter graph.info := by
  obtain ⟨rank, depth⟩ := shallow
  have below {root entry : Symbol} {path : List Nat}
      (isRoot : root ∈ mainRoots libs (fillGlobals lFilter (symtabForeach env libs).events))
      (nonzero : root.addr ≠ 0)
      (path' : Path (nextBases libs (fillGlobals lFilter (symtabForeach env libs).events).symcache graph.info) root
        path entry) : entry ∈ graph.defined ∧ path.length ≤ 255 := by
    have start := mem_defined.mpr ⟨found.root isRoot, nonzero⟩
    have ranked := path'.ranked (P := (· ∈ graph.defined)) rank ?_ start
    · have top := (depth root start).1
      exact ⟨ranked.1, by omega⟩
    · intro sym isClass base next
      have member : base ∈ graph.bases sym := by
        rw [← found.reduced isClass]
        exact List.reduceOption_mem_iff.mpr next
      exact ⟨bases_defined member, (depth sym isClass).2 base member⟩
  refine ⟨found.enumerated, ?_, ?_⟩
  · intro root isRoot nonzero path entry path'
    exact found.stored entry (below isRoot nonzero path').1
  · intro root isRoot nonzero path entry path'
    exact (below isRoot nonzero path').2

/-- The output of the program can be read back as the forest of the graph. -/
theorem FoundIn.printed (shallow : graph.Shallow) (names : ∀ sym ∈ graph.classes, '\n' ∉ sym.nameDemangled) :
    (mainPrint env libs lFilter).stop = none ∧
      readHierarchy (outputText (tree (mainPrint env libs lFilter)).events) =
        graph.forest.map fun sym => ((graph.info sym).typeChar, sym.nameDemangled) := by
  have readings := found.readings shallow
  obtain ⟨readable, classes⟩ := readings.printed (by rwa [found.kept])
  rw [← found.hierarchy]
  exact ⟨readings.classLines.1, readHierarchy_outline readable classes⟩

end

end TypeGraph

end Classgraph
