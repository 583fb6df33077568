import Classgraph.ReadFaults

namespace Classgraph
open Run Machine

/-- The faults other than a store out of bounds. -/
def NoStore (fault : Fault) : Prop := ∀ buffer, fault ≠ .outOfBounds buffer

theorem ReadFault.noStore {fault : Fault} (reads : ReadFault fault) : NoStore fault := by
  cases reads with
  | segv p => exact fun _ => nofun
  | assertion other => exact fun _ => nofun
  | uninitialised => exact fun _ => nofun

theorem machoTypeChar_noStore (kind : CStr) : Holds NoStore (machoTypeChar kind) fun _ => True := by
  unfold machoTypeChar
  repeat' split
  all_goals first | trivial | exact fun buffer => nofun

theorem typeinfoHead_noStore (env : Env) (libs : Libs) (sym : Symbol) :
    Holds NoStore (typeinfoHead env libs sym) fun _ => True :=
  typeinfoHead_fault (fun _ => ReadFault.noStore) (fun _ _ _ => machoTypeChar_noStore _) libs sym

/-- A chain of bases of the given length that the printed tree follows. -/
inductive BaseChain (env : Env) (libs : Libs) (symcache : Symcache) : Nat → Symbol → Symbol → Prop
  | nil {sym} : BaseChain env libs symcache 0 sym sym
  | cons {n sym base entry} : BaseOf env libs symcache sym base → BaseChain env libs symcache n base entry →
      BaseChain env libs symcache (n + 1) sym entry

section

variable {env : Env} {libs : Libs} {symcache : Symcache} {level : Nat}

/-- An overrun below a class happens in the call for one of its bases. -/
theorem typeinfoBases_overrun {head : TypeinfoHead} {recurse : Symbol → Emits Fault Line}
    (overrun : (typeinfoBases env libs symcache level head recurse).stop = some (.outOfBounds .indent)) :
    ∃ base, HeadBase env libs symcache head base ∧ (recurse base).stop = some (.outOfBounds .indent) := by
  rcases typeinfoBases_stopped overrun with failed | inBase
  · exact absurd rfl (failed.noStore .indent)
  · exact inBase

/-- Where no chain goes below level 255, no call overruns the buffer. -/
theorem recurseTypeinfo_fits {fuel : Nat} (room : fuel + level = callDepth) {sym : Symbol}
    (bounded : sym.addr ≠ 0 → ∀ n entry, BaseChain env libs symcache n sym entry → level + n ≤ 255) :
    (recurseTypeinfo env libs symcache fuel level sym).stop ≠ some (.outOfBounds .indent) := by
  intro overrun
  induction fuel generalizing level sym with
  | zero => cases overrun
  | succ fuel ih =>
    rw [recurseTypeinfo] at overrun
    split at overrun
    · cases overrun
    · rename_i nonzero
      have shallow := bounded nonzero 0 sym .nil
      have fits : ¬(indentStores level).any (sizeofIndent ≤ ·) = true := by
        rw [indent_overrun]
        omega
      rw [if_neg fits] at overrun
      split at overrun
      · rename_i fault failed
        cases overrun
        exact absurd rfl ((typeinfoHead_noStore _ _ _).of_error failed .indent)
      · rename_i head found
        rw [Emits.flow_emit, Emits.append_of_ended rfl, Emits.emit_append] at overrun
        obtain ⟨base, resolved, overrun⟩ := typeinfoBases_overrun overrun
        refine ih (by omega) ?_ overrun
        intro baseNonzero n entry chain
        have bound := bounded nonzero (n + 1) entry (.cons ⟨nonzero, ⟨head, found, resolved⟩, baseNonzero⟩ chain)
        omega

/-- A call below which a chain goes beyond level 255 does not return. -/
theorem BaseChain.stops {n fuel : Nat} {sym entry : Symbol} (chain : BaseChain env libs symcache n sym entry)
    (nonzero : sym.addr ≠ 0) (deep : 256 ≤ level + n) :
    (recurseTypeinfo env libs symcache fuel level sym).stop ≠ none := by
  intro ended
  induction chain generalizing fuel level with
  | nil =>
    cases fuel with
    | zero => cases ended
    | succ fuel =>
      have overrun : (indentStores level).any (sizeofIndent ≤ ·) = true := indent_overrun.mpr (by omega)
      rw [recurseTypeinfo, if_neg nonzero, if_pos overrun] at ended
      cases ended
  | cons edge _ ih =>
    obtain ⟨head, found, resolved⟩ := edge.resolved
    cases fuel with
    | zero => cases ended
    | succ fuel =>
      rw [recurseTypeinfo, if_neg nonzero] at ended
      split at ended
      · cases ended
      · simp only [found] at ended
        have basesEnded := (Emits.append_ended.mp (Emits.append_ended.mp ended).2).2
        exact ih edge.baseNonzero (by omega) (resolved.printed basesEnded).1

end

/-- No chain of bases of a root is longer than 255 steps. -/
def Shallow (env : Env) (libs : Libs) (lFilter : CStr → Bool) : Prop :=
  ∀ root ∈ mainRoots libs (fillGlobals lFilter (symtabForeach env libs).events), root.addr ≠ 0 → ∀ n entry,
    BaseChain env libs (fillGlobals lFilter (symtabForeach env libs).events).symcache n root entry → n ≤ 255

/-- A run in which no chain of bases is longer than 255 steps stores behind the end of the indentation buffer
nowhere, and one in which some chain is longer never ends normally. -/
theorem mainPrint_indent (env : Env) (libs : Libs) (lFilter : CStr → Bool) :
    (Shallow env libs lFilter → (mainPrint env libs lFilter).stop ≠ some (.outOfBounds .indent)) ∧
      (¬Shallow env libs lFilter → (mainPrint env libs lFilter).stop ≠ none) := by
  refine ⟨?_, ?_⟩
  · intro shallow overrun
    unfold mainPrint at overrun
    dsimp only at overrun
    split at overrun
    · rename_i fault stopped
      cases overrun
      exact absurd rfl ((symtabForeach_readFault stopped).noStore .indent)
    · obtain ⟨run, member, overrun⟩ := Emits.flow_stopped overrun
      obtain ⟨root, isRoot, rfl⟩ := List.mem_map.mp member
      refine recurseTypeinfo_fits rfl ?_ overrun
      intro nonzero n entry chain
      have bound := shallow root isRoot nonzero n entry chain
      omega
  · intro deep ended
    refine deep ?_
    intro root isRoot nonzero n entry chain
    refine Nat.le_of_not_lt fun long => ?_
    rw [mainPrint_eq ended, Emits.flow_ended] at ended
    exact chain.stops nonzero (by omega) (ended _ (List.mem_map_of_mem isRoot))

/-- A class that is its own base. -/
theorem selfBase_overrun {env : Env} {libs : Libs} {symcache : Symcache} {sym : Symbol} {head : TypeinfoHead}
    {baseType : U32} (nonzero : sym.addr ≠ 0) (found : typeinfoHead env libs sym = .ok head)
    (isSi : head.typeChar = '+') (read : readWord env.mem (head.rtti + 8) = .ok baseType)
    (own : symtabAddrAbs libs symcache baseType = some sym) {fuel level : Nat} (room : fuel + 1 + level = callDepth) :
    (recurseTypeinfo env libs symcache (fuel + 1) level sym).stop = some (.outOfBounds .indent) := by
  induction fuel generalizing level with
  | zero =>
    have overrun : (indentStores level).any (sizeofIndent ≤ ·) = true := by
      rw [indent_overrun]
      simp only [callDepth] at room
      omega
    rw [recurseTypeinfo, if_neg nonzero, if_pos overrun]
    rfl
  | succ fuel ih =>
    have fits : ¬(indentStores level).any (sizeofIndent ≤ ·) = true := by
      rw [indent_overrun]
      simp only [callDepth] at room
      omega
    rw [recurseTypeinfo, if_neg nonzero, if_neg fits]
    simp only [found]
    rw [Emits.flow_emit, Emits.append_of_ended rfl, Emits.emit_append, typeinfoBases, if_pos isSi, siBase, read]
    simp only [own]
    exact ih (by omega)

def loopHost : Env := objectHost 12 0x2000

def loopCache : Symcache := (fillGlobals (fun _ => true) [objectSym]).symcache

/-- What the program finds in the library whose only class points to itself as its base. -/
def loopFacts : Except Fault (Bool × LibraryInfo × TypeinfoHead) := do
  let result ← symtabMachoInit loopHost.malloc loopHost.mem objectLib
  let libs := tableOf [result]
  let head ← typeinfoHead loopHost libs objectSym
  return (symtabForeach loopHost libs = ⟨[objectSym], none⟩ ∧ mainRoots libs (fillGlobals (fun _ => true) [objectSym]) =
    [objectSym] ∧ head.typeChar = '+' ∧ readWord loopHost.mem (head.rtti + 8) = .ok 0x2000 ∧
    symtabAddrAbs libs loopCache 0x2000 = some objectSym, result, head)

/-- A Mach-O library with a class that is its own base is accepted, and overruns the buffer. -/
theorem loop_overruns : ∃ result, symtabMachoInit loopHost.malloc loopHost.mem objectLib = .ok result ∧
    (mainPrint loopHost (tableOf [result]) fun _ => true).stop = some (.outOfBounds .indent) := by
  have run : loopFacts.map Prod.fst = .ok true := by decide +kernel
  cases facts : loopFacts with
  | error fault =>
    rw [facts] at run
    cases run
  | ok found =>
    obtain ⟨result, init, rest⟩ := bind_ok.mp facts
    obtain ⟨head, isHead, same⟩ := bind_ok.mp rest
    rw [facts] at run
    cases pure_ok.mp same
    obtain ⟨foreach, roots, isSi, read, own⟩ := of_decide_eq_true (Except.ok.inj run)
    refine ⟨result, init, ?_⟩
    have overrun : (recurseTypeinfo loopHost (tableOf [result]) (fillGlobals (fun _ => true) [objectSym]).symcache
        callDepth 0 objectSym).stop = some (.outOfBounds .indent) :=
      selfBase_overrun (by decide) isHead isSi read own rfl
    rw [mainPrint, foreach]
    simp only [roots]
    rw [List.map_singleton, Emits.flow_cons, Emits.append_of_stopped overrun]
    exact overrun

end Classgraph
