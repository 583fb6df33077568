import Classgraph.Filter
import Classgraph.Fixup
import Classgraph.RttiReads

namespace Classgraph
open Run Machine

/-- The faults that the lookups of symbols, relocations and mapped objects can end with. -/
inductive ReadFault : Fault → Prop
  | segv (p : U32) : ReadFault (.segv p)
  | assertion {site : Assertion} : site ≠ .typeinfoKind → ReadFault (.assertion site)
  | uninitialised : ReadFault .uninitialised

theorem readByte_readFault (mem : Mem) (p : U32) : Holds ReadFault (readByte mem p) fun b => readByte mem p = .ok b :=
  .result fun _ stopped => readByte_segv stopped ▸ .segv p

theorem readWord_readFault (mem : Mem) (p : U32) : Holds ReadFault (readWord mem p) fun x => readWord mem p = .ok x :=
  .result fun _ stopped => readWord_segv stopped ▸ .segv p

theorem readCStr_readFault (mem : Mem) (p : U32) :
    Holds ReadFault (readCStr mem p) fun str => readCStr mem p = .ok str :=
  .result fun _ stopped => readCStr_segv stopped ▸ .segv p

theorem check_readFault {site : Assertion} (other : site ≠ .typeinfoKind) (condition : Bool) :
    Holds ReadFault (check site condition) fun _ => condition = true := check_result (.assertion other) condition

theorem tryDemangleNoprefix_readFault (env : Env) (mangled : CStr) :
    Holds ReadFault ( tryDemangleNoprefix env mangled) fun _ => True := by
  obtain ⟨demangled, demangle⟩ := tryDemangleNoprefix_total env mangled
  rw [demangle]
  trivial

theorem machoGetSymAddr_readFault (mem : Mem) (sym : U32) :
    Holds ReadFault (machoGetSymAddr mem sym) fun _ => True := by
  refine (readByte_readFault _ _).bind ?_
  intro type _
  split
  · trivial
  · split
    · trivial
    · split
      · exact (readWord_readFault _ _).imp fun _ _ => trivial
      · split
        · exact .assertion (by decide)
        · exact .assertion (by decide)

theorem machoGetSymName_readFault (mem : Mem) (lib : LibraryInfo) (sym : U32) :
    Holds ReadFault (machoGetSymName mem lib sym) fun _ => True := by
  refine (readWord_readFault _ _).bind ?_
  intro strx _
  split
  · trivial
  · exact (readCStr_readFault _ _).bind fun _ _ => trivial

theorem extRelocMatches_readFault (mem : Mem) (reloc addr : U32) :
    Holds ReadFault (extRelocMatches mem reloc addr) fun _ => True := by
  refine (readWord_readFault _ _).bind ?_
  intro address _
  split
  · exact (readWord_readFault _ _).bind fun _ _ => trivial
  · trivial

theorem extRelocSymbol_readFault (env : Env) (slot : Slot) (lib : LibraryInfo) (reloc : U32) :
    Holds ReadFault (extRelocSymbol env slot lib reloc) fun _ => True := by
  refine (readWord_readFault _ _).bind ?_
  intro fields _
  have index : Holds ReadFault (machoGetSymByIndex lib (RelocationInfo.rSymbolnum fields)) fun _ => True :=
    (check_readFault (by decide) _).bind fun _ _ => trivial
  refine index.bind fun sym _ => (machoGetSymAddr_readFault _ _).bind fun addr _ => ?_
  refine (machoGetSymName_readFault _ _ _).bind fun name _ => ?_
  exact (tryDemangleNoprefix_readFault _ _).bind fun _ _ => trivial

theorem extRelocLoop_readFault (env : Env) (slot : Slot) (lib : LibraryInfo) (addr : U32) (n : Nat) (reloc : U32) :
    Holds ReadFault (extRelocLoop env slot lib addr n reloc) fun _ => True := by
  induction n generalizing reloc with
  | zero => trivial
  | succ n ih =>
    refine (extRelocMatches_readFault _ _ _).bind ?_
    intro isMatch _
    split
    · exact (extRelocSymbol_readFault _ _ _ _).bind fun _ _ => trivial
    · exact ih _

theorem bindInfoLoop_readFault (env : Env) (slot : Slot) (lib : LibraryInfo) (addr : U32) (n i : Nat) :
    Holds ReadFault (bindInfoLoop env slot lib addr n i) fun _ => True := by
  induction n generalizing i with
  | zero => trivial
  | succ n ih =>
    rw [bindInfoLoop]
    split
    · exact .uninitialised
    · split
      · rename_i info _ _
        have named : Holds ReadFault (bindInfoSymbol env slot info) fun _ => True :=
          (readCStr_readFault _ _).bind fun _ _ => (tryDemangleNoprefix_readFault _ _).bind fun _ _ => trivial
        exact named.bind fun _ _ => trivial
      · exact ih _

theorem findReloc_readFault (env : Env) (slot : Slot) (lib : LibraryInfo) (addr : U32) :
    Holds ReadFault (symtabMachoFindRelocSymForAddr env slot lib addr) fun _ => True := by
  refine (extRelocLoop_readFault _ _ _ _ _ _).bind ?_
  intro found _
  cases found with
  | some entry => trivial
  | none =>
    dsimp only
    split
    · exact bindInfoLoop_readFault _ _ _ _ _ _
    · trivial

theorem symtabMachoGetPtr_readFault (lib : LibraryInfo) (addr size : U32) :
    Holds ReadFault (symtabMachoGetPtr lib addr size) fun _ => True := by
  unfold symtabMachoGetPtr
  split
  · exact .assertion (by decide)
  · exact (check_readFault (by decide) _).bind fun _ _ => (check_readFault (by decide) _).bind fun _ _ => trivial

/-- Apart from the choice of the character by the captured group, the head of a class only looks things up. -/
theorem typeinfoHead_fault {fail : Fault → Prop} {env : Env} (reads : ∀ fault, ReadFault fault → fail fault)
    (chars : ∀ name kind, env.reTypeinfo name = some kind → Holds fail (machoTypeChar kind) fun _ => True)
    (libs : Libs) (sym : Symbol) : Holds fail (typeinfoHead env libs sym) fun _ => True := by
  unfold typeinfoHead
  dsimp only
  split
  · refine ((symtabMachoGetPtr_readFault _ _ _).imp_error reads).bind fun rtti _ => ?_
    refine ((findReloc_readFault _ _ _ _).imp_error reads).bind ?_
    intro found _
    cases found with
    | none => trivial
    | some rsym =>
      dsimp only
      split
      · trivial
      · rename_i kind captured
        exact (chars rsym.name kind captured).bind fun _ _ => trivial
  · trivial

theorem symtabForeach_readFault {env : Env} {libs : Libs} {fault : Fault}
    (stopped : (symtabForeach env libs).stop = some fault) : ReadFault fault := by
  have elfEntry (slot : Slot) (i : Nat) : Holds ReadFault (elfForeachEntry env slot (libs slot) i) fun _ => True := by
    unfold elfForeachEntry
    split
    · exact .uninitialised
    · unfold elfString
      split
      · exact (tryDemangleNoprefix_readFault _ _).bind fun _ _ => trivial
      · exact .segv 0
  have machoEntry (slot : Slot) (i : Nat) :
      Holds ReadFault (machoForeachEntry env slot (libs slot) i) fun _ => True := by
    refine (readByte_readFault _ _).bind ?_
    intro type _
    split
    · trivial
    · refine (check_readFault (by decide) _).bind fun _ _ => (machoGetSymAddr_readFault _ _).bind fun addr _ => ?_
      refine (machoGetSymName_readFault _ _ _).bind fun name _ => ?_
      exact (tryDemangleNoprefix_readFault _ _).bind fun _ _ => trivial
  obtain ⟨run, member, stopped⟩ := Emits.flow_stopped stopped
  obtain ⟨slot, _, rfl⟩ := List.mem_map.mp member
  rcases Emits.append_stopped stopped with inElf | inMacho
  · split at inElf
    · obtain ⟨i, failed⟩ := Emits.each_stopped inElf
      exact (elfEntry slot i).of_error failed
    · cases inElf
  · split at inMacho
    · obtain ⟨i, failed⟩ := Emits.each_stopped inMacho
      exact (machoEntry slot i).of_error failed
    · cases inMacho

section

variable {env : Env} {libs : Libs} {symcache : Symcache} {level : Nat}

/-- What stops the part that prints the bases of a class is a read of its object or the call for a base. -/
theorem typeinfoBases_stopped {head : TypeinfoHead} {recurse : Symbol → Emits Fault Line} {fault : Fault}
    (stopped : (typeinfoBases env libs symcache level head recurse).stop = some fault) :
    ReadFault fault ∨ ∃ base, HeadBase env libs symcache head base ∧ (recurse base).stop = some fault := by
  unfold typeinfoBases siBase vmiBases at stopped
  split at stopped
  · rename_i isSi
    split at stopped
    · rename_i fault failed
      cases stopped
      exact Or.inl ((readWord_readFault _ _).of_error failed)
    · rename_i baseType read
      split at stopped
      · rename_i base found
        exact Or.inr ⟨base, .si isSi read found, stopped⟩
      · cases stopped
  · split at stopped
    · rename_i isVmi
      split at stopped
      · rename_i fault failed
        cases stopped
        exact Or.inl ((readWord_readFault _ _).of_error failed)
      · rename_i count counted
        obtain ⟨round, member, stopped⟩ := Emits.flow_stopped stopped
        obtain ⟨i, bound, rfl⟩ := List.mem_map.mp member
        unfold vmiBase at stopped
        dsimp only at stopped
        split at stopped
        · rename_i fault failed
          cases stopped
          exact Or.inl ((readWord_readFault _ _).of_error failed)
        · rcases Emits.append_stopped stopped with inLine | inBase
          · cases inLine
          · split at inBase
            · rename_i fault failed
              cases inBase
              exact Or.inl ((readWord_readFault _ _).of_error failed)
            · rename_i baseType read
              split at inBase
              · rename_i base found
                exact Or.inr ⟨base, .vmi isVmi counted (List.mem_range.mp bound) read found, inBase⟩
              · cases inBase
    · cases stopped

/-- A call ends abnormally only where an object cannot be read, where the head of a class fails, or where
the recursion is too deep. -/
theorem recurseTypeinfo_fault {fail : Fault → Prop} (reads : ∀ fault, ReadFault fault → fail fault)
    (heads : ∀ sym, Holds fail (typeinfoHead env libs sym) fun _ => True) (overrun : fail (.outOfBounds .indent))
    (deep : fail .diverges) {fuel : Nat} {sym : Symbol} {fault : Fault}
    (stopped : (recurseTypeinfo env libs symcache fuel level sym).stop = some fault) : fail fault := by
  induction fuel generalizing level sym with
  | zero =>
    cases stopped
    exact deep
  | succ fuel ih =>
    rw [recurseTypeinfo] at stopped
    split at stopped
    · cases stopped
    · split at stopped
      · cases stopped
        exact overrun
      · split at stopped
        · rename_i fault failed
          cases stopped
          exact (heads sym).of_error failed
        · rw [Emits.flow_emit, Emits.append_of_ended rfl, Emits.emit_append] at stopped
          rcases typeinfoBases_stopped stopped with failed | ⟨base, _, below⟩
          · exact reads fault failed
          · exact ih below

/-- The printing of the graph ends abnormally in the enumeration of the symbols or in the call for a root. -/
theorem mainPrint_fault {fail : Fault → Prop} (reads : ∀ fault, ReadFault fault → fail fault)
    (heads : ∀ sym, Holds fail (typeinfoHead env libs sym) fun _ => True) (overrun : fail (.outOfBounds .indent))
    (deep : fail .diverges) {lFilter : CStr → Bool} {fault : Fault}
    (stopped : (mainPrint env libs lFilter).stop = some fault) : fail fault := by
  unfold mainPrint at stopped
  dsimp only at stopped
  split at stopped
  · rename_i fault inSyms
    cases stopped
    exact reads fault (symtabForeach_readFault inSyms)
  · obtain ⟨run, member, stopped⟩ := Emits.flow_stopped stopped
    obtain ⟨root, _, rfl⟩ := List.mem_map.mp member
    exact recurseTypeinfo_fault reads heads overrun deep stopped

end

end Classgraph
