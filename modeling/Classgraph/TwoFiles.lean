import Classgraph.VmRanges

namespace Classgraph
open Run Machine

/-- Two memories in which the bind information is the same: its bytes, and the names behind its
`BIND_OPCODE_SET_SYMBOL` opcodes. -/
structure SameBind (mem mem' : Mem) (start stop : U32) : Prop where
  bytes : ∀ p, start ≤ p → p < stop → mem.byte p = mem'.byte p
  names : ∀ p b, start ≤ p → p < stop → mem.byte p = some b → (b &&& bindOpcodeMask).toNat = 0x40 →
    mem.cstr (p + 1) = mem'.cstr (p + 1)

/-- Two states of the decoder that differ only in the address of the segment and in the records. With
`ordered` they do not differ at all. -/
structure AlikeStates (mem mem' : Mem) (ordered : Prop) (st st' : BindState) : Prop where
  shape : ∃ segStartAddr dbi, st' = { st with segStartAddr := segStartAddr, dbi := dbi }
  same : ordered → st' = st
  name : mem.cstr st.symbolName = mem'.cstr st.symbolName
  names : ∀ info ∈ st.dbi, mem.cstr info.symbolname = mem'.cstr info.symbolname

/-- The same for what an opcode leads to. A position is one in the range or behind a string in it. -/
def AlikeNext (mem mem' : Mem) (ordered : Prop) (start : U32) :
    Option (U32 × BindState) → Option (U32 × BindState) → Prop :=
  Option.Rel fun next next' =>
    next'.1 = next.1 ∧ (start ≤ next.1 ∨ next.1 = 0) ∧ AlikeStates mem mem' ordered next.2 next'.2

section

variable {mem mem' : Mem} {start stop : U32} (bindSame : SameBind mem mem' start stop)
include bindSame

theorem readByte_same {p : U32} (after : start ≤ p) (before : p < stop) : readByte mem p = readByte mem' p := by
  rw [readByte, readByte, bindSame.bytes p after before]

theorem uleb128Loop_related {n : Nat} {p : U32} {bit : Nat} {result : U64} (after : start ≤ p) (before : p ≤ stop) :
    Related (fun next next' => next = next' ∧ start ≤ next.1 ∧ next.1 ≤ stop) (uleb128Loop mem stop n p bit result)
      (uleb128Loop mem' stop n p bit result) := by
  induction n generalizing p bit result with
  | zero => rfl
  | succ n ih =>
    rw [uleb128Loop, uleb128Loop]
    split
    · exact ⟨rfl, after, before⟩
    · rename_i notEnd
      rw [readByte_same bindSame after (by bv_omega)]
      cases readByte mem' p with
      | error fault => rfl
      | ok byte =>
        simp only [bind, Except.bind]
        split
        · exact ⟨rfl, after, before⟩
        · split
          · exact ih (by bv_omega) (by bv_omega)
          · exact ⟨rfl, by bv_omega, by bv_omega⟩

theorem readUleb128_related {p : U32} (after : start ≤ p) (before : p ≤ stop) :
    Related (fun next next' => next = next' ∧ start ≤ next.1 ∧ next.1 ≤ stop) (readUleb128 mem p stop)
      (readUleb128 mem' p stop) := uleb128Loop_related bindSame after before

theorem sleb128Loop_related {n : Nat} {p : U32} {bit : Nat} {result : U64} (after : start ≤ p) (before : p ≤ stop) :
    Related (fun next next' => next = next' ∧ start ≤ next.1 ∧ next.1 ≤ stop) (sleb128Loop mem stop n p bit result)
      (sleb128Loop mem' stop n p bit result) := by
  induction n generalizing p bit result with
  | zero => rfl
  | succ n ih =>
    rw [sleb128Loop, sleb128Loop]
    split
    · exact ⟨rfl, after, before⟩
    · rename_i notEnd
      rw [readByte_same bindSame after (by bv_omega)]
      cases readByte mem' p with
      | error fault => rfl
      | ok byte =>
        simp only [bind, Except.bind]
        split
        · exact ih (by bv_omega) (by bv_omega)
        · split
          · exact ⟨rfl, by bv_omega, by bv_omega⟩
          · exact ⟨rfl, by bv_omega, by bv_omega⟩

theorem readSleb128_related {p : U32} (after : start ≤ p) (before : p ≤ stop) :
    Related (fun next next' => next = next' ∧ start ≤ next.1 ∧ next.1 ≤ stop) (readSleb128 mem p stop)
      (readSleb128 mem' p stop) := sleb128Loop_related bindSame after before

end

section

variable {mem mem' : Mem} {ordered : Prop} {st st' : BindState}

/-- A change that the segment's address and the records have no part in. -/
theorem AlikeStates.update (alike : AlikeStates mem mem' ordered st st') (change : BindState → BindState)
    (keeps : ∀ (st : BindState) segStartAddr dbi, change { st with segStartAddr := segStartAddr, dbi := dbi } =
      { change st with segStartAddr := segStartAddr, dbi := dbi })
    (name : (change st).symbolName = st.symbolName) (names : (change st).dbi = st.dbi) :
    AlikeStates mem mem' ordered (change st) (change st') := by
  obtain ⟨segStartAddr, dbi, rfl⟩ := alike.shape
  refine ⟨⟨segStartAddr, dbi, keeps st segStartAddr dbi⟩, ?_, ?_, ?_⟩
  · intro isOrdered
    exact congrArg change (alike.same isOrdered)
  · rw [name]
    exact alike.name
  · rw [names]
    exact alike.names

theorem bindRecord_related (alike : AlikeStates mem mem' ordered st st') (pass : BindPass) :
    Related (AlikeStates mem mem' ordered) (bindRecord pass st) (bindRecord pass st') := by
  obtain ⟨segStartAddr, dbi, shape⟩ := alike.shape
  cases pass with
  | count => exact alike.update (fun st => { st with n := st.n + 1 }) (fun _ _ _ => rfl) rfl rfl
  | store size =>
    rw [bindRecord, bindRecord, shape]
    split
    · refine ⟨⟨segStartAddr, _, rfl⟩, ?_, alike.name, ?_⟩
      · intro isOrdered
        have same := alike.same isOrdered
        rw [shape] at same
        rw [same]
      · intro info member
        rcases List.mem_append.mp member with old | new
        · exact alike.names info old
        · rw [List.mem_singleton.mp new]
          exact alike.name
    · exact rfl

theorem bindRepeat_related (pass : BindPass) (skip : U32) (count : Nat) (alike : AlikeStates mem mem' ordered st st') :
    Related (AlikeStates mem mem' ordered) (bindRepeat pass skip count st) (bindRepeat pass skip count st') := by
  induction count generalizing st st' with
  | zero => exact alike
  | succ count ih =>
    refine (bindRecord_related alike pass).bind ?_
    intro next next' nextAlike
    exact ih (nextAlike.update
      (fun st => { st with segOffset := st.segOffset + (skip + sizeofPointer).setWidth 64 }) (fun _ _ _ => rfl) rfl rfl)

theorem AlikeStates.setSymbol (alike : AlikeStates mem mem' ordered st st') {p : U32}
    (name : mem.cstr p = mem'.cstr p) :
    AlikeStates mem mem' ordered { st with symbolName := p } { st' with symbolName := p } := by
  obtain ⟨segStartAddr, dbi, rfl⟩ := alike.shape
  refine ⟨⟨segStartAddr, dbi, rfl⟩, ?_, name, alike.names⟩
  intro isOrdered
  exact congrArg (fun st : BindState => { st with symbolName := p }) (alike.same isOrdered)

theorem AlikeStates.setSegment (alike : AlikeStates mem mem' ordered st st') (segOffset : U64) {vmaddr vmaddr' : U64}
    (same : ordered → vmaddr' = vmaddr) :
    AlikeStates mem mem' ordered { st with segStartAddr := vmaddr, segOffset := segOffset }
      { st' with segStartAddr := vmaddr', segOffset := segOffset } := by
  refine ⟨?_, ?_, alike.name, alike.names⟩
  · obtain ⟨segStartAddr, dbi, rfl⟩ := alike.shape
    exact ⟨vmaddr', dbi, rfl⟩
  · intro isOrdered
    rw [alike.same isOrdered, same isOrdered]

variable {segs segs' : List U32} {start stop : U32}

/-- Two lists of segments among which an index finds the same, except that the addresses may differ. -/
def AlikeSegs (mem mem' : Mem) (ordered : Prop) (segs segs' : List U32) : Prop :=
  ∀ segIndex, Related (fun vmaddr vmaddr' => ordered → vmaddr' = vmaddr) (segStartAddress mem segIndex segs)
    (segStartAddress mem' segIndex segs')

/-- One opcode in both memories. -/
theorem bindOpcode_related (bindSame : SameBind mem mem' start stop) (segsAlike : AlikeSegs mem mem' ordered segs segs')
    (pass : BindPass) {opcode immediate : U8} {p : U32} (after : start ≤ p) (before : p ≤ stop)
    (name : opcode.toNat = 0x40 → mem.cstr p = mem'.cstr p) (alike : AlikeStates mem mem' ordered st st') :
    Related (AlikeNext mem mem' ordered start) (bindOpcode mem segs stop pass opcode immediate p st)
      (bindOpcode mem' segs' stop pass opcode immediate p st') := by
  have stays {q : U32} {next next' : BindState} (here : start ≤ q)
      (nextAlike : AlikeStates mem mem' ordered next next') :
      Related (AlikeNext mem mem' ordered start) (pure (some (q, next)) : Except Fault (Option (U32 × BindState)))
        (pure (some (q, next'))) := .some ⟨rfl, Or.inl here, nextAlike⟩
  have uleb {q : U32} {rest rest' : U32 × U64 → Except Fault (Option (U32 × BindState))} (here : start ≤ q)
      (bound : q ≤ stop) (tail : ∀ next : U32 × U64, start ≤ next.1 → next.1 ≤ stop →
        Related (AlikeNext mem mem' ordered start) (rest next) (rest' next)) :
      Related (AlikeNext mem mem' ordered start) (readUleb128 mem q stop >>= rest)
        (readUleb128 mem' q stop >>= rest') := by
    refine (readUleb128_related bindSame here bound).bind ?_
    rintro next _ ⟨rfl, later, inside⟩
    exact tail next later inside
  have moved (delta : U64) {next next' : BindState} (nextAlike : AlikeStates mem mem' ordered next next') :
      AlikeStates mem mem' ordered { next with segOffset := next.segOffset + delta }
        { next' with segOffset := next'.segOffset + delta } :=
    nextAlike.update (fun st => { st with segOffset := st.segOffset + delta }) (fun _ _ _ => rfl) rfl rfl
  unfold bindOpcode
  generalize opcode.toNat = code at *
  split
  · exact stays after (alike.update (fun st => { st with done := true }) (fun _ _ _ => rfl) rfl rfl)
  · exact stays after alike
  · exact uleb after before fun next later _ => stays later alike
  · exact stays after alike
  · have sameName := name rfl
    rw [readCStr, readCStr, ← sameName]
    cases read : mem.cstr p with
    | none => rfl
    | some str =>
      have bound := Mem.cstr_end read
      exact .some ⟨rfl, by bv_omega, alike.setSymbol sameName⟩
  · exact stays after alike
  · refine (readSleb128_related bindSame after before).bind ?_
    rintro next _ ⟨rfl, later, _⟩
    exact stays later (alike.update (fun st => { st with addend := next.2 }) (fun _ _ _ => rfl) rfl rfl)
  · refine (segsAlike immediate).bind ?_
    intro vmaddr vmaddr' same
    refine uleb after before ?_
    intro next later _
    exact stays later (alike.setSegment next.2 same)
  · exact uleb after before fun next later _ => stays later (moved next.2 alike)
  · exact (bindRecord_related alike pass).bind fun _ _ nextAlike => stays after (moved _ nextAlike)
  · refine (bindRecord_related alike pass).bind ?_
    intro recorded recorded' nextAlike
    exact uleb after before fun next later _ => stays later (moved _ nextAlike)
  · exact (bindRecord_related alike pass).bind fun _ _ nextAlike => stays after (moved _ nextAlike)
  · refine uleb after before ?_
    intro first later inside
    refine uleb later inside ?_
    intro second last _
    refine (bindRepeat_related pass _ _ alike).bind ?_
    intro repeated repeated' nextAlike
    exact stays last nextAlike
  · exact .none

/-- A pass over the bind information in both memories. -/
theorem bindLoop_related (bindSame : SameBind mem mem' start stop) (segsAlike : AlikeSegs mem mem' ordered segs segs')
    (pass : BindPass) {fuel : Nat} {p : U32} (place : start ≤ p ∨ p = 0) (alike : AlikeStates mem mem' ordered st st') :
    Related (Option.Rel (AlikeStates mem mem' ordered)) (bindLoop mem segs stop pass fuel p st)
      (bindLoop mem' segs' stop pass fuel p st') := by
  induction fuel generalizing p st st' with
  | zero => rfl
  | succ fuel ih =>
    have done : st'.done = st.done := by
      obtain ⟨segStartAddr, dbi, rfl⟩ := alike.shape
      rfl
    rw [bindLoop, bindLoop, done]
    split
    · exact .some alike
    · rename_i goesOn
      have before : ¬stop ≤ p := fun ended => goesOn (Or.inr ended)
      rcases place with after | isNull
      · have byteSame := bindSame.bytes p after (by bv_omega)
        rw [readByte, readByte, ← byteSame]
        cases read : mem.byte p with
        | none => rfl
        | some byte =>
          have name := bindSame.names p byte after (by bv_omega) read
          refine (bindOpcode_related bindSame segsAlike pass (by bv_omega) (by bv_omega) name alike).bind ?_
          intro next next' nextAlike
          cases nextAlike with
          | none => exact .none
          | some pairAlike =>
            obtain ⟨samePlace, placed, statesAlike⟩ := pairAlike
            simp only [samePlace]
            exact ih placed statesAlike
      · rw [isNull, readByte, readByte, mem.null, mem'.null]
        exact rfl

/-- The same for the decoded bind information. -/
def AlikeInfo (mem mem' : Mem) (ordered : Prop) :
    Option (List DyldBindInfo × Nat) → Option (List DyldBindInfo × Nat) → Prop :=
  Option.Rel fun info info' => info'.2 = info.2 ∧ (ordered → info'.1 = info.1) ∧
    ∀ record ∈ info.1, mem.cstr record.symbolname = mem'.cstr record.symbolname

theorem bindRun_related (bindSame : SameBind mem mem' start stop) (segsAlike : AlikeSegs mem mem' ordered segs segs')
    (pass : BindPass) :
    Related (Option.Rel (AlikeStates mem mem' ordered)) (bindRun mem segs start stop pass)
      (bindRun mem' segs' start stop pass) := by
  have first : AlikeStates mem mem' ordered {} {} :=
    ⟨⟨0, [], rfl⟩, fun _ => rfl, mem.cstr_null.trans mem'.cstr_null.symm, nofun⟩
  exact bindLoop_related bindSame segsAlike pass (Or.inl (BitVec.le_refl start)) first

theorem getDyldBindInfo_related (malloc : Malloc) (bindSame : SameBind mem mem' start stop)
    (segsAlike : AlikeSegs mem mem' ordered segs segs') :
    Related (AlikeInfo mem mem' ordered) (getDyldBindInfo malloc mem start stop segs)
      (getDyldBindInfo malloc mem' start stop segs') := by
  refine (bindRun_related bindSame segsAlike .count).bind ?_
  intro counted counted' countedAlike
  cases countedAlike with
  | none => exact .none
  | @some st st' alike =>
    have count : st'.n = st.n := by
      obtain ⟨segStartAddr, dbi, rfl⟩ := alike.shape
      rfl
    simp only [count]
    refine (bindRun_related bindSame segsAlike _).bind ?_
    intro stored stored' storedAlike
    cases storedAlike with
    | none => exact .some ⟨rfl, fun _ => rfl, nofun⟩
    | some alike => exact .some ⟨rfl, fun isOrdered => congrArg BindState.dbi (alike.same isOrdered), alike.names⟩

/-- Two library entries that differ only in the ranges and in the bind information. -/
structure AlikeLibs (mem mem' : Mem) (ordered : Prop) (lib lib' : LibraryInfo) : Prop where
  shape : ∃ vmranges dbi, lib' = { lib with machoVmranges := vmranges, machoDbi := dbi }
  same : ordered → lib'.machoDbi = lib.machoDbi
  names : ∀ info ∈ lib.machoDbi, mem.cstr info.symbolname = mem'.cstr info.symbolname

/-- The end of the initialisation in both memories. -/
theorem machoBind_related (malloc : Malloc) {parse parse' : MachoParse}
    (libs : AlikeLibs mem mem' ordered parse.lib parse'.lib)
    (segsAlike : AlikeSegs mem mem' ordered parse.segs parse'.segs)
    (bindSame : SameBind mem mem' (parse.lib.map + parse.lib.machoBindOff)
      (parse.lib.map + parse.lib.machoBindOff + parse.lib.machoBindSize)) :
    Related (AlikeLibs mem mem' ordered) (machoBind malloc mem parse) (machoBind malloc mem' parse') := by
  obtain ⟨lib', segs'⟩ := parse'
  obtain ⟨⟨vmranges, dbi, rfl⟩, same, names⟩ := libs
  unfold machoBind
  dsimp only
  split
  · refine (getDyldBindInfo_related malloc bindSame segsAlike).bind ?_
    intro info info' infoAlike
    cases infoAlike with
    | none => exact ⟨⟨vmranges, dbi, rfl⟩, same, names⟩
    | @some pair pair' alike =>
      obtain ⟨count, sameInfo, sameNames⟩ := alike
      refine ⟨⟨vmranges, pair'.1, ?_⟩, sameInfo, sameNames⟩
      simp only [count]
  · exact ⟨⟨vmranges, dbi, rfl⟩, same, names⟩

end

/-- The tables of a library, with the strings they name, have no byte in the area. -/
structure TablesOutside (mem : Mem) (area : U32 → Prop) (lib : LibraryInfo) : Prop where
  symbols : ∀ i < lib.machoSymtabCount.toNat,
    Outside area (lib.map + lib.machoSymtabOff + Nlist.sizeOf * BitVec.ofNat 32 i) 12
  names : ∀ i < lib.machoSymtabCount.toNat, ∀ strx,
    Nlist.strx mem (lib.map + lib.machoSymtabOff + Nlist.sizeOf * BitVec.ofNat 32 i) = .ok strx → strx ≠ 0 →
      mem.StringOutside area (lib.map + lib.machoStrtabOff + strx)
  relocs : ∀ i < lib.machoExtRelocCount.toNat,
    Outside area (lib.map + lib.machoExtRelocOff + RelocationInfo.sizeOf * BitVec.ofNat 32 i) 8
  bind : ∀ p, lib.map + lib.machoBindOff ≤ p → p < lib.map + lib.machoBindOff + lib.machoBindSize → ¬area p
  bindNames : ∀ p b, lib.map + lib.machoBindOff ≤ p → p < lib.map + lib.machoBindOff + lib.machoBindSize →
    mem.byte p = some b → (b &&& bindOpcodeMask).toNat = 0x40 → mem.StringOutside area (p + 1)

section

variable {env : Env} {slot : Slot} {mem' : Mem} {area : U32 → Prop} {lib : LibraryInfo}
  (agree : AgreeOutside area env.mem mem') (tables : TablesOutside env.mem area lib)
include agree

theorem readCStr_agree {p : U32} (outside : env.mem.StringOutside area p) : readCStr mem' p = readCStr env.mem p := by
  rw [readCStr, readCStr, agree.cstr outside]

theorem readWord_agree {p : U32} (outside : Outside area p 4) : readWord mem' p = readWord env.mem p := by
  rw [readWord, readWord, agree.word outside]

theorem extRelocMatches_agree {p addr : U32} (outside : Outside area p 8) :
    extRelocMatches mem' p addr = extRelocMatches env.mem p addr := by
  have rAddress := readWord_agree agree (outside.mono (Nat.le_add_left 4 4))
  have fields : readWord mem' (p + 4) = readWord env.mem (p + 4) := readWord_agree agree (outside.part (Nat.le_refl 8))
  simp only [extRelocMatches, RelocationInfo.rAddress, RelocationInfo.fields, rAddress, fields]

theorem machoGetSymAddr_agree {p : U32} (outside : Outside area p 12) :
    machoGetSymAddr mem' p = machoGetSymAddr env.mem p := by
  have type : mem'.byte (p + 4) = env.mem.byte (p + 4) := (agree.byte (outside.part (Nat.le_add_left 5 7))).symm
  have value : readWord mem' (p + 8) = readWord env.mem (p + 8) := readWord_agree agree (outside.part (Nat.le_refl 12))
  simp only [machoGetSymAddr, Nlist.type, readByte, type, Nlist.value, value]

include tables

theorem TablesOutside.sameBind : SameBind env.mem mem' (lib.map + lib.machoBindOff)
    (lib.map + lib.machoBindOff + lib.machoBindSize) :=
  ⟨fun p after before => agree p (tables.bind p after before),
    fun p b after before read opcode => agree.cstr (tables.bindNames p b after before read opcode)⟩

theorem machoGetSymName_agree {i : Nat} (bound : i < lib.machoSymtabCount.toNat) :
    machoGetSymName mem' lib (lib.map + lib.machoSymtabOff + Nlist.sizeOf * BitVec.ofNat 32 i) =
      machoGetSymName env.mem lib (lib.map + lib.machoSymtabOff + Nlist.sizeOf * BitVec.ofNat 32 i) := by
  have strxSame := readWord_agree agree ((tables.symbols i bound).mono (Nat.le_add_left 4 8))
  rw [machoGetSymName, machoGetSymName, Nlist.strx, strxSame]
  refine bind_congr_ok fun strx read => ?_
  split
  · rfl
  · rename_i named
    rw [readCStr_agree agree (tables.names i bound strx read named)]

theorem extRelocSymbol_agree {p : U32} (outside : Outside area p 8) :
    extRelocSymbol { env with mem := mem' } slot lib p = extRelocSymbol env slot lib p := by
  have fieldsSame : readWord mem' (p + 4) = readWord env.mem (p + 4) :=
    readWord_agree agree (outside.part (Nat.le_refl 8))
  rw [extRelocSymbol, extRelocSymbol, RelocationInfo.fields, RelocationInfo.fields, fieldsSame]
  refine bind_congr fun fields => bind_congr_ok fun sym found => ?_
  obtain ⟨_, checked, entry⟩ := bind_ok.mp found
  cases pure_ok.mp entry
  have bound : (RelocationInfo.rSymbolnum fields).toNat < lib.machoSymtabCount.toNat :=
    of_decide_eq_true (check_ok.mp checked)
  have addr := machoGetSymAddr_agree agree (tables.symbols _ bound)
  have name := machoGetSymName_agree agree tables bound
  rw [BitVec.ofNat_toNat, BitVec.setWidth_eq] at addr name
  rw [addr, name]
  rfl

theorem extRelocLoop_agree {addr reloc : U32} {n i : Nat} (left : i + n = lib.machoExtRelocCount.toNat)
    (place : reloc = lib.map + lib.machoExtRelocOff + RelocationInfo.sizeOf * BitVec.ofNat 32 i) :
    extRelocLoop { env with mem := mem' } slot lib addr n reloc = extRelocLoop env slot lib addr n reloc := by
  induction n generalizing reloc i with
  | zero => rfl
  | succ n ih =>
    have outside : Outside area reloc 8 := place ▸ tables.relocs i (by omega)
    rw [extRelocLoop, extRelocLoop, extRelocMatches_agree agree outside, extRelocSymbol_agree agree tables outside]
    refine bind_congr fun isMatch => ?_
    split
    · rfl
    · refine ih (i := i + 1) (by omega) ?_
      rw [place, entry_succ]

omit agree tables in
theorem bindInfoLoop_agree (names : ∀ info ∈ lib.machoDbi, env.mem.cstr info.symbolname = mem'.cstr info.symbolname)
    (vmranges : List MachoVmrange) (addr : U32) (n i : Nat) :
    bindInfoLoop { env with mem := mem' } slot { lib with machoVmranges := vmranges } addr n i =
      bindInfoLoop env slot lib addr n i := by
  induction n generalizing i with
  | zero => rfl
  | succ n ih =>
    rw [bindInfoLoop, bindInfoLoop]
    split
    · rename_i absent
      rw [absent]
    · rename_i info here
      have name := names info (List.mem_of_getElem? here)
      have symbol : bindInfoSymbol { env with mem := mem' } slot info = bindInfoSymbol env slot info := by
        rw [bindInfoSymbol, bindInfoSymbol, readCStr, readCStr, name]
        rfl
      simp only [here, symbol, ih]

/-- A lookup in both files finds the same. -/
theorem findReloc_agree {lib' : LibraryInfo} (libs : AlikeLibs env.mem mem' True lib lib') (addr : U32) :
    symtabMachoFindRelocSymForAddr { env with mem := mem' } slot lib' addr =
      symtabMachoFindRelocSymForAddr env slot lib addr := by
  obtain ⟨⟨vmranges, dbi, rfl⟩, same, names⟩ := libs
  have sameDbi : dbi = lib.machoDbi := same trivial
  have start : lib.map + lib.machoExtRelocOff =
      lib.map + lib.machoExtRelocOff + RelocationInfo.sizeOf * BitVec.ofNat 32 0 := by simp
  have loop : extRelocLoop { env with mem := mem' } slot { lib with machoVmranges := vmranges, machoDbi := dbi } addr
      lib.machoExtRelocCount.toNat (lib.map + lib.machoExtRelocOff) =
        extRelocLoop env slot lib addr lib.machoExtRelocCount.toNat (lib.map + lib.machoExtRelocOff) :=
    (extRelocLoop_frame lib vmranges dbi lib.machoNdbi addr _ _).trans
      (extRelocLoop_agree agree tables (Nat.zero_add _) start)
  unfold symtabMachoFindRelocSymForAddr
  refine (congrArg (· >>= _) loop).trans (bind_congr fun found => ?_)
  cases found with
  | some entry => rfl
  | none =>
    rw [sameDbi]
    dsimp only
    split
    · exact bindInfoLoop_agree names vmranges addr _ 0
    · rfl

end

end Classgraph
