import Classgraph.BindStream
import Classgraph.ReadFaults

namespace Classgraph
open Run Machine

/-- The faults other than a loop that goes on forever and a store behind the end of an array. -/
inductive Ordinary : Fault → Prop
  | segv (p : U32) : Ordinary (.segv p)
  | assertion (site : Assertion) : Ordinary (.assertion site)
  | exit (call : FatalCall) : Ordinary (.exit call)
  | divideByZero : Ordinary .divideByZero
  | uninitialised : Ordinary .uninitialised
  | regexError : Ordinary .regexError

theorem ReadFault.ordinary {fault : Fault} (reads : ReadFault fault) : Ordinary fault := by
  cases reads with
  | segv p => exact .segv p
  | assertion other => exact .assertion _
  | uninitialised => exact .uninitialised

/-- How a run can end abnormally: with an ordinary fault, with a loop that goes on forever if `endless` holds, or with
a store behind the end of an array for which `overrun` holds. -/
inductive Ending (endless : Prop) (overrun : Buffer → Prop) : Fault → Prop
  | ordinary {fault : Fault} : Ordinary fault → Ending endless overrun fault
  | endless : endless → Ending endless overrun .diverges
  | overrun {buffer : Buffer} : overrun buffer → Ending endless overrun (.outOfBounds buffer)

theorem Ending.imp {endless endless' : Prop} {overrun overrun' : Buffer → Prop} {fault : Fault}
    (ending : Ending endless overrun fault) (goesOn : endless → endless')
    (runsOver : ∀ buffer, overrun buffer → overrun' buffer) : Ending endless' overrun' fault := by
  cases ending with
  | ordinary other => exact .ordinary other
  | endless always => exact .endless (goesOn always)
  | overrun full => exact .overrun (runsOver _ full)

/-- A part of a run that neither loops nor stores. -/
theorem ends_of_ordinary {endless : Prop} {overrun : Buffer → Prop} {α : Type} {run : Except Fault α}
    {post : α → Prop} (ends : Holds Ordinary run post) : Holds (Ending endless overrun) run post :=
  ends.imp_error fun _ => .ordinary

theorem readByte_ordinary (mem : Mem) (p : U32) : Holds Ordinary (readByte mem p) fun b => readByte mem p = .ok b :=
  (readByte_readFault mem p).imp_error fun _ => ReadFault.ordinary

theorem readHalf_ordinary (mem : Mem) (p : U32) : Holds Ordinary (readHalf mem p) fun _ => True := by
  unfold readHalf
  split
  · trivial
  · exact .segv p

theorem readWord_ordinary (mem : Mem) (p : U32) : Holds Ordinary (readWord mem p) fun _ => True :=
  ((readWord_readFault mem p).imp_error fun _ => ReadFault.ordinary).imp fun _ _ => trivial

theorem readCStr_ordinary (mem : Mem) (p : U32) : Holds Ordinary (readCStr mem p) fun str => readCStr mem p = .ok str :=
  (readCStr_readFault mem p).imp_error fun _ => ReadFault.ordinary

theorem check_ordinary (site : Assertion) (condition : Bool) :
    Holds Ordinary (check site condition) fun _ => condition = true := check_result (.assertion site) condition

/-- An array that still has room takes the entry. -/
theorem store_ordinary {α : Type} {capacity : Nat} {entries : List α} (room : entries.length < capacity)
    (buffer : Buffer) (entry : α) : Holds Ordinary (store buffer capacity entries entry) fun _ => True := by
  rw [store, if_pos room]
  trivial

section

variable {mem : Mem} {stop : U32}

/-- Where a decoder goes on after it was at `p`. A pointer that has wrapped around to the null pointer stays there,
since nothing can be read there. -/
def Onward (p next : U32) : Prop := next = 0 ∨ p ≠ 0 ∧ p ≤ next

theorem Onward.refl (p : U32) : Onward p p := by
  by_cases null : p = 0
  · exact Or.inl null
  · exact Or.inr ⟨null, BitVec.le_refl p⟩

theorem Onward.trans {p q r : U32} (first : Onward p q) (second : Onward q r) : Onward p r := by
  rcases second with null | ⟨notNull, later⟩
  · exact Or.inl null
  · rcases first with null | ⟨other, before⟩
    · exact absurd null notNull
    · exact Or.inr ⟨other, BitVec.le_trans before later⟩

theorem readByte_notNull {p : U32} {byte : U8} (read : readByte mem p = .ok byte) : p ≠ 0 := by
  rintro rfl
  rw [readByte, mem.null] at read
  cases read

theorem readByte_onward {p : U32} {byte : U8} (read : readByte mem p = .ok byte) : Onward p (p + 1) := by
  have notNull := readByte_notNull read
  by_cases wraps : p + 1 = 0
  · exact Or.inl wraps
  · exact Or.inr ⟨notNull, by bv_omega⟩

theorem readCStr_onward {p : U32} {str : CStr} (read : readCStr mem p = .ok str) :
    Onward p (p + BitVec.ofNat 32 str.length + 1) := by
  have held : mem.cstr p = some str := by
    unfold readCStr at read
    split at read
    · cases read
      assumption
    · cases read
  have notNull : p ≠ 0 := by
    rintro rfl
    rw [mem.cstr_null] at held
    cases held
  have last := Mem.cstr_end held
  by_cases wraps : p + BitVec.ofNat 32 str.length + 1 = 0
  · exact Or.inl wraps
  · exact Or.inr ⟨notNull, by bv_omega⟩

/-- The rounds left are those until bit 70, from where on every byte is refused. -/
theorem uleb128Loop_ordinary {n bit : Nat} (room : bit + 7 * n = 70) (p : U32) (result : U64) :
    Holds Ordinary (uleb128Loop mem stop (n + 1) p bit result) fun next => Onward p next.1 := by
  induction n generalizing bit p result with
  | zero =>
    rw [uleb128Loop]
    split
    · exact .refl p
    · refine (readByte_ordinary mem p).bind ?_
      intro byte _
      have full : 64 ≤ bit := by omega
      dsimp only
      rw [if_pos (Or.inl full)]
      exact .refl p
  | succ n ih =>
    rw [uleb128Loop]
    split
    · exact .refl p
    · refine (readByte_ordinary mem p).bind ?_
      intro byte read
      have step := readByte_onward read
      dsimp only
      split
      · exact .refl p
      · split
        · exact (ih (by omega) _ _).imp fun _ later => step.trans later
        · exact step

theorem readUleb128_ordinary (p : U32) : Holds Ordinary (readUleb128 mem p stop) fun next => Onward p next.1 :=
  uleb128Loop_ordinary rfl p 0

/-- The rounds left are enough for the bytes up to the end of the address space and one more. -/
theorem sleb128Loop_ordinary {n : Nat} {p : U32} (room : p = 0 ∧ 1 ≤ n ∨ p ≠ 0 ∧ 2 ^ 32 - p.toNat < n)
    (bit : Nat) (result : U64) : Holds Ordinary (sleb128Loop mem stop n p bit result) fun next => Onward p next.1 := by
  induction n generalizing p bit result with
  | zero => omega
  | succ n ih =>
    rw [sleb128Loop]
    split
    · exact .refl p
    · refine (readByte_ordinary mem p).bind ?_
      intro byte read
      have step := readByte_onward read
      have enough := (room.resolve_left fun null => readByte_notNull read null.1).2
      dsimp only
      split
      · refine (ih ?_ _ _).imp fun _ later => step.trans later
        have bound := p.isLt
        by_cases wraps : p + 1 = 0
        · exact Or.inl ⟨wraps, by omega⟩
        · refine Or.inr ⟨wraps, ?_⟩
          have next : (p + 1).toNat = p.toNat + 1 := by bv_omega
          omega
      · split
        · exact step
        · exact step

theorem readSleb128_ordinary (p : U32) : Holds Ordinary (readSleb128 mem p stop) fun next => Onward p next.1 := by
  refine sleb128Loop_ordinary ?_ 0 0
  by_cases null : p = 0
  · exact Or.inl ⟨null, by decide⟩
  · refine Or.inr ⟨null, ?_⟩
    have positive : p.toNat ≠ 0 := by bv_omega
    omega

theorem segStartAddress_ordinary (segIndex : U8) (segs : List U32) :
    Holds Ordinary (segStartAddress mem segIndex segs) fun _ => True := by
  unfold segStartAddress
  split
  · trivial
  · exact (readWord_ordinary _ _).bind fun _ _ => trivial

/-- The first pass only counts the records. -/
theorem bindRepeat_counts (skip : U32) (count : Nat) (st : BindState) :
    Holds Ordinary (bindRepeat .count skip count st) fun _ => True := by
  induction count generalizing st with
  | zero => trivial
  | succ count ih => exact ih _

/-- No opcode moves the decoder back. -/
theorem bindOpcode_ordinary (segs : List U32) (opcode immediate : U8) (p : U32) (st : BindState) :
    Holds Ordinary (bindOpcode mem segs stop .count opcode immediate p st)
      fun next => ∀ q st', next = some (q, st') → Onward p q := by
  have stay (st' : BindState) : ∀ q st'', some (p, st') = some (q, st'') → Onward p q := by
    intro q st'' same
    cases same
    exact .refl p
  have move {r : U32} (moved : Onward p r) (st' : BindState) :
      ∀ q st'', some (r, st') = some (q, st'') → Onward p q := by
    intro q st'' same
    cases same
    exact moved
  unfold bindOpcode
  split
  · exact stay _
  · exact stay _
  · exact (readUleb128_ordinary p).bind fun _ moved => move moved _
  · exact stay _
  · exact (readCStr_ordinary mem p).bind fun _ read => move (readCStr_onward read) _
  · exact stay _
  · exact (readSleb128_ordinary p).bind fun _ moved => move moved _
  · exact (segStartAddress_ordinary _ _).bind fun _ _ => (readUleb128_ordinary p).bind fun _ moved => move moved _
  · exact (readUleb128_ordinary p).bind fun _ moved => move moved _
  · exact stay _
  · exact (readUleb128_ordinary p).bind fun _ moved => move moved _
  · exact stay _
  · refine (readUleb128_ordinary p).bind fun count first => (readUleb128_ordinary count.1).bind fun skip second => ?_
    exact (bindRepeat_counts _ _ _).bind fun _ _ => move (first.trans second) _
  · exact fun _ _ => nofun

/-- Every round consumes its opcode byte, so that the rounds left are enough for the bytes up to `stop`. -/
theorem bindLoop_ordinary {segs : List U32} {fuel : Nat} {p : U32}
    (room : p = 0 ∧ 1 ≤ fuel ∨ p ≠ 0 ∧ stop.toNat - p.toNat < fuel) (st : BindState) :
    Holds Ordinary (bindLoop mem segs stop .count fuel p st) fun _ => True := by
  induction fuel generalizing p st with
  | zero => omega
  | succ fuel ih =>
    rw [bindLoop]
    split
    · trivial
    · rename_i inside
      have before : p < stop := by
        rw [not_or] at inside
        exact BitVec.not_le.mp inside.2
      refine (readByte_ordinary mem p).bind ?_
      intro byte read
      have enough := (room.resolve_left fun null => readByte_notNull read null.1).2
      refine (bindOpcode_ordinary segs _ _ _ st).bind ?_
      intro next moved
      cases next with
      | none => trivial
      | some next =>
        refine ih ?_ _
        rcases moved next.1 next.2 rfl with wraps | ⟨other, later⟩
        · exact Or.inl ⟨wraps, by bv_omega⟩
        · by_cases null : next.1 = 0
          · exact Or.inl ⟨null, by bv_omega⟩
          · exact Or.inr ⟨null, by bv_omega⟩

theorem bindRun_ordinary (segs : List U32) (start : U32) :
    Holds Ordinary (bindRun mem segs start stop .count)
      fun counted => bindRun mem segs start stop .count = .ok counted := by
  have ends : Holds Ordinary (bindRun mem segs start stop .count) fun _ => True := by
    refine bindLoop_ordinary ?_ {}
    by_cases null : start = 0
    · exact Or.inl ⟨null, Nat.le_add_left _ _⟩
    · exact Or.inr ⟨null, by bv_omega⟩
  exact Holds.result fun _ stopped => ends.of_error stopped

/-- An opcode that the first pass gets through has an operation, which ends at the same place. -/
theorem decodeOp_counted (segs : List U32) (opcode immediate : U8) (p : U32) (st : BindState) :
    Refines (Option.Rel fun next op => next.1 = op.1) (bindOpcode mem segs stop .count opcode immediate p st)
      (decodeOp mem segs stop opcode immediate p) := by
  unfold bindOpcode
  generalize isCode : opcode.toNat = code
  split
  all_goals rw [decodeOp, isCode]
  · exact .pure (.some rfl)
  · exact .pure (.some rfl)
  · exact .same_bind fun _ _ => .pure (.some rfl)
  · exact .pure (.some rfl)
  · exact .same_bind fun _ _ => .pure (.some rfl)
  · exact .pure (.some rfl)
  · exact .same_bind fun _ _ => .pure (.some rfl)
  · exact .same_bind fun _ _ => .same_bind fun _ _ => .pure (.some rfl)
  · exact .same_bind fun _ _ => .pure (.some rfl)
  · exact .left_bind fun _ _ => .pure (.some rfl)
  · exact .left_bind fun _ _ => .same_bind fun _ _ => .pure (.some rfl)
  · exact .left_bind fun _ _ => .pure (.some rfl)
  · exact .same_bind fun _ _ => .same_bind fun _ _ => .left_bind fun _ _ => .pure (.some rfl)
  · -- no other opcode is known
    split
    all_goals first | contradiction | exact .pure .none

/-- Where the first pass comes to its end, every pass writes the same records up to there. -/
theorem bindLoop_passes {segs : List U32} {fuel : Nat} {p : U32} {st next : BindState} {cursor : BindCursor}
    {written : List DyldBindInfo} (run : bindLoop mem segs stop .count fuel p st = .ok (some next))
    (counts : Tracks .count st cursor written) :
    ∃ cursor' more done, ∀ pass st', Tracks pass st' cursor written → st'.done = st.done →
      pass.Room written.length →
        Binds pass (bindLoop mem segs stop pass fuel p st') some cursor' (written ++ more) done := by
  induction fuel generalizing p st cursor written with
  | zero => cases run
  | succ fuel ih =>
    by_cases leaves : st.done ∨ stop ≤ p
    · refine ⟨cursor, [], st.done, ?_⟩
      intro pass st' tracks sameDone room
      rw [← sameDone] at leaves
      rw [bindLoop, if_pos leaves, List.append_nil]
      exact .pure some tracks sameDone room
    · rw [bindLoop, if_neg leaves] at run
      obtain ⟨byte, read, run⟩ := bind_ok.mp run
      obtain ⟨result, opRun, run⟩ := bind_ok.mp run
      cases result with
      | none => cases run
      | some result =>
        obtain ⟨q, st₁⟩ := result
        have running : st.done = false := by
          rw [not_or, Bool.not_eq_true] at leaves
          exact leaves.1
        obtain ⟨decoded, opRead, same⟩ := decodeOp_counted _ _ _ _ _ _ opRun
        obtain @⟨_, ⟨_, op⟩, rfl⟩ := same
        obtain ⟨st₂, opRun', counts', isDone⟩ := (bindOpcode_binds opRead counts running trivial).fits trivial
        rw [opRun] at opRun'
        cases opRun'
        obtain ⟨cursor', more, done, passes⟩ := ih run counts'
        refine ⟨cursor', op.records cursor ++ more, done, ?_⟩
        intro pass st' tracks sameDone room
        rw [← sameDone] at leaves
        rw [bindLoop, if_neg leaves, read, ← List.append_assoc]
        refine (bindOpcode_binds opRead tracks (sameDone.trans running) room).bind ?_
        intro st₃ tracks' isDone' room'
        exact passes pass st₃ tracks' (isDone'.trans isDone.symm) room'

/-- The first pass counts so many records that there is no block for them: their size does not fit into 32 bits, or
`malloc` returns the null pointer. -/
def NoBlock (malloc : Malloc) (mem : Mem) (segs : List U32) (start stop : U32) : Prop :=
  ∃ counted, bindRun mem segs start stop .count = .ok (some counted) ∧ ¬BlockFits malloc counted.n

/-- The second pass fits into its block unless there is none for so many records. -/
theorem getDyldBindInfo_ends (malloc : Malloc) (start : U32) (segs : List U32) :
    Holds (Ending False fun buffer => buffer = .bindInfo ∧ NoBlock malloc mem segs start stop)
      (getDyldBindInfo malloc mem start stop segs) fun _ => True := by
  have first : Holds Ordinary (bindRun mem segs start stop .count) _ := bindRun_ordinary segs start
  cases run : bindRun mem segs start stop .count with
  | error fault =>
    rw [getDyldBindInfo, run]
    exact .ordinary (first.of_error run)
  | ok counted =>
    cases counted with
    | none =>
      rw [getDyldBindInfo, run]
      trivial
    | some counted =>
      have unread (pass : BindPass) : Tracks pass {} {} [] := ⟨rfl, rfl, fun _ => rfl⟩
      obtain ⟨cursor, written, done, passes⟩ := bindLoop_passes run (unread .count)
      have both (pass : BindPass) : Binds pass (bindRun mem segs start stop pass) some cursor written done :=
        passes pass {} (unread pass) rfl .empty
      obtain ⟨counted', run', counts, _⟩ := (both .count).fits trivial
      rw [run] at run'
      cases run'
      rw [getDyldBindInfo_binds both, ← counts.count]
      split
      · trivial
      · rename_i noBlock
        exact .overrun ⟨rfl, counted, run, noBlock⟩

end

section

variable (mem : Mem)

theorem sectionIsMapped_ordinary (segCmd sect : U32) :
    Holds Ordinary (sectionIsMapped mem segCmd sect) fun _ => True := by
  refine (readWord_ordinary _ _).bind ?_
  intro filesize _
  split
  · exact (readWord_ordinary _ _).bind fun _ _ => trivial
  · trivial

theorem sectionAddrs_ordinary (segCmd sect : U32) : Holds Ordinary (sectionAddrs mem segCmd sect) fun _ => True := by
  refine (readWord_ordinary _ _).bind fun addr _ => (readWord_ordinary _ _).bind fun vmaddr _ => ?_
  refine (check_ordinary _ _).bind fun _ _ => (readWord_ordinary _ _).bind fun vmsize _ => ?_
  refine (check_ordinary _ _).bind fun _ _ => (readWord_ordinary _ _).bind fun size _ => ?_
  exact (check_ordinary _ _).bind fun _ _ => trivial

theorem sectionOffsets_ordinary (segCmd sect : U32) :
    Holds Ordinary (sectionOffsets mem segCmd sect) fun _ => True := by
  refine (readWord_ordinary _ _).bind fun offset _ => (readWord_ordinary _ _).bind fun fileoff _ => ?_
  refine (check_ordinary _ _).bind fun _ _ => (readWord_ordinary _ _).bind fun filesize _ => ?_
  refine (check_ordinary _ _).bind fun _ _ => (readWord_ordinary _ _).bind fun size _ => ?_
  exact (check_ordinary _ _).imp fun _ _ => trivial

theorem machoSection_ordinary (segCmd : U32) (nsegs j : Nat) (sect : U32) (vmranges : List MachoVmrange) :
    Holds Ordinary (machoSection mem segCmd nsegs j sect vmranges) fun _ => True := by
  refine (check_ordinary _ _).bind fun _ room => (sectionIsMapped_ordinary mem _ _).bind fun isMapped _ => ?_
  refine (sectionAddrs_ordinary mem _ _).bind fun range _ => ?_
  have stored (vmrange : U32 → MachoVmrange) (apart : Bool) : Holds Ordinary (do
      let offset ← Section.offset mem sect
      check .noOverlap apart
      store .vmranges maxVmranges vmranges (vmrange offset)) fun _ => True :=
    (readWord_ordinary _ _).bind fun _ _ => (check_ordinary _ _).bind fun _ _ =>
      store_ordinary (of_decide_eq_true room) _ _
  dsimp only
  split
  · exact (sectionOffsets_ordinary mem _ _).bind fun _ _ => stored _ _
  · exact stored _ _

theorem machoSections_ordinary (segCmd : U32) (nsegs n j : Nat) (sect : U32) (vmranges : List MachoVmrange) :
    Holds Ordinary (machoSections mem segCmd nsegs n j sect vmranges) fun _ => True := by
  induction n generalizing j sect vmranges with
  | zero => trivial
  | succ n ih => exact (machoSection_ordinary mem _ _ _ _ _).bind fun _ _ => ih _ _ _

theorem machoSegment_ordinary (segCmd : U32) (st : MachoParse) :
    Holds Ordinary (machoSegment mem segCmd st) fun _ => True := by
  refine (readWord_ordinary _ _).bind fun fileoff _ => (readWord_ordinary _ _).bind fun filesize _ => ?_
  refine (check_ordinary _ _).bind fun _ _ => (readWord_ordinary _ _).bind fun nsects _ => ?_
  refine (machoSections_ordinary mem _ _ _ _ _ _).bind fun _ _ => (check_ordinary _ _).bind fun _ room => ?_
  exact (store_ordinary (of_decide_eq_true room) _ _).bind fun _ _ => trivial

theorem machoSymtab_ordinary (cmd : U32) (lib : LibraryInfo) :
    Holds Ordinary (machoSymtab mem cmd lib) fun _ => True := by
  refine (readWord_ordinary _ _).bind fun symoff _ => (readWord_ordinary _ _).bind fun nsyms _ => ?_
  exact (readWord_ordinary _ _).bind fun stroff _ => (readWord_ordinary _ _).bind fun strsize _ => trivial

theorem machoDysymtab_ordinary (cmd : U32) (lib : LibraryInfo) :
    Holds Ordinary (machoDysymtab mem cmd lib) fun _ => True :=
  (readWord_ordinary _ _).bind fun _ _ => (readWord_ordinary _ _).bind fun _ _ => trivial

theorem machoDyldInfo_ordinary (cmd : U32) (lib : LibraryInfo) :
    Holds Ordinary (machoDyldInfo mem cmd lib) fun _ => True := by
  refine (readWord_ordinary _ _).bind fun rebaseOff _ => (readWord_ordinary _ _).bind fun rebaseSize _ => ?_
  refine (readWord_ordinary _ _).bind fun bindOff _ => (readWord_ordinary _ _).bind fun bindSize _ => ?_
  refine (readWord_ordinary _ _).bind fun weakBindOff _ => (readWord_ordinary _ _).bind fun weakBindSize _ => ?_
  refine (readWord_ordinary _ _).bind fun lazyBindOff _ => (readWord_ordinary _ _).bind fun lazyBindSize _ => ?_
  exact (readWord_ordinary _ _).bind fun exportOff _ => (readWord_ordinary _ _).bind fun exportSize _ => trivial

theorem machoCommand_ordinary (cmd : U32) (st : MachoParse) :
    Holds Ordinary (machoCommand mem cmd st) fun _ => True := by
  refine (readWord_ordinary _ _).bind ?_
  intro kind _
  dsimp only
  split
  · exact machoSegment_ordinary mem _ _
  · split
    · exact (machoSymtab_ordinary mem _ _).bind fun _ _ => trivial
    · split
      · exact (machoDysymtab_ordinary mem _ _).bind fun _ _ => trivial
      · split
        · exact (machoDyldInfo_ordinary mem _ _).bind fun _ _ => trivial
        · trivial

theorem machoCommands_ordinary (n : Nat) (cmd : U32) (st : MachoParse) :
    Holds Ordinary (machoCommands mem n cmd st) fun _ => True := by
  induction n generalizing cmd st with
  | zero => trivial
  | succ n ih => exact (machoCommand_ordinary mem _ _).bind fun _ _ => (readWord_ordinary _ _).bind fun _ _ => ih _ _

theorem fatArchLoop_ordinary (n : Nat) (arch : U32) : Holds Ordinary (fatArchLoop mem n arch) fun _ => True := by
  induction n generalizing arch with
  | zero => trivial
  | succ n ih =>
    have matches' : Holds Ordinary (fatArchMatches mem arch) fun _ => True := by
      refine (readWord_ordinary _ _).bind ?_
      intro cputype _
      split
      · exact (readWord_ordinary _ _).bind fun _ _ => trivial
      · trivial
    refine matches'.bind ?_
    intro isMatch _
    split
    · trivial
    · exact ih _

theorem machoSlice_ordinary (lib : LibraryInfo) : Holds Ordinary (machoSlice mem lib) fun _ => True := by
  refine (readWord_ordinary _ _).bind ?_
  intro magic _
  split
  · refine (readWord_ordinary _ _).bind fun nfatArch _ => (fatArchLoop_ordinary mem _ _).bind ?_
    intro found _
    cases found with
    | none => exact .assertion .foundI386
    | some arch => exact (readWord_ordinary _ _).bind fun _ _ => (readWord_ordinary _ _).bind fun _ _ => trivial
  · trivial

theorem machoHeader_ordinary (lib : LibraryInfo) : Holds Ordinary (machoHeader mem lib) fun _ => True := by
  refine (readWord_ordinary _ _).bind fun magic _ => (check_ordinary _ _).bind fun _ _ => ?_
  refine (readWord_ordinary _ _).bind fun cputype _ => (check_ordinary _ _).bind fun _ _ => ?_
  refine (readWord_ordinary _ _).bind fun cpusubtype _ => (check_ordinary _ _).bind fun _ _ => ?_
  exact (readWord_ordinary _ _).bind fun filetype _ => (check_ordinary _ _).imp fun _ _ => trivial

theorem machoParse_ordinary (lib : LibraryInfo) :
    Holds Ordinary (machoParse mem lib) fun st => machoParse mem lib = .ok st := by
  have ends : Holds Ordinary (machoParse mem lib) fun _ => True := by
    refine (machoSlice_ordinary mem lib).bind fun slice _ => (machoHeader_ordinary mem slice).bind fun _ _ => ?_
    exact (readWord_ordinary _ _).bind fun ncmds _ => machoCommands_ordinary mem _ _ _
  exact Holds.result fun _ stopped => ends.of_error stopped

end

/-- The bind opcodes of a file stand for so many records that there is no block for them. -/
def ManyBinds (malloc : Malloc) (mem : Mem) (lib : LibraryInfo) : Prop :=
  ∃ st, machoParse mem lib = .ok st ∧ st.lib.machoHasDyldInfo ∧
    NoBlock malloc mem st.segs (st.lib.map + st.lib.machoBindOff)
      (st.lib.map + st.lib.machoBindOff + st.lib.machoBindSize)

theorem symtabMachoInit_ends (malloc : Malloc) (mem : Mem) (lib : LibraryInfo) :
    Holds (Ending False fun buffer => buffer = .bindInfo ∧ ManyBinds malloc mem lib) (symtabMachoInit malloc mem lib)
      fun _ => True := by
  refine (ends_of_ordinary (machoParse_ordinary mem lib)).bind ?_
  intro st parsed
  unfold machoBind
  split
  · rename_i hasInfo
    refine ((getDyldBindInfo_ends _ _ _).imp_error ?_).bind ?_
    · intro fault stopped
      exact stopped.imp id fun _ full => ⟨full.1, st, parsed, hasInfo, full.2⟩
    · intro info _
      cases info with
      | none => trivial
      | some info => trivial
  · trivial

end Classgraph
