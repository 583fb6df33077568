import Classgraph.General.Forest
import Classgraph.General.Numeral
import Classgraph.Dependencies
import Classgraph.Filter

namespace Classgraph
open Run PathTree Machine

/-- The buffer `indent`. -/
def indentText : Nat → CStr
  | 0 => []
  | level + 1 => " |  ".toList ++ indentText level

/-- A line as `printf` writes it, up to the line break. -/
def Shown.body : Shown → CStr
  | .cls level typeChar nameDemangled => indentText level ++ '[' :: typeChar :: ']' :: ' ' :: nameDemangled
  | .base level i offset flags =>
    indentText level ++ ' ' :: (Numeral.write 10 i ++ ':' :: ' ' :: (if 0 ≤ offset then '+' else '-') :: '0' :: 'x' ::
      ((Numeral.write 16 offset.natAbs).leftpad 4 '0' ++ ' ' :: [' '].intercalate flags))

/-- There is an empty line in front of every root. -/
def Shown.text (shown : Shown) : CStr :=
  match shown with
  | .cls 0 _ _ => '\n' :: (shown.body ++ ['\n'])
  | _ => shown.body ++ ['\n']

/-- The text of a run on the standard output. -/
def outputText (lines : List Shown) : CStr := lines.flatMap Shown.text

/-! A reader of the output, for people who want the tree back. -/

def readIndent : CStr → Nat × CStr
  | ' ' :: '|' :: ' ' :: ' ' :: rest => ((readIndent rest).1 + 1, (readIndent rest).2)
  | rest => (0, rest)

/-- What stands before and behind the first `stop`. -/
def cutAt (stop : Char) (text : CStr) : CStr × CStr :=
  (text.takeWhile (· ≠ stop), (text.dropWhile (· ≠ stop)).tail)

def readFlags (text : CStr) : List CStr := if text = [] then [] else text.splitOn ' '

def readOffset (sign : Char) (numeral : CStr) : Int :=
  if sign = '+' then Numeral.read 16 numeral else -Numeral.read 16 numeral

def readBase (level : Nat) (text : CStr) : Option Shown :=
  match (cutAt ':' text).2 with
  | ' ' :: sign :: '0' :: 'x' :: rest =>
    some (.base level (Numeral.read 10 (cutAt ':' text).1) (readOffset sign (cutAt ' ' rest).1)
      (readFlags (cutAt ' ' rest).2))
  | _ => none

def readBody (level : Nat) : CStr → Option Shown
  | '[' :: typeChar :: ']' :: ' ' :: nameDemangled => some (.cls level typeChar nameDemangled)
  | ' ' :: text => readBase level text
  | _ => none

def readLine (line : CStr) : Option Shown := readBody (readIndent line).1 (readIndent line).2

def readOutput (text : CStr) : List Shown := (text.splitOn '\n').filterMap readLine

/-- What can be told apart from the text around it. -/
def Shown.Readable : Shown → Prop
  | .cls _ typeChar nameDemangled => typeChar ≠ '\n' ∧ '\n' ∉ nameDemangled
  | .base _ _ _ flags => ∀ flag ∈ flags, flag ≠ [] ∧ ' ' ∉ flag ∧ '\n' ∉ flag

theorem readIndent_indentText (level : Nat) {rest : CStr} (ends : readIndent rest = (0, rest)) :
    readIndent (indentText level ++ rest) = (level, rest) := by
  induction level with
  | zero => exact ends
  | succ level ih =>
    have step : readIndent (indentText (level + 1) ++ rest) =
        ((readIndent (indentText level ++ rest)).1 + 1, (readIndent (indentText level ++ rest)).2) := rfl
    rw [step, ih]

theorem cutAt_append {stop : Char} {before : CStr} (absent : stop ∉ before) (behind : CStr) :
    cutAt stop (before ++ stop :: behind) = (before, behind) := by
  have others : ∀ c ∈ before, decide (c ≠ stop) = true := by
    intro c member
    exact decide_eq_true fun same => absent (same ▸ member)
  rw [cutAt, List.takeWhile_append_of_pos others, List.dropWhile_append_of_pos others]
  simp

theorem numeral_clean {base n : Nat} (more : 1 < base) (small : base ≤ 16) {c : Char} (other : c ∉ Numeral.digits) :
    c ∉ Numeral.write base n := fun member => other (Numeral.write_digits more small c member)

theorem readOffset_write (offset : Int) :
    readOffset (if 0 ≤ offset then '+' else '-') ((Numeral.write 16 offset.natAbs).leftpad 4 '0') = offset := by
  rw [List.leftpad, readOffset, Numeral.read_zeros, Numeral.read_write (by decide) (by decide)]
  split
  · split
    · omega
    · contradiction
  · split
    · contradiction
    · omega

theorem readFlags_intercalate {flags : List CStr} (words : ∀ flag ∈ flags, flag ≠ [] ∧ ' ' ∉ flag) :
    readFlags ([' '].intercalate flags) = flags := by
  cases flags with
  | nil => rfl
  | cons flag flags =>
    have some : [' '].intercalate (flag :: flags) ≠ [] := by
      have first := (words flag (List.mem_cons_self ..)).1
      cases flags with
      | nil => simpa using first
      | cons => simp [List.intercalate, first]
    rw [readFlags, if_neg some]
    exact List.splitOn_intercalate ' ' (fun word member => (words word member).2) (by simp)

theorem readLine_indentText (level : Nat) {body : CStr} (ends : readIndent body = (0, body)) :
    readLine (indentText level ++ body) = readBody level body := by
  rw [readLine, readIndent_indentText level ends]

theorem readIndent_number {number rest : CStr} (noBar : '|' ∉ number) :
    readIndent (' ' :: (number ++ ':' :: rest)) = (0, ' ' :: (number ++ ':' :: rest)) := by
  refine readIndent.eq_2 _ ?_
  intro other same
  cases number with
  | nil => simp at same
  | cons digit number =>
    simp only [List.cons_append, List.cons.injEq] at same
    exact noBar (same.2.1 ▸ List.mem_cons_self ..)

/-- A line is read back. -/
theorem readLine_body {shown : Shown} (readable : shown.Readable) : readLine shown.body = some shown := by
  cases shown with
  | cls level typeChar nameDemangled => exact readLine_indentText level rfl
  | base level i offset flags =>
    have noColon : ':' ∉ Numeral.write 10 i := numeral_clean (by decide) (by decide) (by decide)
    have noSpace : ' ' ∉ (Numeral.write 16 offset.natAbs).leftpad 4 '0' := by
      rw [List.leftpad, List.mem_append, not_or]
      refine ⟨?_, numeral_clean (by decide) (by decide) (by decide)⟩
      intro member
      exact absurd (List.eq_of_mem_replicate member) (by decide)
    have noBar : '|' ∉ Numeral.write 10 i := numeral_clean (by decide) (by decide) (by decide)
    have words : ∀ flag ∈ flags, flag ≠ [] ∧ ' ' ∉ flag := fun flag member => (readable flag member).imp_right And.left
    rw [Shown.body, readLine_indentText level (readIndent_number noBar), readBody, readBase, cutAt_append noColon]
    simp only
    rw [cutAt_append noSpace, Numeral.read_write (by decide) (by decide), readOffset_write,
      readFlags_intercalate words]

theorem intercalate_clean {c : Char} (other : c ≠ ' ') {flags : List CStr} (clean : ∀ flag ∈ flags, c ∉ flag) :
    c ∉ [' '].intercalate flags := by
  induction flags with
  | nil => exact List.not_mem_nil
  | cons flag flags ih =>
    obtain ⟨here, rest⟩ := List.forall_mem_cons.mp clean
    cases flags with
    | nil => simpa using here
    | cons next flags =>
      rw [List.intercalate_cons_cons]
      simp [here, other, ih rest]

/-- The body of a line has no line break. -/
theorem body_clean {shown : Shown} (readable : shown.Readable) : '\n' ∉ shown.body := by
  have indentClean (level : Nat) : '\n' ∉ indentText level := by
    induction level with
    | zero => exact List.not_mem_nil
    | succ level ih => simp [indentText, ih]
  cases shown with
  | cls level typeChar nameDemangled =>
    obtain ⟨charClean, nameClean⟩ := readable
    simp [Shown.body, indentClean, nameClean, charClean.symm]
  | base level i offset flags =>
    have flagsClean : '\n' ∉ [' '].intercalate flags :=
      intercalate_clean (by decide) fun flag member => (readable flag member).2.2
    have index : '\n' ∉ Numeral.write 10 i := numeral_clean (by decide) (by decide) (by decide)
    have distance : '\n' ∉ Numeral.write 16 offset.natAbs := numeral_clean (by decide) (by decide) (by decide)
    have sign : '\n' ≠ if 0 ≤ offset then '+' else '-' := by split <;> decide
    simp [Shown.body, List.leftpad, indentClean, flagsClean, index, distance, sign]

theorem readOutput_cons {shown : Shown} (readable : shown.Readable) (rest : CStr) :
    readOutput (shown.text ++ rest) = shown :: readOutput rest := by
  have line : readOutput (shown.body ++ '\n' :: rest) = shown :: readOutput rest := by
    rw [readOutput, List.splitOn_append_cons_self_of_not_mem (body_clean readable),
      List.filterMap_cons_some (readLine_body readable)]
    rfl
  have blank : readOutput ('\n' :: (shown.body ++ '\n' :: rest)) = readOutput (shown.body ++ '\n' :: rest) := by
    have split := List.splitOn_append_cons_self_of_not_mem (a := '\n') List.not_mem_nil (shown.body ++ '\n' :: rest)
    rw [List.nil_append] at split
    rw [readOutput, split]
    rfl
  have ends : shown.body ++ ['\n'] ++ rest = shown.body ++ '\n' :: rest := (List.append_cons ..).symm
  unfold Shown.text
  split
  · rw [List.cons_append, ends, blank, line]
  · rw [ends, line]

/-- What is written is read back. -/
theorem readOutput_outputText {lines : List Shown} (readable : ∀ shown ∈ lines, shown.Readable) :
    readOutput (outputText lines) = lines := by
  induction lines with
  | nil => rfl
  | cons shown lines ih =>
    obtain ⟨here, rest⟩ := List.forall_mem_cons.mp readable
    rw [outputText, List.flatMap_cons, readOutput_cons here, ← outputText, ih rest]

theorem elfTypeChar_known (addr : U32) (typeid : Typeid) : (elfTypeChar addr typeid).1 ≠ '\n' := by
  cases typeid with
  | other name =>
    rw [elfTypeChar]
    split <;> simp
  | _ => simp [elfTypeChar]

theorem machoTypeChar_known (kind : CStr) :
    Holds (fun _ => True) (machoTypeChar kind) fun typeChar => typeChar ≠ '\n' := by
  unfold machoTypeChar
  repeat' split
  all_goals simp [Holds]

section

variable {env : Env} {libs : Libs} {symcache : Symcache}

theorem typeinfoHead_known (sym : Symbol) :
    Holds (fun _ => True) (typeinfoHead env libs sym) fun head => head.typeChar ≠ '\n' := by
  have first : (if (libs sym.lib).isElf then elfTypeinfoHead env libs sym else {}).typeChar ≠ '\n' := by
    split
    · exact elfTypeChar_known sym.addr _
    · decide
  unfold typeinfoHead
  dsimp only
  split
  · refine (Holds.trivial _).bind fun rtti _ => (Holds.trivial _).bind fun found _ => ?_
    split
    · exact first
    · split
      · exact first
      · exact (machoTypeChar_known _).bind fun typeChar known => known
  · exact first

section

variable {P : Line → Prop} {recurse : Symbol → Emits Fault Line} (warned : ∀ warning, P (.warn warning))
  (called : ∀ base, ∀ line ∈ (recurse base).events, P line)
include warned called

theorem followed_every (found : Option Symbol) (warning : Warning) :
    ∀ line ∈ (match found with
      | some base => recurse base
      | none => .emit (.warn warning)).events, P line := by
  cases found with
  | none => exact List.forall_mem_singleton.mpr (warned warning)
  | some base => exact called base

theorem typeinfoBases_every (based : ∀ level i offset offsetFlags, P (.base level i offset (baseFlags offsetFlags)))
    (level : Nat) (head : TypeinfoHead) :
    ∀ line ∈ (typeinfoBases env libs symcache level head recurse).events, P line := by
  intro line member
  unfold typeinfoBases siBase vmiBases at member
  split at member
  · split at member
    · cases member
    · exact followed_every warned called _ _ line member
  · split at member
    · split at member
      · cases member
      · obtain ⟨run, inRuns, inRun⟩ := Emits.mem_flow member
        obtain ⟨i, _, rfl⟩ := List.mem_map.mp inRuns
        simp only [vmiBase] at inRun
        split at inRun
        · cases inRun
        · rcases Emits.mem_append inRun with offsetLine | inBase
          · rw [List.mem_singleton.mp offsetLine]
            exact based ..
          · split at inBase
            · cases inBase
            · exact followed_every warned called _ _ line inBase
    · cases member

end

/-- What holds of every warning, of the line of every base and of the line of every class holds of all lines. -/
theorem recurseTypeinfo_every {P : Line → Prop} (warned : ∀ warning, P (.warn warning))
    (based : ∀ level i offset offsetFlags, P (.base level i offset (baseFlags offsetFlags)))
    (classed : ∀ level sym head, typeinfoHead env libs sym = .ok head → P (.cls level head.typeChar sym))
    (fuel level : Nat) (sym : Symbol) : ∀ line ∈ (recurseTypeinfo env libs symcache fuel level sym).events, P line := by
  induction fuel generalizing level sym with
  | zero => exact nofun
  | succ fuel ih =>
    intro line member
    rw [recurseTypeinfo] at member
    split at member
    · cases member
    · split at member
      · cases member
      · split at member
        · cases member
        · rename_i head found
          rcases Emits.mem_append member with inWarnings | member
          · rw [Emits.flow_emit] at inWarnings
            obtain ⟨warning, _, rfl⟩ := List.mem_map.mp inWarnings
            exact warned warning
          · rcases Emits.mem_append member with here | inBases
            · rw [List.mem_singleton.mp here]
              exact classed level sym head found
            · exact typeinfoBases_every warned (ih (level + 1)) based level head line inBases

end

/-- The flags of a base are words of the program's own. -/
theorem baseFlags_words (offsetFlags : U32) : ∀ flag ∈ baseFlags offsetFlags, flag ≠ [] ∧ ' ' ∉ flag ∧ '\n' ∉ flag := by
  have words : ∀ flag ∈ ["virtual".toList, "public".toList, "HWM".toList], flag ≠ [] ∧ ' ' ∉ flag ∧ '\n' ∉ flag := by
    decide
  intro flag member
  refine words flag ?_
  simp only [baseFlags, List.mem_append] at member
  rcases member with (first | second) | third
  all_goals
    split at *
    all_goals simp_all

/-- Every line of a call whose class names have no line break can be read back. -/
theorem recurseTypeinfo_readable {env : Env} {libs : Libs} {symcache : Symcache} {fuel level : Nat} {sym : Symbol}
    {line : Line} (member : line ∈ (recurseTypeinfo env libs symcache fuel level sym).events)
    (name : ∀ level typeChar entry, line = .cls level typeChar entry → '\n' ∉ entry.nameDemangled) {shown : Shown}
    (view : line.shown = some shown) : shown.Readable := by
  refine recurseTypeinfo_every (P := fun line =>
    (∀ level typeChar entry, line = .cls level typeChar entry → '\n' ∉ entry.nameDemangled) →
      ∀ shown, line.shown = some shown → shown.Readable) ?_ ?_ ?_ fuel level sym line member name shown view
  · intro warning _ shown view
    cases view
  · intro level i offset offsetFlags _ shown view
    cases view
    exact baseFlags_words offsetFlags
  · intro level entry head found name shown view
    cases view
    exact ⟨(typeinfoHead_known entry).of_ok found, name _ _ _ rfl⟩

theorem mem_mainPrint {env : Env} {libs : Libs} {lFilter : CStr → Bool} {line : Line}
    (member : line ∈ (mainPrint env libs lFilter).events) :
    ∃ root ∈ keptSyms lFilter (symtabForeach env libs).events, line ∈ (recurseTypeinfo env libs
      (fillGlobals lFilter (symtabForeach env libs).events).symcache callDepth 0 root).events := by
  obtain ⟨_, before, root, after, split, _, inRun⟩ := mem_mainPrint_iff.mp member
  have isRoot : root ∈ mainRoots libs (fillGlobals lFilter (symtabForeach env libs).events) := by
    rw [split]
    exact List.mem_append_right _ (List.mem_cons_self ..)
  exact ⟨root, List.mem_of_find?_eq_some (mem_mainRoots.mp isRoot).first, inRun⟩

/-- The lines of the whole program are those of the calls for the roots. -/
theorem mem_mainRun {env : Env} {args : List CStr} {line : Line} (member : line ∈ (mainRun env args).events) :
    ∃ libs symcache sym, line ∈ (recurseTypeinfo env libs symcache callDepth 0 sym).events := by
  have printed {libs : Libs} {argFilter : Option CStr} (loaded : line ∈ (mainLoaded env libs argFilter).events) :
      ∃ libs symcache sym, line ∈ (recurseTypeinfo env libs symcache callDepth 0 sym).events := by
    obtain ⟨lFilter, _, inPrint⟩ := mainLoaded_printed loaded
    obtain ⟨root, _, inCall⟩ := mem_mainPrint inPrint
    exact ⟨libs, _, root, inCall⟩
  unfold mainRun at member
  simp only at member
  split at member
  · split at member
    · cases member
    · exact printed member
  · split at member
    · cases member
    · exact printed member
  · cases member

/-- The output of the program can be read back without loss, if none of the printed class names has a line break: the
text determines every line of the tree, in order. -/
theorem mainRun_readable {env : Env} {args : List CStr}
    (names : ∀ level typeChar sym, Line.cls level typeChar sym ∈ (mainRun env args).events → '\n' ∉ sym.nameDemangled) :
    readOutput (outputText (tree (mainRun env args)).events) = (tree (mainRun env args)).events := by
  refine readOutput_outputText ?_
  intro shown member
  obtain ⟨line, inRun, view⟩ := List.mem_filterMap.mp member
  obtain ⟨libs, symcache, sym, inCall⟩ := mem_mainRun inRun
  refine recurseTypeinfo_readable inCall ?_ view
  intro level typeChar entry isCls
  exact names level typeChar entry (isCls ▸ inRun)

/-- The library of `diamondHost` as a file that can be loaded. -/
def diamondElf : ElfFile where
  dynamic := [(0, 0)]
  symbols := [("_ZTI1A", 4), ("_ZTI1B", 12), ("_ZTI1C", 24), ("_ZTI1D", 36)]

def diamondFile : Env := fileHost [("app", diamondElf)] diamondHost.mem diamondHost.typeid

theorem diamondFile_readable :
    (tree (mainRun diamondFile ["app".toList])).events.length = 12 ∧
      readOutput (outputText (tree (mainRun diamondFile ["app".toList])).events) =
        (tree (mainRun diamondFile ["app".toList])).events := by
  refine ⟨by decide +kernel, mainRun_readable ?_⟩
  have clean : ∀ shown ∈ (tree (mainRun diamondFile ["app".toList])).events, '\n' ∉ shown.body := by decide +kernel
  intro level typeChar sym printed inName
  refine clean (.cls level typeChar sym.nameDemangled) (mem_tree printed rfl) ?_
  simp [Shown.body, inName]

/-- The classes that are printed for a run: the roots with an address, and below each class its resolved bases. -/
def hierarchy (env : Env) (libs : Libs) (lFilter : CStr → Bool) (heap : Symbol → Typeinfo) : Forest Symbol :=
  let globals := fillGlobals lFilter (symtabForeach env libs).events
  .grow (fun sym => (nextBases libs globals.symcache heap sym).reduceOption) callDepth
    ((mainRoots libs globals).filter fun sym => sym.addr ≠ 0)

/-- The enumeration comes to its end, and the type information of all classes that the roots lead to is stored and
is no deeper than the indentation allows. -/
structure Readings (env : Env) (libs : Libs) (lFilter : CStr → Bool) (heap : Symbol → Typeinfo) : Prop where
  enumerated : (symtabForeach env libs).stop = none
  stored : ∀ root ∈ mainRoots libs (fillGlobals lFilter (symtabForeach env libs).events), root.addr ≠ 0 → ∀ path entry,
    Path (nextBases libs (fillGlobals lFilter (symtabForeach env libs).events).symcache heap) root path entry →
      Stored env libs entry (heap entry)
  bounded : ∀ root ∈ mainRoots libs (fillGlobals lFilter (symtabForeach env libs).events), root.addr ≠ 0 → ∀ path entry,
    Path (nextBases libs (fillGlobals lFilter (symtabForeach env libs).events).symcache heap) root path entry →
      path.length ≤ 255

/-- Roots without an address print nothing. -/
theorem flatMap_nonzero {roots : List Symbol} {lines tree : Symbol → List Line}
    (each : ∀ root ∈ roots, lines root = if root.addr = 0 then [] else tree root) :
    roots.flatMap lines = (roots.filter fun root => root.addr ≠ 0).flatMap tree := by
  induction roots with
  | nil => rfl
  | cons root roots ih =>
    obtain ⟨here, rest⟩ := List.forall_mem_cons.mp each
    rw [List.flatMap_cons, here, ih rest]
    by_cases zero : root.addr = 0
    · rw [if_pos zero, List.filter_cons_of_neg (by simpa using zero), List.nil_append]
    · rw [if_neg zero, List.filter_cons_of_pos (by simpa using zero), List.flatMap_cons]

/-- The line of a class of the hierarchy. -/
def classLine (heap : Symbol → Typeinfo) (entry : Nat × Symbol) : Line :=
  .cls entry.1 (heap entry.2).typeChar entry.2

section

variable {env : Env} {libs : Libs} {lFilter : CStr → Bool} {heap : Symbol → Typeinfo}
  (readings : Readings env libs lFilter heap)
include readings

/-- The call for a root prints the outline of the tree below it. -/
theorem Readings.root {root : Symbol}
    (isRoot : root ∈ mainRoots libs (fillGlobals lFilter (symtabForeach env libs).events)) :
    let globals := fillGlobals lFilter (symtabForeach env libs).events
    let next := fun sym => (nextBases libs globals.symcache heap sym).reduceOption
    (recurseTypeinfo env libs globals.symcache callDepth 0 root).stop = none ∧
      classLines (recurseTypeinfo env libs globals.symcache callDepth 0 root) =
        if root.addr = 0 then [] else ((Forest.grow next callDepth [root]).outline 0).map (classLine heap) := by
  dsimp only
  split
  · rename_i zero
    have silent : recurseTypeinfo env libs (fillGlobals lFilter (symtabForeach env libs).events).symcache callDepth 0
        root = .nil := if_pos zero
    rw [silent]
    exact ⟨rfl, rfl⟩
  · rename_i nonzero
    have bounded := readings.bounded root isRoot nonzero
    obtain ⟨ended, lines⟩ := recurseTypeinfo_unfold callDepth 0 rfl nonzero (readings.stored root isRoot nonzero)
      (by simpa using bounded)
    refine ⟨ended, ?_⟩
    rw [lines, ← Forest.unfold_outline, List.map_map]
    rfl

/-- The class lines of the program are the outline of the hierarchy. -/
theorem Readings.classLines : (mainPrint env libs lFilter).stop = none ∧
    classLines (mainPrint env libs lFilter) = ((hierarchy env libs lFilter heap).outline 0).map (classLine heap) := by
  have ended : (mainPrint env libs lFilter).stop = none := by
    rw [mainPrint]
    simp only [readings.enumerated, Emits.flow_ended, List.forall_mem_map]
    exact fun root isRoot => (readings.root isRoot).1
  refine ⟨ended, ?_⟩
  have printed := mainPrint_eq ended
  rw [printed] at ended
  rw [printed, Classgraph.classLines, Emits.flow_events ended, List.flatMap_map, List.filter_flatMap, hierarchy,
    Forest.outline_grow_roots, List.map_flatMap]
  exact flatMap_nonzero fun root isRoot => (readings.root isRoot).2

end

/-- The classes of a text with their characters and names. -/
def readClass : Shown → Option (Nat × Char × CStr)
  | .cls level typeChar nameDemangled => some (level, typeChar, nameDemangled)
  | .base .. => none

def readHierarchy (text : CStr) : Forest (Char × CStr) :=
  let classes := (readOutput text).filterMap readClass
  .ofOutline classes.length 0 classes

theorem readClass_shown (lines : List Line) :
    (lines.filterMap Line.shown).filterMap readClass =
      (lines.filter Line.isCls).filterMap fun line => line.shown.bind readClass := by
  rw [List.filterMap_filterMap, List.filterMap_filter]
  refine List.filterMap_congr ?_
  intro line _
  cases line <;> rfl

/-- A text that lists the classes of a forest is read as this forest. -/
theorem readHierarchy_outline {lines : List Shown} {forest : Forest (Char × CStr)}
    (readable : ∀ shown ∈ lines, shown.Readable) (classes : lines.filterMap readClass = forest.outline 0) :
    readHierarchy (outputText lines) = forest := by
  rw [readHierarchy, readOutput_outputText readable]
  simp only [classes]
  exact Forest.ofOutline_outline forest 0 (Nat.le_refl _)

/-- What is printed for such a process lists the classes of its hierarchy. -/
theorem Readings.printed {env : Env} {libs : Libs} {lFilter : CStr → Bool} {heap : Symbol → Typeinfo}
    (readings : Readings env libs lFilter heap)
    (names : ∀ sym ∈ keptSyms lFilter (symtabForeach env libs).events, '\n' ∉ sym.nameDemangled) :
    (∀ shown ∈ (tree (mainPrint env libs lFilter)).events, shown.Readable) ∧
      (tree (mainPrint env libs lFilter)).events.filterMap readClass =
        ((hierarchy env libs lFilter heap).map fun sym => ((heap sym).typeChar, sym.nameDemangled)).outline 0 := by
  refine ⟨?_, ?_⟩
  · intro shown member
    obtain ⟨line, inPrint, view⟩ := List.mem_filterMap.mp member
    obtain ⟨root, kept, inCall⟩ := mem_mainPrint inPrint
    refine recurseTypeinfo_readable inCall ?_ view
    intro level typeChar entry isCls
    exact names entry (printed_kept kept (isCls ▸ inCall))
  · have view (entry : Nat × Symbol) : (classLine heap entry).shown.bind readClass =
        some (entry.1, (heap entry.2).typeChar, entry.2.nameDemangled) := rfl
    rw [tree, Emits.filterMap, readClass_shown, ← Classgraph.classLines, readings.classLines.2, List.filterMap_map,
      Forest.outline_map]
    simp only [Function.comp_def, view, List.filterMap_eq_map']

/-- The whole hierarchy can be read off the text that the program prints for it. -/
theorem readHierarchy_mainPrint {env : Env} {libs : Libs} {lFilter : CStr → Bool} {heap : Symbol → Typeinfo}
    (readings : Readings env libs lFilter heap)
    (names : ∀ sym ∈ (symtabForeach env libs).events, '\n' ∉ sym.nameDemangled) :
    (mainPrint env libs lFilter).stop = none ∧
      readHierarchy (outputText (tree (mainPrint env libs lFilter)).events) =
        (hierarchy env libs lFilter heap).map fun sym => ((heap sym).typeChar, sym.nameDemangled) := by
  obtain ⟨readable, classes⟩ := readings.printed fun sym member => names sym (keptSyms_mem member)
  exact ⟨readings.classLines.1, readHierarchy_outline readable classes⟩

theorem diamond_reached {root entry : Symbol} {path : List Nat} (member : root ∈ diamondSyms)
    (path' : Path (nextBases diamondLibs diamondCache diamondHeap) root path entry) :
    entry ∈ diamondSyms ∧ path.length + entry.addr.toNat ≤ root.addr.toNat := by
  have closed : ∀ sym ∈ diamondSyms, ∀ found ∈ nextBases diamondLibs diamondCache diamondHeap sym,
      ∀ base ∈ found, base ∈ diamondSyms ∧ base.addr.toNat < sym.addr.toNat := by
    decide +kernel
  refine path'.ranked (P := (· ∈ diamondSyms)) (fun sym => sym.addr.toNat) ?_ member
  intro sym member base next
  exact closed sym member _ next base rfl

theorem diamond_hierarchy :
    (mainPrint diamondHost diamondLibs fun _ => true).stop = none ∧
      readHierarchy (outputText (tree (mainPrint diamondHost diamondLibs fun _ => true)).events) =
        .node ('-', "_ZTI1A".toList) .nil
          (.node ('+', "_ZTI1B".toList) (.node ('-', "_ZTI1A".toList) .nil .nil)
            (.node ('+', "_ZTI1C".toList) (.node ('-', "_ZTI1A".toList) .nil .nil)
              (.node ('#', "_ZTI1D".toList)
                (.node ('+', "_ZTI1B".toList) (.node ('-', "_ZTI1A".toList) .nil .nil)
                  (.node ('+', "_ZTI1C".toList) (.node ('-', "_ZTI1A".toList) .nil .nil) .nil)) .nil))) := by
  have enumerated : symtabForeach diamondHost diamondLibs = ⟨diamondSyms, none⟩ := by decide +kernel
  have small : ∀ sym ∈ diamondSyms, sym.addr.toNat ≤ 255 ∧ '\n' ∉ sym.nameDemangled := by decide
  have inSyms {root : Symbol} (isRoot : root ∈ mainRoots diamondLibs (fillGlobals (fun _ => true) diamondSyms)) :
      root ∈ diamondSyms := keptSyms_mem (List.mem_of_find?_eq_some (mem_mainRoots.mp isRoot).first)
  have readings : Readings diamondHost diamondLibs (fun _ => true) diamondHeap := by
    refine ⟨congrArg Emits.stop enumerated, ?_, ?_⟩
    all_goals
      rw [enumerated]
      intro root isRoot _ path entry path'
      obtain ⟨member, bound⟩ := diamond_reached (inSyms isRoot) path'
    · exact diamond_stored entry member
    · have top := (small root (inSyms isRoot)).1
      omega
  have read := readHierarchy_mainPrint readings (by rw [enumerated]; exact fun sym member => (small sym member).2)
  refine ⟨read.1, read.2.trans ?_⟩
  rw [hierarchy, enumerated]
  decide +kernel

end Classgraph
