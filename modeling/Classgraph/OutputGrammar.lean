import Classgraph.Main

namespace Classgraph
open Emits Machine

/-- A class whose bases are being printed: its character, how many offset lines it has, and whether the line of a base
may come next. -/
structure OpenClass where
  typeChar : Char
  bases : Nat
  expects : Bool

/-- A class without any line below it yet. Only one with a single base needs no offset line. -/
def OpenClass.start (typeChar : Char) : OpenClass := ⟨typeChar, 0, typeChar = '+'⟩

/-- What a line does to the classes that are open, outermost first; nothing where the line must not come next. A class
is the base of an open class that expects one, and an offset line belongs to an open class with several bases and is
numbered in order. Warnings go to another stream. -/
def follow (classes : List OpenClass) : Line → Option (List OpenClass)
  | .warn _ => some classes
  | .cls 0 typeChar _ => some [.start typeChar]
  | .cls (level + 1) typeChar _ => do
    let parent ← classes[level]?
    if parent.expects then some (classes.take level ++ [{ parent with expects := false }, .start typeChar]) else none
  | .base level i _ _ => do
    let parent ← classes[level]?
    if parent.typeChar = '#' ∧ parent.bases = i then
      some (classes.take level ++ [{ parent with bases := i + 1, expects := true }])
    else none

/-- Above a level the open classes are the same, except for what they expect. -/
def KeptAbove (level : Nat) (classes classes' : List OpenClass) : Prop :=
  ∀ k < level, classes'[k]?.map (fun parent => (parent.typeChar, parent.bases)) =
    classes[k]?.map fun parent => (parent.typeChar, parent.bases)

/-- A class may be printed at the level. -/
def Ready (level : Nat) (classes : List OpenClass) : Prop :=
  ∀ above, level = above + 1 → ∃ parent, classes[above]? = some parent ∧ parent.expects

section

variable {level : Nat} {classes classes' : List OpenClass}

theorem Ready.zero (classes : List OpenClass) : Ready 0 classes :=
  fun above same => absurd same (Nat.succ_ne_zero above).symm

theorem KeptAbove.refl (level : Nat) (classes : List OpenClass) : KeptAbove level classes classes := fun _ _ => rfl

theorem KeptAbove.trans {classes'' : List OpenClass} (first : KeptAbove level classes classes')
    (second : KeptAbove level classes' classes'') : KeptAbove level classes classes'' :=
  fun k above => (second k above).trans (first k above)

theorem KeptAbove.mono {upper : Nat} (kept : KeptAbove level classes classes') (inside : upper ≤ level) :
    KeptAbove upper classes classes' := fun k above => kept k (Nat.lt_of_lt_of_le above inside)

/-- Replacing the open classes from a level on. -/
theorem KeptAbove.take (rest : List OpenClass) (bound : level ≤ classes.length) :
    KeptAbove level classes (classes.take level ++ rest) := by
  intro k above
  have inTake : k < (classes.take level).length := by
    rw [List.length_take]
    omega
  rw [List.getElem?_append_left inTake, List.getElem?_take_of_lt above]

theorem getElem?_take_append {parent : OpenClass} {rest : List OpenClass} (bound : level ≤ classes.length) :
    (classes.take level ++ parent :: rest)[level]? = some parent := by
  have length : (classes.take level).length = level := by
    rw [List.length_take]
    omega
  rw [List.getElem?_append_right (by omega), length, Nat.sub_self]
  rfl

theorem follow_cls (typeChar : Char) (sym : Symbol) (ready : Ready level classes) :
    ∃ classes', follow classes (.cls level typeChar sym) = some classes' ∧ KeptAbove level classes classes' ∧
      classes'[level]? = some (.start typeChar) := by
  cases level with
  | zero => exact ⟨_, rfl, fun k above => absurd above (Nat.not_lt_zero k), rfl⟩
  | succ level =>
    obtain ⟨parent, atLevel, expects⟩ := ready level rfl
    have bound := (List.getElem?_eq_some_iff.mp atLevel).1
    refine ⟨classes.take level ++ [{ parent with expects := false }, .start typeChar], ?_, ?_, ?_⟩
    · rw [follow, atLevel]
      exact if_pos expects
    · intro k above
      rcases Nat.lt_succ_iff_lt_or_eq.mp above with further | rfl
      · exact KeptAbove.take _ bound.le k further
      · rw [getElem?_take_append bound.le, atLevel]
        rfl
    · have behind : level + 1 = (classes.take level ++ [{ parent with expects := false }]).length := by
        simp [Nat.min_eq_left bound.le]
      rw [List.append_cons, behind]
      exact List.getElem?_concat_length

theorem follow_base {parent : OpenClass} (i : Nat) (offset : Int) (flags : List CStr)
    (atLevel : classes[level]? = some parent) (isVmi : parent.typeChar = '#') (count : parent.bases = i) :
    ∃ classes', follow classes (.base level i offset flags) = some classes' ∧ KeptAbove level classes classes' ∧
      classes'[level]? = some { parent with bases := i + 1, expects := true } := by
  have bound := (List.getElem?_eq_some_iff.mp atLevel).1
  refine ⟨classes.take level ++ [{ parent with bases := i + 1, expects := true }], ?_, .take _ bound.le,
    getElem?_take_append bound.le⟩
  rw [follow, atLevel]
  exact if_pos ⟨isVmi, count⟩

/-- The class at the level is one with several bases, of which `i` have their offset line. -/
def Counted (level i : Nat) (classes : List OpenClass) : Prop :=
  ∃ parent, classes[level]? = some parent ∧ parent.typeChar = '#' ∧ parent.bases = i

theorem Counted.kept {i : Nat} (counted : Counted level i classes) (kept : KeptAbove (level + 1) classes classes') :
    Counted level i classes' := by
  obtain ⟨parent, atLevel, isVmi, count⟩ := counted
  have same := kept level (Nat.lt_succ_self level)
  rw [atLevel, Option.map_some] at same
  obtain ⟨parent', atLevel', shape⟩ := Option.map_eq_some_iff.mp same
  rw [Prod.ext_iff] at shape
  exact ⟨parent', atLevel', shape.1.trans isVmi, shape.2.trans count⟩

end

section

variable {env : Env} {libs : Libs} {symcache : Symcache} {level : Nat} {head : TypeinfoHead}
  {recurse : Symbol → Emits Fault Line}
  (called : ∀ base classes, Ready (level + 1) classes →
    Accepted follow (KeptAbove (level + 1) classes) classes (recurse base) fun _ => True)
include called

theorem vmiBase_accepted {rtti : U32} (i : Nat) {start classes : List OpenClass} (kept : KeptAbove level start classes)
    (counted : Counted level i classes) :
    Accepted follow (KeptAbove level start) classes (vmiBase env libs symcache level rtti recurse i)
      (Counted level (i + 1)) := by
  simp only [vmiBase]
  split
  · exact .halt kept _
  · obtain ⟨parent, atLevel, isVmi, count⟩ := counted
    obtain ⟨classes', followed, kept', atLevel'⟩ := follow_base i _ _ atLevel isVmi count
    have counted' : Counted level (i + 1) classes' := ⟨_, atLevel', isVmi, rfl⟩
    have ready : Ready (level + 1) classes' := by
      rintro above ⟨⟩
      exact ⟨_, atLevel', rfl⟩
    have line : Accepted follow (KeptAbove level start) classes
        (.emit (.base level i _ _) : Emits Fault Line) (· = classes') := .emit followed (kept.trans kept') rfl
    refine line.append ?_
    rintro _ kept rfl
    split
    · exact .halt kept _
    · split
      · rename_i base _
        refine (called base _ ready).imp ?_ ?_
        · exact fun last later => kept.trans (later.mono (Nat.le_succ level))
        · exact fun last later _ => counted'.kept later
      · exact .emit rfl kept counted'

/-- The bases of a class are printed below it. -/
theorem typeinfoBases_accepted {classes : List OpenClass} (opened : classes[level]? = some (.start head.typeChar)) :
    Accepted follow (KeptAbove level classes) classes (typeinfoBases env libs symcache level head recurse)
      fun _ => True := by
  unfold typeinfoBases siBase vmiBases
  split
  · rename_i isSi
    split
    · exact .halt (.refl _ _) _
    · split
      · rename_i base _
        have ready : Ready (level + 1) classes := by
          rintro above ⟨⟩
          exact ⟨_, opened, decide_eq_true isSi⟩
        exact (called base classes ready).imp (fun last later => later.mono (Nat.le_succ level)) fun _ _ _ => trivial
      · exact .emit rfl (.refl _ _) trivial
  · split
    · rename_i isVmi
      split
      · exact .halt (.refl _ _) _
      · rw [List.range_eq_range']
        have counted : Counted level 0 classes := ⟨_, opened, isVmi, rfl⟩
        refine (Accepted.rounds (fun i classes' kept counted => ?_) _ 0 (.refl level classes) counted).imp
          (fun _ kept => kept) fun _ _ _ => trivial
        exact vmiBase_accepted called i kept counted
    · exact .nil (.refl _ _) trivial

end

section

variable {env : Env} {libs : Libs} {symcache : Symcache}

/-- A call prints lines for its own class and for classes below it. -/
theorem recurseTypeinfo_accepted (fuel : Nat) {level : Nat} (sym : Symbol) {classes : List OpenClass}
    (ready : Ready level classes) :
    Accepted follow (KeptAbove level classes) classes (recurseTypeinfo env libs symcache fuel level sym)
      fun _ => True := by
  induction fuel generalizing level sym classes with
  | zero => exact .halt (.refl _ _) _
  | succ fuel ih =>
    rw [recurseTypeinfo]
    split
    · exact .nil (.refl _ _) trivial
    · split
      · exact .halt (.refl _ _) _
      · split
        · exact .halt (.refl _ _) _
        · rename_i head _
          have warnings : Accepted follow (KeptAbove level classes) classes
              (Emits.flow (head.warnings.map fun warning => .emit (.warn warning)) : Emits Fault Line)
              (· = classes) := by
            induction head.warnings with
            | nil => exact .nil (.refl _ _) rfl
            | cons warning warnings rest =>
              have line : Accepted follow (KeptAbove level classes) classes
                  (.emit (.warn warning) : Emits Fault Line) (· = classes) := .emit rfl (.refl _ _) rfl
              refine line.append ?_
              intro state _ same
              rw [same]
              exact rest
          refine warnings.append ?_
          intro state _ same
          rw [same]
          obtain ⟨classes', followed, kept, opened⟩ := follow_cls head.typeChar sym ready
          have line : Accepted follow (KeptAbove level classes) classes
              (.emit (.cls level head.typeChar sym) : Emits Fault Line) (· = classes') := .emit followed kept rfl
          refine line.append ?_
          intro state _ same
          rw [same]
          exact (typeinfoBases_accepted (fun base _ => ih base) opened).imp (fun _ later => kept.trans later)
            fun _ _ _ => trivial

theorem mainPrint_accepted (lFilter : CStr → Bool) (classes : List OpenClass) :
    ((mainPrint env libs lFilter).events.foldlM follow classes).isSome := by
  have roots (symcache : Symcache) (syms : List Symbol) (classes : List OpenClass) :
      Accepted follow (fun _ => True) classes
        (Emits.flow (syms.map (recurseTypeinfo env libs symcache callDepth 0))) fun _ => True := by
    induction syms generalizing classes with
    | nil => exact .nil trivial trivial
    | cons root syms rest =>
      have call : Accepted follow (fun _ => True) classes (recurseTypeinfo env libs symcache callDepth 0 root)
          fun _ => True :=
        (recurseTypeinfo_accepted callDepth root (.zero classes)).imp (fun _ _ => trivial) fun _ _ kept => kept
      exact call.append fun state _ _ => rest state
  unfold mainPrint
  dsimp only
  split
  · rfl
  · obtain ⟨last, steps, _⟩ := roots _ _ classes
    rw [steps]
    rfl

end

/-- The lines of every run, also of one that a fault cuts short, form the outline of a forest: a class is printed at
level 0 or below the latest class of the level above, which has a single base and no other line below it, or has
several bases and just got the offset line for this one. Offset lines are numbered from 0 on without a gap. -/
theorem mainRun_outline (env : Env) (args : List CStr) : ((mainRun env args).events.foldlM follow []).isSome := by
  have loaded (libs : Libs) (argFilter : Option CStr) :
      ((mainLoaded env libs argFilter).events.foldlM follow []).isSome := by
    unfold mainLoaded
    split
    · rw [mainThrow_events]
      rfl
    · exact mainPrint_accepted _ _
  unfold mainRun
  dsimp only
  split
  · split
    · rfl
    · exact loaded _ none
  · split
    · rfl
    · exact loaded _ (some _)
  · rfl

end Classgraph
