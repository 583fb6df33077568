import Classgraph.General.Regex
import Classgraph.ReadFaults

namespace Classgraph
open Run Machine

/-- The kinds of type information that the regular expression tells apart. -/
inductive TypeinfoKind
  | cls | siClass | vmiClass | array | enum | function | pointerToMember | pointer | fundamental
  deriving DecidableEq

namespace TypeinfoKind

def all : List TypeinfoKind :=
  [.cls, .siClass, .vmiClass, .array, .enum, .function, .pointerToMember, .pointer, .fundamental]

def text : TypeinfoKind → CStr
  | .cls => "class".toList
  | .siClass => "si_class".toList
  | .vmiClass => "vmi_class".toList
  | .array => "array".toList
  | .enum => "enum".toList
  | .function => "function".toList
  | .pointerToMember => "pointer_to_member".toList
  | .pointer => "pointer".toList
  | .fundamental => "fundamental".toList

def typeChar : TypeinfoKind → Char
  | .cls => '-'
  | .siClass => '+'
  | .vmiClass => '#'
  | .array => 'A'
  | .enum => 'E'
  | .function => 'F'
  | .pointerToMember => 'M'
  | .pointer => '*'
  | .fundamental => '.'

theorem mem_all (kind : TypeinfoKind) : kind ∈ all := by
  cases kind <;> decide

end TypeinfoKind

/-- The regular expression `re_typeinfo`. In the `egrep` grammar a dot matches every character of a C string. -/
def reTypeinfo : Regex Char :=
  .sequence [.start, .literal "_ZTVN10__cxxabiv1".toList, .times 2 (.symbol Char.isDigit), .literal "__".toList,
    .group (.choice ((TypeinfoKind.all.map TypeinfoKind.text).map .literal)), .literal "_type_infoE".toList,
    .star (.symbol fun _ => true), .stop]

/-- The names that the grammar of the regular expression gives a kind. -/
def TypeinfoName (name : CStr) (kind : TypeinfoKind) : Prop :=
  ∃ digits tail, (digits.length = 2 ∧ digits.all Char.isDigit) ∧
    name = "_ZTVN10__cxxabiv1".toList ++ digits ++ "__".toList ++ kind.text ++ "_type_infoE".toList ++ tail

theorem matches_reTypeinfo {name : CStr} {captured : List CStr} :
    reTypeinfo.FullMatch name captured ↔ ∃ kind, TypeinfoName name kind ∧ captured = [kind.text] := by
  have tail {before rest : CStr} {inner : List CStr} :
      (Regex.seq (.star (.symbol fun _ => true)) (.seq .stop .empty)).Matches before rest [] inner ↔ inner = [] := by
    rw [Regex.matches_seq_word _ Regex.matches_star_symbol]
    simp only [Regex.matches_seq, Regex.matches_stop, Regex.matches_empty]
    simp
  rw [reTypeinfo, Regex.FullMatch]
  simp only [Regex.sequence]
  rw [Regex.matches_start_seq, Regex.matches_literal_seq]
  simp only [Regex.matches_seq_word _ Regex.matches_times_symbol, Regex.matches_literal_seq, Regex.matches_group_seq,
    tail]
  constructor
  · rintro ⟨_, rfl, digits, _, isDigits, rfl, _, rfl, word, member, _, _, rfl, rfl, rest, rfl, rfl⟩
    obtain ⟨kind, _, rfl⟩ := List.mem_map.mp member
    exact ⟨kind, ⟨digits, rest, isDigits, by simp only [List.append_assoc]⟩, rfl⟩
  · rintro ⟨kind, ⟨digits, rest, isDigits, rfl⟩, rfl⟩
    have member : kind.text ∈ TypeinfoKind.all.map TypeinfoKind.text := List.mem_map_of_mem kind.mem_all
    exact ⟨_, by simp only [List.append_assoc], digits, _, isDigits, rfl, _, rfl, kind.text, member, _, [], rfl, rfl,
      rest, rfl, rfl⟩

/-- What follows the digits of a name. -/
def TypeinfoKind.suffix (kind : TypeinfoKind) : CStr := kind.text ++ "_type_infoE".toList

theorem suffixes_prefixFree : Regex.PrefixFree (TypeinfoKind.all.map TypeinfoKind.suffix) := by decide

theorem TypeinfoKind.suffix_injective {kind kind' : TypeinfoKind} (same : kind.suffix = kind'.suffix) :
    kind = kind' := by
  have distinct : ∀ kind ∈ all, ∀ kind' ∈ all, kind.suffix = kind'.suffix → kind = kind' := by decide
  exact distinct kind kind.mem_all kind' kind'.mem_all same

/-- A tail that repeats the delimiter and alternatives that end like another one do not make a name ambiguous. -/
theorem TypeinfoName.unique {name : CStr} {kind kind' : TypeinfoKind} (isName : TypeinfoName name kind)
    (isName' : TypeinfoName name kind') : kind = kind' := by
  obtain ⟨digits, tail, ⟨length, _⟩, split⟩ := isName
  obtain ⟨digits', tail', ⟨length', _⟩, split'⟩ := isName'
  have same := split.symm.trans split'
  simp only [List.append_assoc] at same
  have afterPrefix := List.append_cancel_left same
  have afterDigits := (List.append_inj afterPrefix (length.trans length'.symm)).2
  have suffixes := List.append_cancel_left afterDigits
  rw [← List.append_assoc, ← List.append_assoc] at suffixes
  have member (kind : TypeinfoKind) := List.mem_map_of_mem (f := TypeinfoKind.suffix) kind.mem_all
  exact TypeinfoKind.suffix_injective (suffixes_prefixFree.unique (member kind) (member kind') suffixes)

theorem reTypeinfo_unambiguous : reTypeinfo.Unambiguous := by
  intro name captured captured' found found'
  obtain ⟨kind, isName, rfl⟩ := matches_reTypeinfo.mp found
  obtain ⟨kind', isName', rfl⟩ := matches_reTypeinfo.mp found'
  rw [isName.unique isName']

/-- What the program takes from an answer: the text of the group, where `m_typeinfo.size() == 2`. -/
def capturedKind : Option (List CStr) → Option CStr
  | some [kind] => some kind
  | _ => none

/-- `std::regex_match` finds some match of the whole name, and fails only where there is none. -/
def MatchesTypeinfo (env : Env) : Prop :=
  ∀ name, ∃ answer, reTypeinfo.Answers name answer ∧ env.reTypeinfo name = capturedKind answer

theorem machoTypeChar_text (kind : TypeinfoKind) : machoTypeChar kind.text = .ok kind.typeChar := by
  cases kind <;> decide

section

variable {env : Env} (engine : MatchesTypeinfo env)
include engine

theorem reTypeinfo_answer {name : CStr} {answer : Option (List CStr)} (isAnswer : reTypeinfo.Answers name answer) :
    env.reTypeinfo name = capturedKind answer := by
  obtain ⟨answer', isAnswer', taken⟩ := engine name
  rw [taken, reTypeinfo_unambiguous.answers isAnswer' isAnswer]

theorem reTypeinfo_name {name : CStr} {kind : TypeinfoKind} (isName : TypeinfoName name kind) :
    env.reTypeinfo name = some kind.text := by
  have isAnswer : reTypeinfo.Answers name (some [kind.text]) := matches_reTypeinfo.mpr ⟨kind, isName, rfl⟩
  exact reTypeinfo_answer engine isAnswer

theorem reTypeinfo_none {name : CStr} (outside : ∀ kind, ¬TypeinfoName name kind) : env.reTypeinfo name = none := by
  have isAnswer : reTypeinfo.Answers name none := by
    intro captured found
    obtain ⟨kind, isName, _⟩ := matches_reTypeinfo.mp found
    exact outside kind isName
  exact reTypeinfo_answer engine isAnswer

/-- Only the nine texts are captured, so that the chain of comparisons has a branch for what is. -/
theorem machoTypeChar_captured {name group : CStr} (captured : env.reTypeinfo name = some group) :
    ∃ kind, TypeinfoName name kind ∧ machoTypeChar group = .ok kind.typeChar := by
  by_cases isSome : ∃ kind, TypeinfoName name kind
  · obtain ⟨kind, isName⟩ := isSome
    rw [reTypeinfo_name engine isName] at captured
    cases captured
    exact ⟨kind, isName, machoTypeChar_text kind⟩
  · rw [reTypeinfo_none engine (not_exists.mp isSome)] at captured
    cases captured

theorem typeinfoHead_kinds (libs : Libs) (sym : Symbol) :
    Holds ReadFault (typeinfoHead env libs sym) fun _ => True := by
  refine typeinfoHead_fault (fun _ => id) ?_ libs sym
  intro name group captured
  obtain ⟨kind, _, char⟩ := machoTypeChar_captured engine captured
  rw [char]
  trivial

end

section

variable {env : Env} {libs : Libs} {sym rsym : Symbol} {rtti : U32} (isMacho : (libs sym.lib).isMacho)
  (notElf : (libs sym.lib).isElf = false)
  (ptr : symtabMachoGetPtr (libs sym.lib) sym.addr sizeofClassTypeInfo = .ok rtti)
  (found : symtabMachoFindRelocSymForAddr env sym.lib (libs sym.lib) sym.addr = .ok (some rsym))
include isMacho notElf ptr found

theorem typeinfoHead_captured {kind : CStr} {typeChar : Char} (captured : env.reTypeinfo rsym.name = some kind)
    (char : machoTypeChar kind = .ok typeChar) : typeinfoHead env libs sym = .ok ⟨typeChar, rtti, []⟩ := by
  simp only [typeinfoHead, isMacho, notElf, machoTypeinfoHead, ptr, found, captured, char, ok_bind, if_true]
  rfl

theorem typeinfoHead_unexpected (unknown : env.reTypeinfo rsym.name = none) :
    typeinfoHead env libs sym = .ok ⟨'?', rtti, [.unexpectedReloc rsym.addr rsym.nameDemangled]⟩ := by
  simp only [typeinfoHead, isMacho, notElf, machoTypeinfoHead, ptr, found, unknown, ok_bind, if_true]
  rfl

end

/-- A name has one kind at most, whatever the engine tries first: its text is what the group captures and its
character what the class is printed with. A name of no kind leaves the question mark, and no run fails
the assertion behind the comparisons. -/
theorem typeinfoKind_unambiguous {env : Env} (engine : MatchesTypeinfo env) :
    (∀ name kind kind', TypeinfoName name kind → TypeinfoName name kind' → kind = kind') ∧
      (∀ name answer, reTypeinfo.Answers name answer → env.reTypeinfo name = capturedKind answer) ∧
      (∀ name kind, TypeinfoName name kind →
        env.reTypeinfo name = some kind.text ∧ machoTypeChar kind.text = .ok kind.typeChar) ∧
      (∀ libs sym rsym rtti, (libs sym.lib).isMacho → (libs sym.lib).isElf = false →
        symtabMachoGetPtr (libs sym.lib) sym.addr sizeofClassTypeInfo = .ok rtti →
        symtabMachoFindRelocSymForAddr env sym.lib (libs sym.lib) sym.addr = .ok (some rsym) →
        (∀ kind, TypeinfoName rsym.name kind → typeinfoHead env libs sym = .ok ⟨kind.typeChar, rtti, []⟩) ∧
          ((∀ kind, ¬TypeinfoName rsym.name kind) →
            typeinfoHead env libs sym = .ok ⟨'?', rtti, [.unexpectedReloc rsym.addr rsym.nameDemangled]⟩)) ∧
      (∀ libs symcache fuel level sym,
        (recurseTypeinfo env libs symcache fuel level sym).stop ≠ some (.assertion .typeinfoKind)) ∧
      ∀ libs lFilter, (mainPrint env libs lFilter).stop ≠ some (.assertion .typeinfoKind) := by
  have reads (fault : Fault) (isRead : ReadFault fault) : fault ≠ .assertion .typeinfoKind := by
    rintro rfl
    cases isRead with
    | assertion other => exact other rfl
  have heads (libs : Libs) (sym : Symbol) := (typeinfoHead_kinds engine libs sym).imp_error reads
  refine ⟨fun _ _ _ => TypeinfoName.unique, fun _ _ => reTypeinfo_answer engine, ?_, ?_, ?_, ?_⟩
  · intro name kind isName
    exact ⟨reTypeinfo_name engine isName, machoTypeChar_text kind⟩
  · intro libs sym rsym rtti isMacho notElf ptr found
    refine ⟨?_, ?_⟩
    · intro kind isName
      exact typeinfoHead_captured isMacho notElf ptr found (reTypeinfo_name engine isName) (machoTypeChar_text kind)
    · intro outside
      exact typeinfoHead_unexpected isMacho notElf ptr found (reTypeinfo_none engine outside)
  · intro libs symcache fuel level sym stopped
    exact recurseTypeinfo_fault reads (heads libs) nofun nofun stopped rfl
  · intro libs lFilter stopped
    exact mainPrint_fault reads (heads libs) nofun nofun stopped rfl

/-- The parts of a name of a kind, found by their lengths. -/
instance (name : CStr) (kind : TypeinfoKind) : Decidable (TypeinfoName name kind) :=
  let digits := (name.drop 17).take 2
  let tail := name.drop (32 + kind.text.length)
  decidable_of_iff ((digits.length = 2 ∧ digits.all Char.isDigit) ∧
    name = "_ZTVN10__cxxabiv1".toList ++ digits ++ "__".toList ++ kind.text ++ "_type_infoE".toList ++ tail) <| by
  constructor
  · intro parts
    exact ⟨digits, tail, parts⟩
  · rintro ⟨digits', tail', isDigits, rfl⟩
    have afterPrefix : digits = digits' := by
      simp only [digits, List.append_assoc]
      exact List.take_left' isDigits.1
    have afterKind : tail = tail' := by
      refine List.drop_left' ?_
      have fixed : "_ZTVN10__cxxabiv1".toList.length + 2 + "__".toList.length + "_type_infoE".toList.length = 32 := rfl
      simp only [List.length_append, isDigits.1]
      omega
    rw [afterPrefix, afterKind]
    exact ⟨isDigits, rfl⟩

/-- An engine that tries the kinds one after the other. -/
def kindEngine (name : CStr) : Option CStr :=
  (TypeinfoKind.all.find? fun kind => TypeinfoName name kind).map TypeinfoKind.text

theorem kindEngine_matches {env : Env} (isEngine : env.reTypeinfo = kindEngine) : MatchesTypeinfo env := by
  intro name
  rw [isEngine, kindEngine]
  cases found : TypeinfoKind.all.find? fun kind => TypeinfoName name kind with
  | none =>
    refine ⟨none, ?_, rfl⟩
    intro captured matched
    obtain ⟨kind, isName, _⟩ := matches_reTypeinfo.mp matched
    exact List.find?_eq_none.mp found kind kind.mem_all (decide_eq_true isName)
  | some kind =>
    have isName := List.find?_some found
    exact ⟨some [kind.text], matches_reTypeinfo.mpr ⟨kind, of_decide_eq_true isName, rfl⟩, rfl⟩

/-- The host of the object that is loaded, with such an engine. -/
def kindHost : Env := { objectHost 12 0 with reTypeinfo := kindEngine }

/-- The object with a record that binds its first word to the vtable. -/
def kindLib : LibraryInfo :=
  { objectLib with
    machoVmranges := [objectRange 12]
    machoHasDyldInfo := true
    machoDbi := [⟨0x2000, 0, 0x1131⟩]
    machoNdbi := 1 }

theorem siVtable_kind : TypeinfoName siVtable .siClass ∧ ¬TypeinfoName siVtable .cls ∧
    typeinfoHead kindHost (fun _ => kindLib) objectSym = .ok ⟨'+', 0x1100, []⟩ := by
  have engine : MatchesTypeinfo kindHost := kindEngine_matches rfl
  have isName : TypeinfoName siVtable .siClass := ⟨['2', '0'], [], ⟨rfl, rfl⟩, by decide +kernel⟩
  have found : symtabMachoFindRelocSymForAddr kindHost 0 kindLib 0x2000 =
      .ok (some ⟨0, 0x2000, 0, siVtable, siVtable⟩) := by decide +kernel
  obtain ⟨unique, _, _, printed, _⟩ := typeinfoKind_unambiguous engine
  refine ⟨isName, ?_, ?_⟩
  · intro isClass
    cases unique siVtable .siClass .cls isName isClass
  · exact (printed (fun _ => kindLib) objectSym _ 0x1100 rfl rfl rfl found).1 .siClass isName

end Classgraph
