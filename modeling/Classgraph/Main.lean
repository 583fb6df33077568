import Std.Data.TreeSet.Lemmas
import Classgraph.Symtab

namespace Classgraph
open Machine

/-- What the program writes to the standard error with `pr_warn` while it prints the graph. -/
inductive Warning
  | undeciphered (addr : U32)
  | undecipheredName (name : CStr)
  | typeidFailure (what : CStr) (addr : U32)
  | unexpectedReloc (addr : U32) (nameDemangled : CStr)
  | noReloc (addr : U32)
  | noBase
  | noBaseAt (i : Nat)
  deriving DecidableEq, Repr

/-- What `recurse_typeinfo` prints: the line of a class, the line of a base of a class
with several bases, or a warning. The line of a class shows the demangled name. -/
inductive Line
  | cls (level : Nat) (typeChar : Char) (sym : Symbol)
  | base (level i : Nat) (offset : Int) (flags : List CStr)
  | warn (warning : Warning)
  deriving DecidableEq, Repr

/-- The offsets in `indent` that are stored to, the final NUL included. -/
def indentStores (level : Nat) : List Nat := List.range (4 * level + 1)

def sizeofIndent : Nat := 1024

/-- The character and the warnings for the dynamic type of a type information object. -/
def elfTypeChar (addr : U32) : Typeid → Char × List Warning
  | .classTypeInfo => ('-', [])
  | .siClassTypeInfo => ('+', [])
  | .vmiClassTypeInfo => ('#', [])
  | .arrayTypeInfo => ('A', [])
  | .enumTypeInfo => ('E', [])
  | .functionTypeInfo => ('F', [])
  | .pointerToMemberTypeInfo => ('M', [])
  | .pointerTypeInfo => ('*', [])
  | .fundamentalTypeInfo => ('.', [])
  | .other name =>
    if name = "St19__iosfail_type_info".toList then ('?', [])
    else ('?', [.undeciphered addr, .undecipheredName name])
  | .badTypeid what => ('?', [.typeidFailure what addr])

/-- The character for the group that the regular expression captured. -/
def machoTypeChar (kind : CStr) : Except Fault Char :=
  if kind = "class".toList then .ok '-'
  else if kind = "si_class".toList then .ok '+'
  else if kind = "vmi_class".toList then .ok '#'
  else if kind = "array".toList then .ok 'A'
  else if kind = "enum".toList then .ok 'E'
  else if kind = "function".toList then .ok 'F'
  else if kind = "pointer_to_member".toList then .ok 'M'
  else if kind = "pointer".toList then .ok '*'
  else if kind = "fundamental".toList then .ok '.'
  else .error (.assertion .typeinfoKind)

/-- The local variables `type_char` and `rtti` of `recurse_typeinfo`, and the warnings
written while they are found. -/
structure TypeinfoHead where
  typeChar : Char := '?'
  rtti : U32 := 0
  warnings : List Warning := []

def elfTypeinfoHead (env : Env) (libs : Libs) (sym : Symbol) : TypeinfoHead :=
  let rtti := (libs sym.lib).baseaddr + sym.addr
  let (typeChar, warnings) := elfTypeChar sym.addr (env.typeid rtti)
  { typeChar := typeChar, rtti := rtti, warnings := warnings }

/-- `sizeof(abi::__class_type_info)` on i386. -/
def sizeofClassTypeInfo : U32 := 8

def machoTypeinfoHead (env : Env) (libs : Libs) (sym : Symbol) (head : TypeinfoHead) :
    Except Fault TypeinfoHead := do
  let lib := libs sym.lib
  let rtti ← symtabMachoGetPtr lib sym.addr sizeofClassTypeInfo
  match ← symtabMachoFindRelocSymForAddr env sym.lib lib sym.addr with
  | none => return { head with rtti := rtti, warnings := head.warnings ++ [.noReloc sym.addr] }
  | some rsym =>
    match env.reTypeinfo rsym.name with
    | none =>
      return { head with rtti := rtti,
                         warnings := head.warnings ++ [.unexpectedReloc rsym.addr rsym.nameDemangled] }
    | some kind => return { head with rtti := rtti, typeChar := ← machoTypeChar kind }

def typeinfoHead (env : Env) (libs : Libs) (sym : Symbol) : Except Fault TypeinfoHead :=
  let head := if (libs sym.lib).isElf then elfTypeinfoHead env libs sym else {}
  if (libs sym.lib).isMacho then machoTypeinfoHead env libs sym head else .ok head

/-- The lookup of a base pointer of a class with several bases: the cache by the pointer
itself first, then the libraries. -/
def vmiLookup (libs : Libs) (symcache : Symcache) (baseType : U32) : Option Symbol :=
  match symcache[baseType]? with
  | some entry => some entry
  | none => symtabAddrAbs libs symcache baseType

def offsetShift : Nat := 8

def baseFlags (offsetFlags : U32) : List CStr :=
  (if offsetFlags &&& 0x1 ≠ 0 then ["virtual".toList] else []) ++
    (if offsetFlags &&& 0x2 ≠ 0 then ["public".toList] else []) ++
    (if offsetFlags &&& 0x4 ≠ 0 then ["HWM".toList] else [])

/-- The base pointer of `abi::__si_class_type_info`, with the call for the base. -/
def siBase (env : Env) (libs : Libs) (symcache : Symcache) (rtti : U32) (recurse : Symbol → Emits Fault Line) :
    Emits Fault Line :=
  match readWord env.mem (rtti + 8) with
  | .error fault => .halt fault
  | .ok baseType =>
    match symtabAddrAbs libs symcache baseType with
    | some base => recurse base
    | none => .emit (.warn .noBase)

/-- Round `i` of the loop over `__base_info` of `abi::__vmi_class_type_info`. -/
def vmiBase (env : Env) (libs : Libs) (symcache : Symcache) (level : Nat) (rtti : U32)
    (recurse : Symbol → Emits Fault Line) (i : Nat) : Emits Fault Line :=
  let baseinfo := rtti + 16 + 8 * BitVec.ofNat 32 i
  match readWord env.mem (baseinfo + 4) with
  | .error fault => .halt fault
  | .ok offsetFlags =>
    .emit (.base level i (offsetFlags.sshiftRight offsetShift).toInt (baseFlags offsetFlags)) ++
      match readWord env.mem baseinfo with
      | .error fault => .halt fault
      | .ok baseType =>
        match vmiLookup libs symcache baseType with
        | some base => recurse base
        | none => .emit (.warn (.noBaseAt i))

def vmiBases (env : Env) (libs : Libs) (symcache : Symcache) (level : Nat) (rtti : U32)
    (recurse : Symbol → Emits Fault Line) : Emits Fault Line :=
  match readWord env.mem (rtti + 12) with
  | .error fault => .halt fault
  | .ok baseCount => .flow ((List.range baseCount.toNat).map (vmiBase env libs symcache level rtti recurse))

def typeinfoBases (env : Env) (libs : Libs) (symcache : Symcache) (level : Nat) (head : TypeinfoHead)
    (recurse : Symbol → Emits Fault Line) : Emits Fault Line :=
  if head.typeChar = '+' then siBase env libs symcache head.rtti recurse
  else if head.typeChar = '#' then vmiBases env libs symcache level head.rtti recurse
  else .nil

/-- `fuel` bounds the depth of the recursion, as the indentation buffer does. -/
def recurseTypeinfo (env : Env) (libs : Libs) (symcache : Symcache) : Nat → Nat → Symbol → Emits Fault Line
  | 0, _, _ => .halt .diverges
  | fuel + 1, level, sym =>
    if sym.addr = 0 then .nil
    else if (indentStores level).any (sizeofIndent ≤ ·) then .halt (.outOfBounds .indent)
    else
      match typeinfoHead env libs sym with
      | .error fault => .halt fault
      | .ok head =>
        .flow (head.warnings.map fun warning => .emit (.warn warning)) ++
          (.emit (.cls level head.typeChar sym) ++
            typeinfoBases env libs symcache level head (recurseTypeinfo env libs symcache fuel (level + 1)))

/-- The levels 0 to 255 that fit into the indentation buffer, and the call that overruns it. -/
def callDepth : Nat := 257

/-- `std::set<symbol_t, …> syms`, ordered by `strcmp` on the demangled names. -/
abbrev Syms := Std.TreeSet Symbol (compareOn Symbol.nameDemangled)

structure Globals where
  syms : Syms := {}
  symcache : Symcache := {}

/-- The callback that `main` passes to `symtab_foreach`. -/
def mainCallback (lFilter : CStr → Bool) (globals : Globals) (sym : Symbol) : Globals :=
  if !strncmpEq sym.name "_ZTI".toList 4 then globals
  else if !lFilter sym.name then globals
  else { syms := globals.syms.insert sym, symcache := globals.symcache.insert sym.addr sym }

/-- The globals once the enumeration has called the callback for `syms`. -/
def fillGlobals (lFilter : CStr → Bool) (syms : List Symbol) : Globals := syms.foldl (mainCallback lFilter) {}

/-- The symbols for which `main` calls `recurse_typeinfo`, in order. -/
def mainRoots (libs : Libs) (globals : Globals) : List Symbol :=
  globals.syms.toList.filter fun sym => (libs sym.lib).isPrimary

/-- `main` once the libraries are loaded and the filter is chosen. -/
def mainPrint (env : Env) (libs : Libs) (lFilter : CStr → Bool) : Emits Fault Line :=
  let syms := symtabForeach env libs
  match syms.stop with
  | some fault => .halt fault
  | none =>
    let globals := fillGlobals lFilter syms.events
    .flow ((mainRoots libs globals).map (recurseTypeinfo env libs globals.symcache callDepth 0))

/-- The filter is only applied if the program was given a third argument. There is none
where the constructor of the regular expression throws. -/
def mainFilter (env : Env) : Option CStr → Option (CStr → Bool)
  | none => some fun _ => true
  | some argFilter => env.reFilter argFilter

/-- `main` with a filter whose constructor throws: the first symbol that the callback asks the filter about
ends the program. -/
def mainThrow (env : Env) (libs : Libs) : Emits Fault Line :=
  let syms := symtabForeach env libs
  if syms.events.any fun sym => strncmpEq sym.name "_ZTI".toList 4 then .halt .regexError
  else
    match syms.stop with
    | some fault => .halt fault
    | none => .nil

theorem mainThrow_events (env : Env) (libs : Libs) : (mainThrow env libs).events = [] := by
  unfold mainThrow
  dsimp only
  split
  · rfl
  · split
    · rfl
    · rfl

/-- `main` once the libraries are loaded. -/
def mainLoaded (env : Env) (libs : Libs) (argFilter : Option CStr) : Emits Fault Line :=
  match mainFilter env argFilter with
  | none => mainThrow env libs
  | some lFilter => mainPrint env libs lFilter

theorem mainLoaded_some {env : Env} {libs : Libs} {argFilter : Option CStr} {lFilter : CStr → Bool}
    (wellFormed : mainFilter env argFilter = some lFilter) :
    mainLoaded env libs argFilter = mainPrint env libs lFilter := by
  rw [mainLoaded, wellFormed]

/-- Whatever `main` prints once the libraries are loaded, it prints with a filter. -/
theorem mainLoaded_printed {env : Env} {libs : Libs} {argFilter : Option CStr} {line : Line}
    (member : line ∈ (mainLoaded env libs argFilter).events) :
    ∃ lFilter, mainFilter env argFilter = some lFilter ∧ line ∈ (mainPrint env libs lFilter).events := by
  cases found : mainFilter env argFilter with
  | none =>
    rw [mainLoaded, found] at member
    rw [mainThrow_events] at member
    cases member
  | some lFilter =>
    rw [mainLoaded_some found] at member
    exact ⟨lFilter, rfl, member⟩

/-- `main`, by the arguments after the name of the program. -/
def mainRun (env : Env) (args : List CStr) : Emits Fault Line :=
  let run (argLib : CStr) (argFilter : Option CStr) :=
    match libInitPrimary env argLib with
    | .error fault => .halt fault
    | .ok libs => mainLoaded env libs argFilter
  match args with
  | [argLib] => run argLib none
  | [argLib, argFilter] => run argLib (some argFilter)
  | _ => .halt (.exit .usage)

end Classgraph
