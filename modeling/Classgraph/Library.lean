import Mathlib.Data.List.DropRight
import Mathlib.Logic.Function.Basic
import Classgraph.SymtabElf
import Classgraph.SymtabMacho

namespace Classgraph
open Machine

def symtabInit (env : Env) (lib : LibraryInfo) : Except Fault LibraryInfo := do
  let lib ← if lib.isElf then symtabElfInit env lib else pure lib
  if lib.isMacho then symtabMachoInit env.malloc env.mem lib else pure lib

/-- POSIX `basename`. -/
def basename (path : CStr) : CStr :=
  let trimmed := path.rdropWhile (· = '/')
  if path = [] then ['.'] else if trimmed = [] then ['/'] else trimmed.rtakeWhile (· ≠ '/')

/-- `strcasecmp(lhs, rhs) == 0` in the C locale. -/
def strcasecmpEq (lhs rhs : CStr) : Bool := lhs.map Char.toLower == rhs.map Char.toLower

/-- The free slot that `lib_init` takes. -/
def freeSlot (libs : Libs) : Option Slot := (List.finRange numLibs).find? fun i => (libs i).name.isNone

/-- `open` with the fallback below `/usr/lib32/`: the descriptor and the path opened. -/
def libOpen (env : Env) (path : CStr) : Except Fault (Nat × CStr) :=
  match env.openFile path with
  | some fd => .ok (fd, path)
  | none =>
    -- meant for relative paths, but made for absolute ones as well
    let path2 := ("/usr/lib32/".toList ++ path).take 4095
    match env.openFile path2 with
    | some fd => .ok (fd, path2)
    | none => .error (.exit .openFile)

def libMap (env : Env) (fd : Nat) (lib : LibraryInfo) : Except Fault LibraryInfo :=
  match env.fstat fd with
  | none => .error (.exit .fstat)
  | some size =>
    match env.mmap fd with
    | none => .error (.exit .mmap)
    | some map => .ok { lib with size := size, map := map }

def eiNident : U32 := 16

def isElfIdent (mem : Mem) (lib : LibraryInfo) : Except Fault Bool := do
  if eiNident ≤ lib.size then return (← readWord mem lib.map) = 0x464c457f else return false

def elfFormat (mem : Mem) (lib : LibraryInfo) : Except Fault LibraryInfo := do
  if ← isElfIdent mem lib then
    check .elfClass32 ((← readByte mem (lib.map + 4)) = 1)
    check .elfData2Lsb ((← readByte mem (lib.map + 5)) = 1)
    check .elfVersion ((← readByte mem (lib.map + 6)) = 1)
    return { lib with isElf := true }
  else return lib

def machoFormat (mem : Mem) (lib : LibraryInfo) : Except Fault LibraryInfo := do
  if 4 ≤ lib.size then
    let magic ← readWord mem lib.map
    if magic = mhMagic ∨ magic = fatCigam then return { lib with isMacho := true } else return lib
  else return lib

/-- The format of the mapped file by its first bytes. -/
def libFormat (mem : Mem) (lib : LibraryInfo) : Except Fault LibraryInfo := do
  let lib ← machoFormat mem (← elfFormat mem lib)
  check .elfOrMacho (lib.isElf || lib.isMacho)
  check .notElfAndMacho (!(lib.isElf && lib.isMacho))
  return lib

/-- The base address of a library; nothing where `dlinfo` fails. -/
def libBase (env : Env) (lib : LibraryInfo) : Except Fault (Option U32) :=
  if lib.isElf then
    match env.dlopen lib.path with
    | none => .error (.exit .dlopen)
    | some handle => .ok (env.dlinfo handle)
  else .ok (some 0)

/-- `lib_init` on the slot that it has taken: the entry, and the names that the loop over
`depends` runs through. Where `dlinfo` fails the function returns before that loop. -/
def libLoad (env : Env) (lib : LibraryInfo) (primary : Bool) (path : CStr) :
    Except Fault (LibraryInfo × List CStr) := do
  let lib := { lib with isPrimary := primary, name := some (basename path), path := path }
  let (fd, path) ← libOpen env path
  let lib ← libMap env fd { lib with path := path }
  let lib ← libFormat env.mem lib
  match ← libBase env lib with
  | none => return (lib, [])
  | some baseaddr =>
    let lib ← symtabInit env { lib with baseaddr := baseaddr }
    return (lib, lib.depends)

def libFind (libs : Libs) (name : CStr) : Option Slot :=
  (List.finRange numLibs).find? fun i =>
    !(libs i).isPrimary && match (libs i).name with
      | none => false
      | some libName => strcasecmpEq name libName

/-- `fuel` bounds the depth of the recursion. Every call takes a slot, so that it never
runs deeper than there are slots. -/
def libInit (env : Env) : Nat → Bool → CStr → Libs → Except Fault Libs
  | 0, _, _, _ => .error .diverges
  | fuel + 1, primary, path, libs =>
    match freeSlot libs with
    | none => .error (.assertion .freeSlot)
    | some i => do
      let (lib, depends) ← libLoad env (libs i) primary path
      depends.foldlM (fun libs needed =>
        if (libFind libs needed).isNone then libInit env fuel false needed libs else pure libs)
        (Function.update libs i lib)

/-- `lib_init(true, path)` on the table as it stands when the program starts. -/
def libInitPrimary (env : Env) (path : CStr) : Except Fault Libs :=
  libInit env (numLibs + 1) true path emptyLibs

def libFirst : Slot := ⟨0, by decide⟩

def libNext (libs : Libs) (lib : Slot) : Option Slot :=
  if bound : lib.val + 1 < numLibs then
    if (libs ⟨lib.val + 1, bound⟩).name.isSome then some ⟨lib.val + 1, bound⟩ else none
  else none

/-- The slots that a loop `do … while ((lib = lib_next(lib)) != NULL)` visits from `lib` on. -/
def libWalkFrom (libs : Libs) : Nat → Slot → List Slot
  | 0, _ => []
  | fuel + 1, lib => lib :: ((libNext libs lib).map (libWalkFrom libs fuel)).getD []

/-- The loop that starts at `lib_first()`. -/
def libWalk (libs : Libs) : List Slot := libWalkFrom libs numLibs libFirst

end Classgraph
