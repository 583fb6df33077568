import Mathlib.Data.List.Infix
import Classgraph.Types

namespace Classgraph

def nul : Char := Char.ofNat 0

/-- `str[i]`, where reading at the length yields the final NUL. -/
def charAt (str : CStr) (i : Nat) : Char := str.getD i nul

/-- `strncmp(lhs, rhs, n) == 0`. -/
def strncmpEq (lhs rhs : CStr) (n : Nat) : Bool := lhs.take n == rhs.take n

/-- `strstr(str, needle) != NULL`. -/
def strstr (str needle : CStr) : Bool := decide (needle <:+: str)

/-- The output of `fixup_templates`: the allocated block and the offset of `p_out` in it. -/
structure FixupState where
  strOut : List (Option Char)
  pOut : Nat

/-- One iteration of the loop. Moving `p_out` below the block and storing past
its end are faults. -/
def fixupStep (strIn : CStr) (i : Nat) (st : FixupState) : Except Fault FixupState := do
  let pOut ←
    if 2 ≤ i ∧ charAt strIn i = '>' ∧ charAt strIn (i - 1) = ' ' ∧ charAt strIn (i - 2) = '>' then
      if st.pOut = 0 then throw (.outOfBounds .strOut) else pure (st.pOut - 1)
    else pure st.pOut
  if pOut < st.strOut.length then
    return ⟨st.strOut.set pOut (some (charAt strIn i)), pOut + 1⟩
  else throw (.outOfBounds .strOut)

def fixupLoop (strIn : CStr) : Nat → Nat → FixupState → Except Fault FixupState
  | 0, _, st => .ok st
  | n + 1, i, st => do fixupLoop strIn n (i + 1) (← fixupStep strIn i st)

/-- The string that a block holds: its characters up to the first NUL. -/
def blockString : List (Option Char) → Except Fault CStr
  | [] => .error (.outOfBounds .strOut)
  | none :: _ => .error .uninitialised
  | some c :: rest => if c = nul then .ok [] else do return c :: (← blockString rest)

def fixupTemplates (strIn : CStr) : Except Fault CStr :=
  if strstr strIn "> >".toList then do
    let st ← fixupLoop strIn (strIn.length + 1) 0 ⟨List.replicate strIn.length none, 0⟩
    blockString st.strOut
  else .ok strIn

def tryDemangle (env : Env) (mangled : CStr) : Except Fault CStr :=
  match env.cplusDemangle mangled with
  | some demangled => fixupTemplates demangled
  | none => .ok mangled

def tryDemangleNoprefix (env : Env) (mangled : CStr) : Except Fault CStr := do
  let demangled ← tryDemangle env mangled
  if strncmpEq demangled "typeinfo for ".toList 13 then return demangled.drop 13
  else if strncmpEq demangled "vtable for ".toList 11 then return demangled.drop 11
  else return demangled

example : fixupTemplates "A<B<C<int> > >".toList = .ok "A<B<C<int>>>".toList := by decide

end Classgraph
