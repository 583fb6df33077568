import Std.Data.TreeMap.Lemmas
import Classgraph.Library

namespace Classgraph
open Machine

/-- `std::map<uintptr_t, symbol_t> symcache`. -/
abbrev Symcache := Std.TreeMap U32 Symbol compare

def symtabLookupAddr (symcache : Symcache) (lib : Slot) (addr : U32) : Option Symbol :=
  (symcache.toList.find? fun pair => addr = pair.1 ∧ lib = pair.2.lib).map Prod.snd

/-- The symbol stored in `*entry`; nothing where the function returns false. -/
def symtabAddrAbs (libs : Libs) (symcache : Symcache) (addr : U32) : Option Symbol :=
  (libWalk libs).findSome? fun lib =>
    if (libs lib).baseaddr ≤ addr then symtabLookupAddr symcache lib (addr - (libs lib).baseaddr) else none

/-- The calls of the callback for one library. -/
def symtabForeachLib (env : Env) (libs : Libs) (slot : Slot) : Emits Fault Symbol :=
  (if (libs slot).isElf then symtabElfForeach env slot (libs slot) else .nil) ++
    (if (libs slot).isMacho then symtabMachoForeach env slot (libs slot) else .nil)

/-- The symbols for which `symtab_foreach` calls its callback, in order. -/
def symtabForeach (env : Env) (libs : Libs) : Emits Fault Symbol :=
  Emits.flow ((libWalk libs).map (symtabForeachLib env libs))

end Classgraph
