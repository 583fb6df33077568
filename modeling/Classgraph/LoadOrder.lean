import Classgraph.Dependencies
import Classgraph.General.DepthFirst

namespace Classgraph
open Run Machine DepthFirst

/-- The calls of `lib_init`: the first one for the primary library, and one for each needed library. -/
def loadNode (env : Env) (path : CStr) : Option CStr → Except Fault (LibraryInfo × List CStr)
  | none => libLoad env {} true path
  | some needed => libLoad env {} false needed

/-- The names that the loop over `depends` of a call runs through. -/
def needs (env : Env) (path : CStr) (node : Option CStr) : List (Option CStr) :=
  match loadNode env path node with
  | .ok loaded => loaded.2.map some
  | .error _ => []

/-- `lib_find` tells needed libraries apart by their names in lower case, and never finds the primary library. -/
def nodeKey : Option CStr → Option CStr := Option.map lowerCase

/-- The order in which a depth-first search over the needed libraries opens them, for as many as there are slots. -/
def loadOrder (env : Env) (path : CStr) : List (Option CStr) := search (needs env path) nodeKey (numLibs - 1) [none]

/-- What a call that returns leaves in its slot. -/
def nodeLib (env : Env) (path : CStr) (node : Option CStr) : LibraryInfo :=
  ((loadNode env path node).toOption.map Prod.fst).getD {}

/-- The table that holds the libraries in the given order from its first slot on. -/
def loadedTable (env : Env) (path : CStr) (order : List (Option CStr)) : Libs :=
  fun i => (order[i.val]?.map (nodeLib env path)).getD {}

section

variable {env : Env} {path : CStr} {libs : Libs} {opened : List CStr} {active : List (List CStr)}

theorem needs_eq {node : Option CStr} {lib : LibraryInfo} {depends : List CStr}
    (load : loadNode env path node = .ok (lib, depends)) : needs env path node = depends.map some := by
  rw [needs, load]

theorem nodeLib_eq {node : Option CStr} {lib : LibraryInfo} {depends : List CStr}
    (load : loadNode env path node = .ok (lib, depends)) : nodeLib env path node = lib := by
  rw [nodeLib, load]
  rfl

theorem known_iff {needed : CStr} :
    Known nodeKey (none :: opened.map some) (some needed) ↔ lowerCase needed ∈ opened.map lowerCase := by
  have keys : (opened.map some).map nodeKey = (opened.map lowerCase).map some := by
    rw [List.map_map, List.map_map]
    rfl
  have key : nodeKey (some needed) = some (lowerCase needed) := rfl
  rw [Known, List.map_cons, keys, key, List.mem_cons]
  simp [nodeKey]

/-- A needed library is found exactly if one of its name has been opened, in upper or lower case. -/
theorem LoadReach.known (plain : ∀ needed, Needed env path needed → Plain needed)
    (reach : LoadReach env path libs opened active) {needed : CStr} :
    Known nodeKey (none :: opened.map some) (some needed) ↔ (libFind libs needed).isSome := by
  rw [known_iff]
  constructor
  · intro member
    obtain ⟨other, isOpened, same⟩ := List.mem_map.mp member
    obtain ⟨k, atOther⟩ := List.mem_iff_getElem?.mp isOpened
    obtain ⟨below, _⟩ := List.getElem?_eq_some_iff.mp atOther
    have bound := reach.registered.bound
    have found := reach.found (i := ⟨k + 1, by omega⟩) rfl atOther (plain other (reach.needed.1 other isOpened))
    rw [← libFind_congr libs same, found]
    rfl
  · intro found
    obtain ⟨i, found⟩ := Option.isSome_iff_exists.mp found
    obtain ⟨k, other, _, atOther, same⟩ := reach.registered.answers (libFind_eq_some.mp found).1
    have isOpened := List.mem_of_getElem? atOther
    rw [(plain other (reach.needed.1 other isOpened)).basename_eq] at same
    rw [same]
    exact List.mem_map_of_mem isOpened

/-- The recursion of `lib_init` is a depth-first search: at any time it has opened what the search opens first. -/
theorem LoadReach.exploring (plain : ∀ needed, Needed env path needed → Plain needed)
    (reach : LoadReach env path libs opened active) :
    ∃ frames, frames.map Prod.snd = active.map (List.map some) ∧
      Exploring (needs env path) nodeKey (none :: opened.map some) frames ∧
      search (needs env path) nodeKey opened.length [none] = none :: opened.map some := by
  induction reach with
  | @start lib depends load =>
    refine ⟨[(0, needs env path none)], ?_, .start none, rfl⟩
    rw [List.map_singleton, List.map_singleton, @needs_eq env path none _ _ load]
  | @skip libs opened needed rest active reach found ih =>
    obtain ⟨frames, pending, exploring, searched⟩ := ih
    obtain ⟨⟨i, todo⟩, outer, rfl, rfl, pendingOuter⟩ := List.map_eq_cons_iff.mp pending
    refine ⟨(i, rest.map some) :: outer, ?_, exploring.skip ((reach.known plain).mpr found), searched⟩
    rw [List.map_cons, List.map_cons, pendingOuter]
  | leave _ ih =>
    obtain ⟨frames, pending, exploring, searched⟩ := ih
    obtain ⟨⟨i, todo⟩, outer, rfl, rfl, pendingOuter⟩ := List.map_eq_cons_iff.mp pending
    exact ⟨outer, pendingOuter, exploring.leave, searched⟩
  | @take libs opened needed rest active i lib depends reach notFound free load ih =>
    obtain ⟨frames, pending, exploring, searched⟩ := ih
    obtain ⟨⟨j, todo⟩, outer, rfl, rfl, pendingOuter⟩ := List.map_eq_cons_iff.mp pending
    have new : ¬Known nodeKey (none :: opened.map some) (some needed) := by
      rw [reach.known plain, notFound]
      exact Bool.false_ne_true
    rw [reach.registered.freeSlot_unused free] at load
    have more : none :: (opened ++ [needed]).map some = (none :: opened.map some) ++ [some needed] := by
      rw [List.map_append]
      rfl
    rw [more, List.length_append, List.length_singleton]
    refine ⟨_, ?_, exploring.take, ?_⟩
    · rw [List.map_cons, List.map_cons, List.map_cons, List.map_cons, pendingOuter,
        @needs_eq env path (some needed) _ _ load]
    · have chosen := exploring.choice_eq new
      rw [← searched] at chosen
      rw [search_snoc chosen, searched]

/-- The table in any state of the recursion. -/
theorem Registered.table_eq (table : Registered env path libs opened) :
    libs = loadedTable env path (none :: opened.map some) := by
  funext i
  rcases slot_cases opened i with rfl | needed | unused
  · obtain ⟨depends, load⟩ := table.primary
    exact (@nodeLib_eq env path none _ _ load).symm
  · obtain ⟨k, needed, slot, atNeeded⟩ := needed
    obtain ⟨depends, load⟩ := table.loaded i k needed slot atNeeded
    rw [loadedTable, slot, List.getElem?_cons_succ, List.getElem?_map, atNeeded]
    exact (@nodeLib_eq env path (some needed) _ _ load).symm
  · have beyond : (none :: opened.map some)[i.val]? = none := by
      rw [List.getElem?_eq_none_iff, List.length_cons, List.length_map]
      omega
    rw [table.unused i unused, loadedTable, beyond]
    rfl

/-- A call that returns has opened what the search opens, and the search is over. -/
theorem libInitPrimary_searched (plain : ∀ needed, Needed env path needed → Plain needed)
    (run : libInitPrimary env path = .ok libs) :
    choice (needs env path) nodeKey (loadOrder env path) = none ∧ libs = loadedTable env path (loadOrder env path) := by
  obtain ⟨opened, reach⟩ := (libInitPrimary_holds env path).of_ok run
  obtain ⟨frames, pending, exploring, searched⟩ := reach.exploring plain
  cases List.map_eq_nil_iff.mp pending
  have bound := reach.registered.bound
  have left : numLibs - 1 = opened.length + (numLibs - 1 - opened.length) := by omega
  have order : loadOrder env path = none :: opened.map some := by
    rw [loadOrder, left, search_add, searched, search_ended exploring.ended]
  rw [order]
  exact ⟨exploring.ended, reach.registered.table_eq⟩

section

variable (plain : ∀ needed, Needed env path needed → Plain needed)
  (rootLoads : ∃ loaded, libLoad env {} true path = .ok loaded)
  (loads : ∀ needed, Needed env path needed → ∃ loaded, libLoad env {} false needed = .ok loaded)
include plain rootLoads loads

/-- Where all libraries can be loaded, a call only ends otherwise if the search comes to one library more than there
are slots. -/
theorem libInitPrimary_full {fault : Fault} (run : libInitPrimary env path = .error fault) :
    choice (needs env path) nodeKey (loadOrder env path) ≠ none ∧ fault = .assertion .freeSlot := by
  cases (libInitPrimary_holds env path).of_error run with
  | root stopped =>
    obtain ⟨loaded, load⟩ := rootLoads
    cases stopped.symm.trans load
  | next isNeeded stopped =>
    obtain ⟨loaded, load⟩ := loads _ isNeeded
    cases stopped.symm.trans load
  | @full libs opened needed rest active reach notFound noSlot =>
    obtain ⟨frames, pending, exploring, searched⟩ := reach.exploring plain
    obtain ⟨⟨i, todo⟩, outer, rfl, rfl, _⟩ := List.map_eq_cons_iff.mp pending
    have new : ¬Known nodeKey (none :: opened.map some) (some needed) := by
      rw [reach.known plain, notFound]
      exact Bool.false_ne_true
    have used : opened.length = numLibs - 1 := by
      have all := reach.registered.named.freeSlot_none.mp noSlot
      omega
    rw [loadOrder, ← used, searched, exploring.choice_eq new]
    exact ⟨Option.some_ne_none _, rfl⟩

theorem libInitPrimary_room (room : choice (needs env path) nodeKey (loadOrder env path) = none) :
    libInitPrimary env path = .ok (loadedTable env path (loadOrder env path)) := by
  cases run : libInitPrimary env path with
  | error fault => exact absurd room (libInitPrimary_full plain rootLoads loads run).1
  | ok libs => rw [(libInitPrimary_searched plain run).2]

/-- What `lib_init` does with a graph of libraries that can all be loaded and have plain names: it fills the table in
depth-first order, with one slot for all spellings of a name, or fails where there are more libraries than slots. -/
theorem libInitPrimary_depthFirst :
    libInitPrimary env path =
      if (choice (needs env path) nodeKey (loadOrder env path)).isNone then
        .ok (loadedTable env path (loadOrder env path))
      else .error (.assertion .freeSlot) := by
  cases run : libInitPrimary env path with
  | error fault =>
    obtain ⟨more, rfl⟩ := libInitPrimary_full plain rootLoads loads run
    rw [if_neg fun isNone => more (Option.isNone_iff_eq_none.mp isNone)]
  | ok libs =>
    obtain ⟨ended, table⟩ := libInitPrimary_searched plain run
    rw [if_pos (Option.isNone_iff_eq_none.mpr ended), table]

end

end

/-- A program that needs two libraries, the first of which needs a third one. -/
def nestedHost : Env :=
  graphHost [("app", ["liba.so", "libc.so"]), ("liba.so", ["libb.so"]), ("libb.so", ["LIBA.so", "libb.so"]),
    ("libc.so", ["libb.so"]), ("LIBA.so", [])]

def nestedNames : List CStr := ["liba.so".toList, "libb.so".toList, "libc.so".toList, "LIBA.so".toList]

def nestedOrder : List (Option CStr) := [none, some "liba.so".toList, some "libb.so".toList, some "libc.so".toList]

theorem nested_depthFirst :
    libInitPrimary nestedHost "app".toList = .ok (loadedTable nestedHost "app".toList nestedOrder) := by
  have root : needsOnly nestedNames (libLoad nestedHost {} true "app".toList) := by decide +kernel
  have next : ∀ parent ∈ nestedNames, needsOnly nestedNames (libLoad nestedHost {} false parent) := by decide +kernel
  have allPlain : ∀ needed ∈ nestedNames, Plain needed := by decide
  have order : loadOrder nestedHost "app".toList = nestedOrder := by decide +kernel
  have ended : (choice (needs nestedHost "app".toList) nodeKey nestedOrder).isNone := by decide +kernel
  rw [libInitPrimary_depthFirst (fun needed isNeeded => allPlain needed (isNeeded.mem root next))
    (needsOnly_loads root) (fun needed isNeeded => needsOnly_loads (next needed (isNeeded.mem root next))), order,
    if_pos ended]

end Classgraph
