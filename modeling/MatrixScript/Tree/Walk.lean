import MatrixScript.KindSet
import MatrixScript.Tree.Located

/-!
Walks through a tree that enter and leave each element, and can skip.

`Walk.next` gives one event after another. `Walk.skip` passes over the children not yet entered of
the innermost node entered and not left; before the first event there is no such node.
-/

set_option autoImplicit false

namespace MatrixScript

inductive WalkEvent where
  | enter (place : Located)
  | leave (place : Located)
  deriving DecidableEq, Repr

/-- A node entered and not left, and its children not yet entered. -/
structure WalkFrame where
  node : Located
  todo : List Located
  deriving DecidableEq, Repr

/-- A walk under way: the open nodes, innermost first, and an event already due. -/
structure Walk where
  stack : List WalkFrame
  due : Option WalkEvent
  deriving DecidableEq, Repr

namespace Walk

def start (place : Located) : Walk := ⟨[], some (.enter place)⟩

def skip (walk : Walk) : Walk :=
  match walk.stack with
  | [] => walk
  | frame :: outer => { walk with stack := { frame with todo := [] } :: outer }

def enter (stack : List WalkFrame) (place : Located) : WalkEvent × Walk :=
  if place.isNode then (.enter place, ⟨⟨place, place.children⟩ :: stack, none⟩)
  else (.enter place, ⟨stack, some (.leave place)⟩)

def next (walk : Walk) : Option (WalkEvent × Walk) :=
  match walk.due with
  | some (.enter place) => some (enter walk.stack place)
  | some (.leave place) => some (.leave place, ⟨walk.stack, none⟩)
  | none =>
    match walk.stack with
    | [] => none
    | ⟨node, child :: todo⟩ :: outer => some (enter (⟨node, todo⟩ :: outer) child)
    | ⟨node, []⟩ :: outer => some (.leave node, ⟨outer, none⟩)

/-- At most `count` events, with a skip after each that satisfies a test. -/
def run (skips : WalkEvent → Bool) : (count : Nat) → Walk → List WalkEvent
  | 0, _ => []
  | count + 1, walk =>
    match walk.next with
    | none => []
    | some (event, after) => event :: run skips count (if skips event then after.skip else after)

/-- The events of a walk through an element and all below it. -/
def eventCount (place : Located) : Nat := 2 * place.preorder.length

def remaining (walk : Walk) : Nat :=
  let due := match walk.due with
    | some (.enter place) => eventCount place
    | some (.leave _) => 1
    | none => 0
  walk.stack.foldl (fun total frame =>
    frame.todo.foldl (fun total place => total + eventCount place) (total + 1)) due

/-- All events left, with a skip after each that satisfies a test. -/
def events (walk : Walk) (skips : WalkEvent → Bool) : List WalkEvent :=
  run skips walk.remaining walk

def enters (kinds : KindSet) : WalkEvent → Bool
  | .enter place => kinds.contains place.kind
  | .leave _ => false

end Walk

end MatrixScript
