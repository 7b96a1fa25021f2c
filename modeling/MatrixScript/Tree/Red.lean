import MatrixScript.Tree.Located

/-!
Nodes of a tree that are made when they are visited.

A red node is a green element with its parent and its offset, and an identity of its own. Visiting a
slot makes the node in it, and as long as somebody holds that node, visiting the slot again gives
the same one. A node holds its parent, so the way up to the root stays; of its children it only
remembers which it handed out. What changes of a node stands in its cell of a `Store`: how many hold
it, and the children remembered. A node that nobody holds any more has no cell, and its slot makes a
new one.

An address is given out once. Memory can be used again, but nobody can compare with a node that is
gone, and a child remembered keeps its address from being used.
-/

set_option autoImplicit false

namespace MatrixScript

/-- An element together with which element it is: its place in the tree it was built in. -/
structure Green where
  element : Element
  place : List Nat := []
  deriving DecidableEq, Repr

namespace Green

def slot? (green : Green) (index : Nat) : Option Green :=
  (green.element.slot? index).map fun element => ⟨element, green.place ++ [index]⟩

def ptrEq (a b : Green) : Bool := a.place == b.place

def same (a b : Green) : Bool := a.ptrEq b || a.element.same b.element

end Green

/-- A red node: the root of a tree, or the child of another node. -/
inductive RedNode where
  | root (address : Nat) (green : Green)
  | child (address : Nat) (green : Green) (parent : RedNode) (index offset : Nat)
  deriving DecidableEq, Repr

namespace RedNode

def address : RedNode → Nat
  | .root address _ => address
  | .child address .. => address

def green : RedNode → Green
  | .root _ green => green
  | .child _ green .. => green

def parent? : RedNode → Option RedNode
  | .root .. => none
  | .child _ _ parent .. => some parent

/-- The slot of the parent in which the node stands; zero for the root. -/
def index : RedNode → Nat
  | .root .. => 0
  | .child _ _ _ index _ => index

def offset : RedNode → Nat
  | .root .. => 0
  | .child _ _ _ _ offset => offset

def ptrEq (a b : RedNode) : Bool := a.address == b.address

def ancestors : RedNode → List RedNode
  | node@(.root ..) => [node]
  | node@(.child _ _ parent _ _) => node :: parent.ancestors

def place : RedNode → Located
  | .root _ green => Located.root green.element
  | .child _ green parent index offset =>
    ⟨green.element, offset, ⟨parent.green.element, parent.offset, index⟩ :: parent.place.trail⟩

end RedNode

/-- A token in a slot of a node, which it holds. -/
structure RedToken where
  token : Token
  parent : RedNode
  index : Nat
  offset : Nat
  deriving DecidableEq, Repr

namespace RedToken

def same (a b : RedToken) : Bool := a.parent.ptrEq b.parent && a.index == b.index

def place (token : RedToken) : Located :=
  ⟨.leaf token.token, token.offset,
    ⟨token.parent.green.element, token.parent.offset, token.index⟩ :: token.parent.place.trail⟩

end RedToken

/-- What stands in a slot. -/
inductive RedElement where
  | node (found : RedNode)
  | token (found : RedToken)
  deriving DecidableEq, Repr

namespace RedElement

def node? : RedElement → Option RedNode
  | .node found => some found
  | .token _ => none

def token? : RedElement → Option RedToken
  | .node _ => none
  | .token found => some found

def place : RedElement → Located
  | .node found => found.place
  | .token found => found.place

/-- The node that is held by holding the element: itself, or the parent of a token. -/
def holds : RedElement → RedNode
  | .node found => found
  | .token found => found.parent

end RedElement

/-- A node that is held: by how many, and for each slot the address of the child it handed out last.
That child may be gone. -/
structure Cell where
  node : RedNode
  holders : Nat
  children : List (Option Nat)
  deriving DecidableEq, Repr

namespace Cell

def new (node : RedNode) : Cell := ⟨node, 1, node.green.element.slots.map fun _ => none⟩

def retain (cell : Cell) : Cell := { cell with holders := cell.holders + 1 }

/-- One holder less; the last one leaves nothing. -/
def loosen? (cell : Cell) : Option Cell :=
  if cell.holders ≤ 1 then none else some { cell with holders := cell.holders - 1 }

def remember (cell : Cell) (index : Nat) (child : RedNode) : Cell :=
  { cell with children := cell.children.set index (some child.address) }

end Cell

/-- The nodes that are held, and the address of the node that is made next. -/
structure Store where
  cells : List Cell := []
  next : Nat := 0
  deriving DecidableEq, Repr

namespace Store

def nodes (store : Store) : List RedNode := store.cells.map Cell.node

def cell? (store : Store) (address : Nat) : Option Cell :=
  store.cells.find? (·.node.address == address)

def isHeld (store : Store) (node : RedNode) : Bool := (store.cell? node.address).isSome

def modify (store : Store) (node : RedNode) (change : Cell → Option Cell) : Store :=
  { store with
    cells := store.cells.filterMap fun cell =>
      if cell.node.address = node.address then change cell else some cell }

def add (store : Store) (node : RedNode) : Store := ⟨.new node :: store.cells, store.next + 1⟩

def newRoot (store : Store) (green : Green) : RedNode × Store :=
  let root := .root store.next green
  (root, store.add root)

def retain (store : Store) (node : RedNode) : Store :=
  store.modify node fun cell => some cell.retain

def loosen (store : Store) (node : RedNode) : Store := store.modify node Cell.loosen?

/-- Gives up a node. The last to do so gives up what the node itself holds, its parent. -/
def release (store : Store) : RedNode → Store
  | node@(.root ..) => store.loosen node
  | node@(.child _ _ parent _ _) =>
    if (store.loosen node).isHeld node then store.loosen node
    else (store.loosen node).release parent

/-- The child that a node handed out for a slot, if somebody still holds it. -/
def handedOut? (store : Store) (node : RedNode) (index : Nat) : Option RedNode := do
  let cell ← store.cell? node.address
  let address ← cell.children[index]?.join
  let child ← store.cell? address
  return child.node

/-- The node in a slot that holds the node `green`. -/
def childNode (store : Store) (node : RedNode) (index : Nat) (green : Green) (offset : Nat) :
    RedNode × Store :=
  match store.handedOut? node index with
  | some child => (child, store.retain child)
  | none =>
    let child := .child store.next green node index offset
    let made := (store.retain node).add child
    (child, made.modify node fun cell => some (cell.remember index child))

def slot (store : Store) (node : RedNode) (index : Nat) : Option RedElement × Store :=
  match node.green.slot? index with
  | none => (none, store)
  | some green =>
    let offset := node.offset + node.green.element.slotOffset index
    match green.element with
    | .leaf token => (some (.token ⟨token, node, index, offset⟩), store.retain node)
    | .node .. =>
      let (child, after) := store.childNode node index green offset
      (some (.node child), after)

def slots (store : Store) (node : RedNode) : List Nat → List RedElement × Store
  | [] => ([], store)
  | index :: indices =>
    let (element, after) := store.slot node index
    let (elements, last) := after.slots node indices
    (element.toList ++ elements, last)

/-- The children of a node from left to right, held. -/
def children (store : Store) (node : RedNode) : List RedElement × Store :=
  store.slots node (List.range node.green.element.slots.length)

def releaseAll (store : Store) (elements : List RedElement) : Store :=
  elements.foldl (fun store element => store.release element.holds) store

end Store

end MatrixScript
