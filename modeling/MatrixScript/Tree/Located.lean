import MatrixScript.Element

/-!
Elements at their places in a tree.

A `Located` element knows its absolute offset and the way down from the root: for each level the
node passed, where that node starts, and the slot taken. Two places of one tree are the same when
their paths are.
-/

set_option autoImplicit false

namespace MatrixScript

/-- One level of the way down to an element. -/
structure Crumb where
  parent : Element
  offset : Nat
  index : Nat
  deriving DecidableEq, Repr

/-- An element, where it starts, and the way back to the root, innermost level first. -/
structure Located where
  element : Element
  offset : Nat := 0
  trail : List Crumb := []
  deriving DecidableEq, Repr

namespace Located

def root (element : Element) : Located := ⟨element, 0, []⟩

def kind (place : Located) : Kind := place.element.kind

/-- The slot of the parent in which the element stands; zero for the root. -/
def index (place : Located) : Nat := (place.trail.head?.map Crumb.index).getD 0

def path (place : Located) : List Nat := (place.trail.map Crumb.index).reverse

def depth (place : Located) : Nat := place.trail.length

def parent? (place : Located) : Option Located :=
  match place.trail with
  | [] => none
  | crumb :: trail => some ⟨crumb.parent, crumb.offset, trail⟩

def ancestors (place : Located) : List Located :=
  place :: go place.trail
where
  go : List Crumb → List Located
    | [] => []
    | crumb :: trail => ⟨crumb.parent, crumb.offset, trail⟩ :: go trail

def fullSpan (place : Located) : Range := Range.ofLength place.offset place.element.width

def span (place : Located) : Range := place.element.span place.offset

def text? (place : Located) : Option (List Char) := place.element.text?

/-- The diagnostics of the element itself, counted from the start of the tree. -/
def diagnostics? (place : Located) : Option (List Diagnostic) :=
  place.element.diagnostics.mapM (·.shift? place.offset)

def isNode (place : Located) : Bool := place.element.isNode

def slot? (place : Located) (index : Nat) : Option Located :=
  (place.element.slot? index).map fun element =>
    ⟨element, place.offset + place.element.slotOffset index,
      ⟨place.element, place.offset, index⟩ :: place.trail⟩

def slotStart? (place : Located) (index : Nat) : Option Nat := do
  let before ← place.element.slotOffset? index
  Element.bounded? (place.offset + before)

/-- The elements in the slots, from left to right. -/
def children (place : Located) : List Located :=
  (List.range place.element.slots.length).filterMap place.slot?

def nodes (place : Located) : List Located := place.children.filter isNode

def tokens (place : Located) : List Located := place.children.filter (!·.isNode)

mutual

/-- An element at a place and all below it, each before what it holds. -/
def preorderAt : Element → Nat → List Crumb → List Located
  | .leaf token, offset, trail => [⟨.leaf token, offset, trail⟩]
  | .node kind slots diagnostics, offset, trail =>
    let here := Element.node kind slots diagnostics
    ⟨here, offset, trail⟩ :: preorderSlots here offset trail slots 0 offset

/-- The elements in the slots of `parent` from slot `index` on, and all below them. -/
def preorderSlots (parent : Element) (start : Nat) (trail : List Crumb) :
    List (Option Element) → (index offset : Nat) → List Located
  | [], _, _ => []
  | none :: rest, index, offset => preorderSlots parent start trail rest (index + 1) offset
  | some element :: rest, index, offset =>
    preorderAt element offset (⟨parent, start, index⟩ :: trail) ++
      preorderSlots parent start trail rest (index + 1) (offset + element.width)

end

/-- The element and all below it, each before what it holds. -/
def preorder (place : Located) : List Located :=
  preorderAt place.element place.offset place.trail

def descendants (place : Located) : List Located := place.preorder.filter isNode

def descendantTokens (place : Located) : List Located := place.preorder.filter (!·.isNode)

/-- Trivia with its kind, text and absolute range. -/
abbrev Trivia := TriviaKind × List Char × Range

/-- The trivia before the significant part of a token; a node has none of its own. -/
def leadingTrivia? (place : Located) : Option (List Trivia) :=
  match place.element with
  | .leaf token => token.leadingTexts? place.offset
  | .node .. => some []

/-- The trivia after the significant part of a token; a node has none of its own. -/
def trailingTrivia? (place : Located) : Option (List Trivia) :=
  match place.element with
  | .leaf token => token.trailingTexts? place.offset
  | .node .. => some []

def trivia? (place : Located) : Option (List Trivia) := do
  return (← place.leadingTrivia?) ++ (← place.trailingTrivia?)

/-- Kind and full range; a token shows its full text too. -/
def render (place : Located) : String :=
  let head := place.kind.name ++ "@" ++ place.fullSpan.render
  match place.element with
  | .leaf token => head ++ " " ++ Text.quoted token.text
  | .node .. => head

/-- `render`, with a missing token marked as such. -/
def outline (place : Located) : String :=
  match place.element.token? with
  | some token =>
    if token.isMissing then token.kind.name ++ "@" ++ place.fullSpan.render ++ " missing"
    else place.render
  | none => place.render

end Located

/-- The lines of an outline of a tree: one for each element, indented by its depth. -/
def Element.outline (root : Element) : List String :=
  (Located.root root).preorder.map fun place =>
    String.ofList (List.replicate (2 * place.depth) ' ') ++ place.outline

end MatrixScript
