import MatrixScript.Tree.View

/-!
Visits of a tree, with a hand in each step.

A `Visitor` says what to do at a node, a token and a piece of trivia, and is told how to go on into
a node. What it leaves open goes on everywhere and keeps its state. A visit is refused where the
trivia of a token ends inside a character.
-/

set_option autoImplicit false

namespace MatrixScript

/-- What is done at each element of a tree, on a state `σ`. -/
structure Visitor (σ : Type) where
  /-- At a node with parts; the second argument visits it as a plain node. -/
  viewed : Located → (σ → Option σ) → σ → Option σ := fun _ plain => plain
  /-- At any node; the second argument visits its children. -/
  plain : Located → (σ → Option σ) → σ → Option σ := fun _ walk => walk
  /-- At a piece of trivia. -/
  trivia : Located.Trivia → σ → σ := fun _ state => state
  /-- At a token; by default its trivia are visited. -/
  token : Located → σ → Option σ := fun place state =>
    place.trivia?.map fun pieces => pieces.foldl (fun state piece => trivia piece state) state

namespace Visitor

variable {σ : Type}

mutual

def visitAt (visitor : Visitor σ) : Element → Nat → List Crumb → σ → Option σ
  | .leaf token, offset, trail, state => visitor.token ⟨.leaf token, offset, trail⟩ state
  | .node kind slots diagnostics, offset, trail, state =>
    let here : Located := ⟨.node kind slots diagnostics, offset, trail⟩
    let plain := visitor.plain here fun state =>
      visitSlots visitor here.element offset trail slots 0 offset state
    if kind.hasView then visitor.viewed here plain state else plain state

/-- Visits the elements in the slots of `parent` from slot `index` on. -/
def visitSlots (visitor : Visitor σ) (parent : Element) (start : Nat) (trail : List Crumb) :
    List (Option Element) → (index offset : Nat) → σ → Option σ
  | [], _, _, state => some state
  | none :: rest, index, offset, state =>
    visitSlots visitor parent start trail rest (index + 1) offset state
  | some element :: rest, index, offset, state =>
    (visitAt visitor element offset (⟨parent, start, index⟩ :: trail) state).bind fun state =>
      visitSlots visitor parent start trail rest (index + 1) (offset + element.width) state

end

def visit (visitor : Visitor σ) (root : Element) (state : σ) : Option σ :=
  visitor.visitAt root 0 [] state

end Visitor

def Kind.visitName (kind : Kind) : String :=
  "visit_" ++ String.ofList (kind.name.toList.map Char.toLower)

/-- A line of the record of a visit. -/
inductive VisitNote where
  | node (kind : Kind) (span : Range)
  | token (kind : Kind) (text : List Char)
  | trivia (trivia : Located.Trivia)
  deriving DecidableEq, Repr

/-- The record of a visit: its notes in order, and the number of plain nodes. -/
structure VisitRecord where
  notes : List VisitNote := []
  plainNodes : Nat := 0
  deriving DecidableEq, Repr

def VisitRecord.note (record : VisitRecord) (note : VisitNote) : VisitRecord :=
  { record with notes := record.notes ++ [note] }

/-- Records every step, and does not go into nodes with parts whose kind is in `stop`. -/
def Visitor.recording (stop : List Kind) : Visitor VisitRecord where
  viewed place plain record :=
    let noted := record.note (.node place.kind place.span)
    if stop.contains place.kind then some noted else plain noted
  plain _ walk record := walk { record with plainNodes := record.plainNodes + 1 }
  token place record := do
    let token ← place.element.token?
    let text ← token.trimmed?
    let pieces ← place.trivia?
    return pieces.foldl (fun record piece => record.note (.trivia piece))
      (record.note (.token token.kind text))

/-- What a script names: the texts of its name expressions, the names of its functions, and its
trivia, each in order. -/
structure NameIndex where
  identifiers : List (List Char) := []
  functions : List (List Char) := []
  trivia : List (List Char) := []
  deriving DecidableEq, Repr

def Located.functionName? (place : Located) : Option (List Char) :=
  match place.childIn? 2 (.exactly .compoundName) with
  | some name => name.joinedText?
  | none => some []

def Visitor.indexing : Visitor NameIndex where
  viewed place plain index :=
    match place.kind with
    | .identifierNameExpression => do
      let text ← place.text?
      plain { index with identifiers := index.identifiers ++ [text] }
    | .functionDeclaration => do
      let text ← place.functionName?
      plain { index with functions := index.functions ++ [text] }
    | _ => plain index
  trivia piece index := { index with trivia := index.trivia ++ [piece.2.1] }

def Visitor.silent : Visitor Unit := {}

end MatrixScript
