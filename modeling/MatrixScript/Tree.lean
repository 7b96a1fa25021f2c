import MatrixScript.BufferedLexer
import MatrixScript.Grammar.Statement

/-!
Parsed scripts: a syntax tree with every problem found in it, in the order of their places.
-/

set_option autoImplicit false

namespace MatrixScript

/-- Where parsing starts. -/
structure Options where
  /-- As if between the brackets of a matrix, where white space separates elements. -/
  insideBrackets : Bool := false
  deriving DecidableEq, Repr

/-- A syntax tree, its diagnostics, and the name of its source. -/
structure Tree where
  root : Element
  diagnostics : List Diagnostic
  name : Option String := none
  deriving DecidableEq, Repr

namespace Tree

def make (root : Element) (diagnostics : List Diagnostic) (name : Option String) : Tree :=
  ⟨root, Diagnostic.sortByStart diagnostics, name⟩

def fullText (tree : Tree) : List Char := tree.root.fullText

/-- Parses a text. The problems of its tokens come before those of its syntax at the same place. -/
def parse (text : List Char) (options : Options) (name : Option String) : Except Failure Tree := do
  let lexed ← lex text
  let (root, state) ← Grammar.script options.insideBrackets (.ofStream lexed.stream)
  return make root (lexed.diagnostics ++ state.diagnostics) name

/-- The problems of the text are those of its tokens. -/
theorem parse_eq (text : List Char) (options : Options) (name : Option String) :
    parse text options name = do
      let stream ← tokenize text
      let (root, state) ← Grammar.script options.insideBrackets (.ofStream stream)
      return make root (stream.diagnostics ++ state.diagnostics) name := by
  rw [parse, lex_eq]
  cases tokenize text with
  | error failure => rfl
  | ok stream => rfl

end Tree

end MatrixScript
