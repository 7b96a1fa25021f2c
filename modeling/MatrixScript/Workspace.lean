import MatrixScript.Diagnostic.Snippet
import MatrixScript.Tree

/-!
Scripts that are edited and parsed again.

A file counts its edits. Its tree is a function of path and text, so a tree handed out earlier is
still the one of the file exactly when no edit has happened since.
-/

set_option autoImplicit false

namespace MatrixScript

/-- An index of the lines of texts: it answers an offset with a line and a column, both from
zero. -/
abbrev LineIndex := List Char → Nat → Nat × Nat

/-- A file, the number of its edits, and the edit count at which a tree was handed out last. -/
structure SourceFile where
  path : String
  text : List Char
  edits : Nat := 0
  handedOut : Option Nat := none
  deriving DecidableEq, Repr

namespace SourceFile

def setText (file : SourceFile) (text : List Char) : SourceFile :=
  { file with text := text, edits := file.edits + 1 }

def setPath (file : SourceFile) (path : String) : SourceFile :=
  { file with path := path, edits := file.edits + 1 }

def tree (file : SourceFile) : Except Failure Tree := Tree.parse file.text {} (some file.path)

/-- The tree, whether it is the one handed out before, and the file after that. A failure forgets
the tree before. -/
def handOut (file : SourceFile) : Except Failure (Tree × Option Bool) × SourceFile :=
  match file.tree with
  | .error failure => (.error failure, { file with handedOut := none })
  | .ok tree =>
    (.ok (tree, file.handedOut.map (· == file.edits)), { file with handedOut := some file.edits })

def diagnostics (file : SourceFile) : List Diagnostic :=
  match file.tree with
  | .ok tree => tree.diagnostics
  | .error failure => [failure.diagnostic]

/-- Line and column of an offset, as an index has them. -/
def lineColumn (file : SourceFile) (index : LineIndex) (offset : Nat) : Nat × Nat :=
  index file.text offset

def snippets (file : SourceFile) : List String :=
  file.diagnostics.map fun diagnostic => diagnostic.snippet file.path file.text

end SourceFile

end MatrixScript
