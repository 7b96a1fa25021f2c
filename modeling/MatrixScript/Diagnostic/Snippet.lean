import MatrixScript.Diagnostic
import MatrixScript.Text.Characters

/-!
A diagnostic shown under the line it concerns.

A snippet gives the message, the place, the line with its number, and a row of carets under the
range. An empty line, such as the one after the last line break of a text, is not shown, and the
place is then the start of the text.
-/

set_option autoImplicit false

namespace MatrixScript.Diagnostic

private def blanks (n : Nat) : String := String.ofList (List.replicate n ' ')

private def carets (n : Nat) : String := String.ofList (List.replicate n '^')

/-- The arrow to a place, both numbers from one. Nothing stands between the arrow and the line
number where the path is empty. -/
def arrow (path : String) (line column : Nat) : String :=
  let name := if path.isEmpty then "" else " " ++ path
  "-->" ++ name ++ ":" ++ toString line ++ ":" ++ toString column

/-- How many characters of a deep indent are left out: of more than 26 blanks, all but 22. -/
def hiddenIndent (line : List Char) : Nat :=
  let indent := (line.takeWhile Text.isBlank).length
  if 26 < indent then indent - 22 else 0

/-- A line without the hidden part of its indent; dots in the blanks that stay tell of it. -/
def shownLine (line : List Char) : List Char :=
  let hidden := hiddenIndent line
  if hidden = 0 then line else ['.', '.', '.'] ++ line.drop (hidden + 3)

/-- The lines of a snippet whose range starts between `front` and `back`. -/
def snippetLines (diagnostic : Diagnostic) (path : String) (front back : List Char) :
    List String :=
  let title := "error: " ++ diagnostic.message
  let head := Text.lastLine front
  let line := head ++ Text.firstLine back
  if line.isEmpty then [title, arrow path 1 1, " |", " |"]
  else
    let number := front.count '\n' + 1
    let gutter := blanks (toString number).length
    let indent := blanks (head.length - hiddenIndent line)
    [title,
      gutter ++ arrow path number (head.length + 1),
      gutter ++ " |",
      toString number ++ " | " ++ String.ofList (shownLine line),
      gutter ++ " | " ++ indent ++ carets (max 1 diagnostic.range.length) ++ " here",
      gutter ++ " |"]

def snippet (diagnostic : Diagnostic) (path : String) (text : List Char) : String :=
  let (front, back) := (Text.splitBytes? diagnostic.start text).getD (text, [])
  String.intercalate "\n" (diagnostic.snippetLines path front back)

end MatrixScript.Diagnostic
