import MatrixScript.Text.Range

/-!
A cursor over a text that knows its line and column.

Looking past the end gives nothing, or `Window.endMark` for readers that want a character always.
-/

set_option autoImplicit false

namespace MatrixScript

/-- A text, what is left of it, and the place between the two parts. -/
structure Window where
  text : List Char
  rest : List Char
  position : Position
  deriving DecidableEq, Repr

namespace Window

def endMark : Char := '\x00'

def start (text : List Char) : Window := ⟨text, text, Position.start⟩

def offset (window : Window) : Nat := window.position.offset

def isAtEnd (window : Window) : Bool := window.rest.isEmpty

/-- The text from a byte offset up to the cursor; refused past the cursor and inside a character. -/
def textFrom? (window : Window) (start : Nat) : Option (List Char) :=
  Text.slice? start window.offset window.text

def restOfLine (window : Window) : List Char := Text.firstLine window.rest

def peekAt? (window : Window) (ahead : Nat) : Option Char := window.rest[ahead]?

def peek? (window : Window) : Option Char := window.peekAt? 0

private def skip (window : Window) (count : Nat) : Window :=
  { window with
    rest := window.rest.drop count
    position := window.position.advance (window.rest.take count) }

def consume? (window : Window) : Option Char × Window := (window.peek?, window.skip 1)

/-- Moves over as many characters as asked for, if there are so many. -/
def consumeMany (window : Window) (count : Nat) : Window := window.skip count

/-- `consumeMany`, with the text that is moved over. -/
def take (window : Window) (count : Nat) : List Char × Window :=
  (window.rest.take count, window.skip count)

/-- Moves over the characters in front that satisfy a test. -/
def consumeWhile (window : Window) (test : Char → Bool) : Window :=
  window.skip (window.rest.takeWhile test).length

theorem consumeMany_zero (window : Window) : window.consumeMany 0 = window := rfl

theorem consumeMany_add (window : Window) (m n : Nat) :
    window.consumeMany (m + n) = (window.consumeMany m).consumeMany n := by
  simp only [consumeMany, skip, List.drop_drop, List.take_add, Position.advance_append]

theorem rest_consumeMany {window : Window} {front back : List Char}
    (parts : front ++ back = window.rest) : (window.consumeMany front.length).rest = back := by
  simp [consumeMany, skip, ← parts]

theorem position_consumeMany {window : Window} {front back : List Char}
    (parts : front ++ back = window.rest) :
    (window.consumeMany front.length).position = window.position.advance front := by
  simp [consumeMany, skip, ← parts]

theorem offset_consumeMany {window : Window} {front back : List Char}
    (parts : front ++ back = window.rest) :
    (window.consumeMany front.length).offset = window.offset + Text.byteSize front := by
  rw [offset, position_consumeMany parts, Position.offset_advance, offset]

end Window

end MatrixScript
