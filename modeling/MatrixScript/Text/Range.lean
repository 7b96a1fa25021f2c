import MatrixScript.Text.Bytes

/-!
Places in a text: byte ranges, and positions that also count lines and columns.
-/

set_option autoImplicit false

namespace MatrixScript

/-- The bytes from `start` up to `stop`. -/
structure Range where
  start : Nat
  stop : Nat
  deriving DecidableEq, Repr, Inhabited

namespace Range

def empty (offset : Nat) : Range := ⟨offset, offset⟩

/-- The range of a length that starts at an offset. -/
def ofLength (start length : Nat) : Range := ⟨start, start + length⟩

def length (range : Range) : Nat := range.stop - range.start

def shift (range : Range) (offset : Nat) : Range := ⟨range.start + offset, range.stop + offset⟩

def render (range : Range) : String := s!"{range.start}..{range.stop}"

end Range

/-- A place between two characters: its byte offset, the line feeds before it, and the characters
since the last of them. -/
structure Position where
  offset : Nat
  line : Nat
  column : Nat
  deriving DecidableEq, Repr, Inhabited

namespace Position

def start : Position := ⟨0, 0, 0⟩

def next (position : Position) (c : Char) : Position :=
  if c = '\n' then ⟨position.offset + c.utf8Size, position.line + 1, 0⟩
  else ⟨position.offset + c.utf8Size, position.line, position.column + 1⟩

def advance (position : Position) (text : List Char) : Position := text.foldl next position

@[simp]
theorem offset_next (position : Position) (c : Char) :
    (position.next c).offset = position.offset + c.utf8Size := by
  unfold next; split <;> rfl

@[simp]
theorem offset_advance (position : Position) (text : List Char) :
    (position.advance text).offset = position.offset + Text.byteSize text := by
  induction text generalizing position with
  | nil => simp [advance]
  | cons c text ih =>
    have := ih (position.next c)
    simp only [advance, List.foldl_cons] at this ⊢
    simp [this, Nat.add_assoc]

@[simp]
theorem advance_append (position : Position) (a b : List Char) :
    position.advance (a ++ b) = (position.advance a).advance b := by
  simp [advance, List.foldl_append]

end Position

end MatrixScript
