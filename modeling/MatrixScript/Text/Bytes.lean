/-!
Texts are lists of characters, and every offset into one counts the bytes of its UTF-8 form.

`splitBytes?` cuts a text at a byte offset and refuses an offset inside a character or past the
end; a slice is two such cuts.
-/

set_option autoImplicit false

namespace MatrixScript.Text

def byteSize : List Char → Nat
  | [] => 0
  | c :: rest => c.utf8Size + byteSize rest

@[simp]
theorem byteSize_nil : byteSize [] = 0 := rfl

@[simp]
theorem byteSize_cons (c : Char) (rest : List Char) :
    byteSize (c :: rest) = c.utf8Size + byteSize rest := rfl

@[simp]
theorem byteSize_append (a b : List Char) : byteSize (a ++ b) = byteSize a + byteSize b := by
  induction a with
  | nil => simp
  | cons c a ih => simp [ih, Nat.add_assoc]

def splitBytes? : Nat → List Char → Option (List Char × List Char)
  | 0, text => some ([], text)
  | _ + 1, [] => none
  | n + 1, c :: rest =>
    if c.utf8Size ≤ n + 1 then
      (splitBytes? (n + 1 - c.utf8Size) rest).map fun parts => (c :: parts.1, parts.2)
    else none

theorem splitBytes?_eq_some_iff {n : Nat} {text front back : List Char} :
    splitBytes? n text = some (front, back) ↔ text = front ++ back ∧ byteSize front = n := by
  induction text generalizing n front back with
  | nil => cases n <;> cases front <;> simp [splitBytes?, eq_comm]
  | cons c rest ih =>
    cases n with
    | zero =>
      cases front with
      | nil => simp [splitBytes?]
      | cons d front => have := d.utf8Size_pos; simp [splitBytes?]; omega
    | succ n =>
      have pos := c.utf8Size_pos
      cases front with
      | nil => simp only [splitBytes?]; split <;> simp
      | cons d front =>
        simp only [splitBytes?]
        split
        · simp only [Option.map_eq_some_iff, Prod.exists, Prod.mk.injEq, List.cons.injEq, ih,
            List.cons_append, byteSize_cons]
          constructor
          · rintro ⟨a, b, ⟨rfl, size⟩, ⟨rfl, rfl⟩, rfl⟩
            exact ⟨⟨rfl, rfl⟩, by omega⟩
          · rintro ⟨⟨rfl, rfl⟩, size⟩
            exact ⟨front, back, ⟨rfl, by omega⟩, ⟨rfl, rfl⟩, rfl⟩
        · simp only [reduceCtorEq, false_iff, List.cons_append, List.cons.injEq, byteSize_cons,
            not_and, and_imp]
          rintro rfl _
          omega

/-- Cutting after a known front part gives back the two parts. -/
@[simp]
theorem splitBytes?_byteSize (front back : List Char) :
    splitBytes? (byteSize front) (front ++ back) = some (front, back) :=
  splitBytes?_eq_some_iff.2 ⟨rfl, rfl⟩

/-- The text from byte `start` to byte `stop`; refused unless both stand between characters, in
order. -/
def slice? (start stop : Nat) (text : List Char) : Option (List Char) := do
  let (_, back) ← splitBytes? start text
  if start ≤ stop then
    let (middle, _) ← splitBytes? (stop - start) back
    return middle
  else none

/-- A slice is the stretch between a front and a back part. -/
theorem slice?_append (front middle back : List Char) :
    slice? (byteSize front) (byteSize front + byteSize middle) (front ++ (middle ++ back)) =
      some middle := by
  simp [slice?]

def firstLine (text : List Char) : List Char := text.takeWhile (· != '\n')

def lastLine (text : List Char) : List Char := (text.reverse.takeWhile (· != '\n')).reverse

/-- The line feeds before a byte offset and the bytes since the last of them; refused inside a
character and past the end. -/
def lineColumn? (offset : Nat) (text : List Char) : Option (Nat × Nat) :=
  (splitBytes? offset text).map fun parts =>
    (parts.1.count '\n', byteSize (lastLine parts.1))

end MatrixScript.Text
