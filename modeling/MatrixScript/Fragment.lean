import MatrixScript.Text.Characters
import MatrixScript.Token

/-!
Trivia as it is read: stretches of white space, line breaks, comments and continuations.

`Fragment.next?` reads one stretch and `Fragment.run` as many as stand at the front of a text. Both
only part the text: what they take and what they leave make up what they were given.
-/

set_option autoImplicit false

namespace MatrixScript

/-- A stretch of trivia with its text. -/
structure Fragment where
  kind : TriviaKind
  text : List Char
  problem : Option Problem := none
  deriving DecidableEq, Repr

namespace Fragment

def isHorizontal (c : Char) : Bool := c == ' ' || c == '\t' || c == '\x0b' || c == '\x0c'

def isLineEnd (c : Char) : Bool := c == '\n' || c == '\r'

/-- The front of a text up to a line feed or carriage return. -/
def line (text : List Char) : List Char := text.takeWhile (!isLineEnd ·)

def afterLine (text : List Char) : List Char := text.dropWhile (!isLineEnd ·)

@[simp]
theorem line_append_afterLine (text : List Char) : line text ++ afterLine text = text :=
  List.takeWhile_append_dropWhile

/-- One line break at the front, and the rest. A lone carriage return counts as one. -/
def lineBreak : List Char → List Char × List Char
  | '\r' :: '\n' :: rest => (['\r', '\n'], rest)
  | c :: rest => if isLineEnd c then ([c], rest) else ([], c :: rest)
  | [] => ([], [])

/-- `%` opens a block comment when `{` and white space are all that follow on its line; `text` is
what stands after the `%`. -/
def opensBlock : List Char → Bool
  | '{' :: rest => (Text.firstLine rest).all Text.isBlank
  | _ => false

/-- Whether the line at the front of a text closes a block comment. -/
def closesBlock (text : List Char) : Bool := Text.trim (Text.firstLine text) == ['%', '}']

/-- A block comment: its text, what follows, and whether a closing line was found. Each line break
is followed by a look at the next line. -/
def blockComment : List Char → List Char × List Char × Bool
  | [] => ([], [], false)
  | '\r' :: '\n' :: rest =>
    if closesBlock rest then ('\r' :: '\n' :: line rest, afterLine rest, true)
    else
      let (text, after, closed) := blockComment rest
      ('\r' :: '\n' :: text, after, closed)
  | c :: rest =>
    if isLineEnd c && closesBlock rest then (c :: line rest, afterLine rest, true)
    else
      let (text, after, closed) := blockComment rest
      (c :: text, after, closed)

/-- The stretch of trivia at the front of a text. Block comments open only where a line starts. -/
def next? (atLineStart : Bool) : List Char → Option (Fragment × List Char)
  | '\r' :: '\n' :: rest => some (⟨.newline, ['\r', '\n'], none⟩, rest)
  | '\r' :: rest => some (⟨.whitespace, ['\r'], none⟩, rest)
  | '\n' :: rest => some (⟨.newline, ['\n'], none⟩, rest)
  | '%' :: rest =>
    if atLineStart && opensBlock rest then
      let (text, after, closed) := blockComment rest
      let problem := if closed then none else some .unexpectedEndOfFile
      some (⟨.multilineComment, '%' :: text, problem⟩, after)
    else some (⟨.comment, '%' :: line rest, none⟩, afterLine rest)
  | '.' :: '.' :: '.' :: rest =>
    let (lineEnd, after) := lineBreak (afterLine rest)
    some (⟨.lineContinuation, '.' :: '.' :: '.' :: (line rest ++ lineEnd), none⟩, after)
  | c :: rest =>
    if isHorizontal c then
      some (⟨.whitespace, c :: rest.takeWhile isHorizontal, none⟩, rest.dropWhile isHorizontal)
    else none
  | [] => none

private theorem lineBreak_append (text : List Char) :
    (lineBreak text).1 ++ (lineBreak text).2 = text := by
  fun_cases lineBreak text <;> simp_all

theorem blockComment_append (text : List Char) :
    (blockComment text).1 ++ (blockComment text).2.1 = text := by
  fun_induction blockComment text <;> simp_all

/-- Reading a stretch parts the text, and takes something. -/
theorem next?_append {atLineStart : Bool} {text rest : List Char} {fragment : Fragment}
    (h : next? atLineStart text = some (fragment, rest)) :
    fragment.text ++ rest = text ∧ fragment.text ≠ [] := by
  revert h
  fun_cases next? atLineStart text
  all_goals intro h
  all_goals simp only [Option.some.injEq, Prod.mk.injEq, reduceCtorEq] at h
  all_goals obtain ⟨rfl, rfl⟩ := h
  all_goals try simp
  · rename_i rest _ text after closed e _
    have := blockComment_append rest
    simp_all
  · rename_i rest lineEnd after e
    have := lineBreak_append (afterLine rest)
    simp_all

/-- Whether a line starts after a stretch of trivia. -/
def startsLine (atLineStart : Bool) : TriviaKind → Bool
  | .newline | .multilineComment => true
  | .whitespace => atLineStart
  | .comment | .lineContinuation => false

theorem next?_length_lt {atLineStart : Bool} {text rest : List Char} {fragment : Fragment}
    (h : next? atLineStart text = some (fragment, rest)) : rest.length < text.length := by
  obtain ⟨rfl, taken⟩ := next?_append h
  have := List.length_pos_iff.2 taken
  simp; omega

/-- The trivia at the front of a text. After a token it ends with the line. -/
def run (trailing atLineStart : Bool) (text : List Char) : List Fragment × List Char :=
  match _h : next? atLineStart text with
  | none => ([], text)
  | some (fragment, rest) =>
    if trailing && fragment.kind == .newline then ([fragment], rest)
    else
      let (fragments, after) := run trailing (startsLine atLineStart fragment.kind) rest
      (fragment :: fragments, after)
termination_by text.length
decreasing_by exact next?_length_lt _h

theorem run_of_none {trailing atLineStart : Bool} {text : List Char}
    (found : next? atLineStart text = none) : run trailing atLineStart text = ([], text) := by
  rw [run]
  split <;> simp_all

theorem run_of_some {trailing atLineStart : Bool} {text rest : List Char}
    {fragment : Fragment} (found : next? atLineStart text = some (fragment, rest)) :
    run trailing atLineStart text =
      if trailing && fragment.kind == .newline then ([fragment], rest)
      else (fragment :: (run trailing (startsLine atLineStart fragment.kind) rest).1,
        (run trailing (startsLine atLineStart fragment.kind) rest).2) := by
  rw [run]
  split <;> simp_all

def leading (atLineStart : Bool) (text : List Char) : List Fragment × List Char :=
  run false atLineStart text

/-- Trivia after a token, up to the end of its line. -/
def trailing (text : List Char) : List Fragment × List Char := run true false text

def textOf (fragments : List Fragment) : List Char := fragments.flatMap Fragment.text

theorem run_append (trailing atLineStart : Bool) (text : List Char) :
    textOf (run trailing atLineStart text).1 ++ (run trailing atLineStart text).2 = text := by
  fun_induction run trailing atLineStart text with
  | case1 => simp [textOf]
  | case2 _ _ fragment rest h _ => simpa [textOf] using (next?_append h).1
  | case3 _ _ fragment rest h _ fragments after e ih =>
    have parts := (next?_append h).1
    simp_all [textOf]

theorem leading_append (atLineStart : Bool) (text : List Char) :
    textOf (leading atLineStart text).1 ++ (leading atLineStart text).2 = text :=
  run_append false atLineStart text

theorem trailing_append (text : List Char) :
    textOf (trailing text).1 ++ (trailing text).2 = text :=
  run_append true false text

/-- No white space or line break is left where trivia before a token ends. -/
theorem run_rest {atLineStart : Bool} {text rest : List Char} {c : Char}
    (h : (run false atLineStart text).2 = c :: rest) :
    isHorizontal c = false ∧ isLineEnd c = false := by
  fun_induction run false atLineStart text with
  | case1 atLineStart text none =>
    simp only at h
    subst h
    unfold next? at none
    split at none <;> simp_all [isHorizontal, isLineEnd]
  | case2 => simp_all
  | case3 => simp_all

def pieces (fragments : List Fragment) : List Piece :=
  fragments.map fun fragment => ⟨fragment.kind, Text.byteSize fragment.text⟩

theorem total_pieces (fragments : List Fragment) :
    Piece.total (pieces fragments) = Text.byteSize (textOf fragments) := by
  induction fragments with
  | nil => rfl
  | cons fragment rest ih => simp_all [Piece.total, pieces, textOf]

/-- The problems of stretches that start at `offset`. -/
def diagnostics : List Fragment → Nat → List Diagnostic
  | [], _ => []
  | fragment :: rest, offset =>
    let length := Text.byteSize fragment.text
    let own := fragment.problem.toList.map fun problem =>
      Diagnostic.mk problem (Range.ofLength offset length)
    own ++ diagnostics rest (offset + length)

theorem diagnostics_shift (fragments : List Fragment) (offset bytes : Nat) :
    (diagnostics fragments offset).map (·.shift bytes) =
      diagnostics fragments (offset + bytes) := by
  induction fragments generalizing offset with
  | nil => rfl
  | cons fragment fragments ih =>
    have start (length : Nat) : (Range.ofLength offset length).shift bytes =
        Range.ofLength (offset + bytes) length := by
      simp only [Range.shift, Range.ofLength, Nat.add_right_comm]
    rw [diagnostics, diagnostics, List.map_append, ih, List.map_map, Nat.add_right_comm]
    congr 2
    exact funext fun problem => by simp [Diagnostic.shift, start]

end Fragment

end MatrixScript
