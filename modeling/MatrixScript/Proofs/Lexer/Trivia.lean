import Mathlib.Data.List.Induction
import MatrixScript.Proofs.Lexer.History

/-!
How trivia is attached to tokens.

Each piece of trivia is spelled as its kind says (`TriviaKind.Spells`), after a token it ends with
the line and holds no block comment, and before a token there is none within a line. What is left is
the significant part, which starts with no trivia and is empty only at the end of the text.
-/

set_option autoImplicit false

namespace MatrixScript

/-- The line break at the end of a line where `after` follows on it; there is none at the end of the
text. A carriage return alone counts as one. -/
def Fragment.IsLineBreak (lineEnd after : List Char) : Prop :=
  lineEnd = [] ∧ after = [] ∨ lineEnd = ['\n'] ∨ lineEnd = ['\r', '\n'] ∨
    lineEnd = ['\r'] ∧ after.head? ≠ some '\n'

/-- What a stretch of trivia of a kind is written as, where `after` follows on it. -/
inductive TriviaKind.Spells : TriviaKind → List Char → List Char → Prop
  | blanks {text after : List Char} : text ≠ [] → (∀ c ∈ text, Fragment.isHorizontal c = true) →
    Spells .whitespace text after
  | carriageReturn {after : List Char} : after.head? ≠ some '\n' → Spells .whitespace ['\r'] after
  | lineFeed {after : List Char} : Spells .newline ['\n'] after
  | crlf {after : List Char} : Spells .newline ['\r', '\n'] after
  | comment {line after : List Char} : (∀ c ∈ line, Fragment.isLineEnd c = false) →
    Spells .comment ('%' :: line) after
  | lineContinuation {line lineEnd after : List Char} :
    (∀ c ∈ line, Fragment.isLineEnd c = false) → Fragment.IsLineBreak lineEnd after →
    Spells .lineContinuation ('.' :: '.' :: '.' :: (line ++ lineEnd)) after
  /-- Nothing but white space follows on the line that opens it. -/
  | multilineComment {rest after : List Char} :
    (Text.firstLine (rest ++ after)).all Text.isBlank = true →
    Spells .multilineComment ('%' :: '{' :: rest) after

/-- A text that does not start with trivia. -/
structure Text.Significant (text : List Char) : Prop where
  visible : ∀ c ∈ text.head?,
    Fragment.isHorizontal c = false ∧ Fragment.isLineEnd c = false ∧ c ≠ '%'
  notContinued : ¬['.', '.', '.'] <+: text

namespace Fragment

variable {trailing atLineStart : Bool} {text rest : List Char} {fragment : Fragment}

theorem isLineEnd_of_mem_line {c : Char} (member : c ∈ line text) : isLineEnd c = false := by
  simpa using List.all_eq_true.mp List.all_takeWhile c member

theorem isLineEnd_of_head?_afterLine (text : List Char) {c : Char}
    (first : c ∈ (afterLine text).head?) : isLineEnd c = true := by
  have stops := List.head?_dropWhile_not (!isLineEnd ·) text
  rw [show (text.dropWhile (!isLineEnd ·)).head? = some c from first] at stops
  simpa using stops

private theorem lineBreak_isLineBreak (ended : ∀ c ∈ text.head?, isLineEnd c = true) :
    IsLineBreak (lineBreak text).1 (lineBreak text).2 := by
  fun_cases lineBreak text
  case case1 => exact Or.inr (Or.inr (Or.inl rfl))
  case case2 c rest other lineEnd =>
    rcases (by simpa [isLineEnd] using lineEnd : c = '\n' ∨ c = '\r') with rfl | rfl
    · exact Or.inr (Or.inl rfl)
    · refine Or.inr (Or.inr (Or.inr ⟨rfl, fun feed => ?_⟩))
      obtain ⟨after, rfl⟩ := List.head?_eq_some_iff.mp feed
      exact other after rfl rfl
  case case3 c rest _ notLineEnd => exact absurd (ended c rfl) notLineEnd
  case case4 => exact Or.inl ⟨rfl, rfl⟩

private theorem exists_of_opensBlock (opens : opensBlock text = true) :
    ∃ inner, text = '{' :: inner ∧ (Text.firstLine inner).all Text.isBlank = true := by
  unfold opensBlock at opens
  split at opens
  · exact ⟨_, rfl, opens⟩
  · cases opens

private theorem blockComment_brace (rest : List Char) :
    (blockComment ('{' :: rest)).1 = '{' :: (blockComment rest).1 := by
  rw [blockComment]
  · simp [isLineEnd]
  · simp

private theorem next?_spells (found : next? atLineStart text = some (fragment, rest)) :
    fragment.kind.Spells fragment.text rest := by
  revert found
  fun_cases next? atLineStart text
  all_goals
    intro found
    simp only [Option.some.injEq, Prod.mk.injEq, reduceCtorEq] at found
  all_goals obtain ⟨rfl, rfl⟩ := found
  case case1 => exact .crlf
  case case2 rest other =>
    refine .carriageReturn fun feed => ?_
    obtain ⟨after, rfl⟩ := List.head?_eq_some_iff.mp feed
    exact other after rfl
  case case3 => exact .lineFeed
  case case4 rest opens comment after closed split _ =>
    rw [Bool.and_eq_true] at opens
    obtain ⟨inner, rfl, blank⟩ := exists_of_opensBlock opens.2
    have parts := blockComment_append ('{' :: inner)
    have brace := blockComment_brace inner
    rw [split] at parts brace
    dsimp only at parts brace
    rw [brace] at parts ⊢
    have whole : (blockComment inner).1 ++ after = inner := (List.cons.inj parts).2
    refine .multilineComment ?_
    rwa [whole]
  case case5 => exact .comment fun c => isLineEnd_of_mem_line
  case case6 rest lineEnd after split =>
    have ends := lineBreak_isLineBreak fun c => isLineEnd_of_head?_afterLine rest
    rw [split] at ends
    exact .lineContinuation (fun c => isLineEnd_of_mem_line) ends
  case case7 c rest _ _ _ _ _ horizontal =>
    refine .blanks (List.cons_ne_nil c _) ?_
    rw [List.forall_mem_cons]
    exact ⟨horizontal, List.all_eq_true.mp List.all_takeWhile⟩

theorem significant_of_next? (none : next? atLineStart text = none) : Text.Significant text := by
  revert none
  fun_cases next? atLineStart text
  all_goals
    intro none
    simp only [reduceCtorEq] at none
  case case8 c rest _ noReturn noFeed noComment noDots notHorizontal =>
    refine ⟨?_, ?_⟩
    · rintro d front
      obtain rfl : c = d := Option.some.inj front
      refine ⟨by simpa using notHorizontal, ?_, noComment⟩
      simpa [isLineEnd] using ⟨noFeed, noReturn⟩
    · rintro ⟨after, dots⟩
      obtain ⟨rfl, rfl⟩ := List.cons.inj dots
      exact noDots after rfl rfl
  case case9 => exact ⟨by simp, by simp⟩

private theorem run_significant (atLineStart : Bool) (text : List Char) :
    Text.Significant (run false atLineStart text).2 := by
  fun_induction run false atLineStart text with
  | case1 atLineStart text none => exact significant_of_next? none
  | case2 _ _ _ _ _ stops => simp at stops
  | case3 _ _ _ _ _ _ _ _ split ih => rwa [split] at ih

def startsLineAfter (atLineStart : Bool) (fragments : List Fragment) : Bool :=
  fragments.foldl (fun start fragment => startsLine start fragment.kind) atLineStart

theorem next?_of_run {front back : List Fragment}
    (split : (run trailing atLineStart text).1 = front ++ fragment :: back) :
    next? (startsLineAfter atLineStart front)
        (fragment.text ++ (textOf back ++ (run trailing atLineStart text).2)) =
      some (fragment, textOf back ++ (run trailing atLineStart text).2) ∧
    (trailing = true → ∀ earlier ∈ front, earlier.kind ≠ .newline) := by
  fun_induction run trailing atLineStart text generalizing front with
  | case1 => simp at split
  | case2 atLineStart text first rest found stops =>
    obtain ⟨rfl, rfl, rfl⟩ : front = [] ∧ fragment = first ∧ back = [] := by
      cases front with
      | nil => simpa [eq_comm] using split
      | cons => simp at split
    have parts := (next?_append found).1
    simpa [textOf, startsLineAfter, parts] using found
  | case3 atLineStart text first rest found goesOn fragments after later ih =>
    rw [later] at ih
    cases front with
    | nil =>
      obtain ⟨rfl, rfl⟩ := List.cons.inj split
      have parts := (next?_append found).1
      have tail := run_append trailing (startsLine atLineStart first.kind) rest
      rw [later] at tail
      dsimp only at tail ⊢
      rw [tail, parts]
      exact ⟨found, fun _ => by simp⟩
    | cons head front =>
      obtain ⟨rfl, tail⟩ := List.cons.inj split
      obtain ⟨reads, inner⟩ := ih tail
      refine ⟨reads, fun after => ?_⟩
      rw [List.forall_mem_cons]
      exact ⟨by simpa [after] using goesOn, inner after⟩

private theorem atLineStart_of_multilineComment
    (found : next? atLineStart text = some (fragment, rest))
    (block : fragment.kind = .multilineComment) : atLineStart = true := by
  cases atLineStart with
  | true => rfl
  | false =>
    have inLine := next?_startsLine found (by simp [block])
    rw [block] at inLine
    cases inLine

private theorem run_trailing_inLine (after : trailing = true) (inLine : atLineStart = false) :
    ∀ fragment ∈ (run trailing atLineStart text).1, fragment.kind ≠ .multilineComment := by
  fun_induction run trailing atLineStart text with
  | case1 => simp
  | case2 _ _ fragment rest _ stops =>
    rw [Bool.and_eq_true, beq_iff_eq] at stops
    simp [stops.2]
  | case3 _ _ fragment rest found goesOn fragments later split ih =>
    subst after inLine
    rw [split] at ih
    have stays := next?_startsLine found (by simpa using goesOn)
    rw [List.forall_mem_cons]
    refine ⟨fun block => ?_, ih stays⟩
    rw [block] at stays
    cases stays

private theorem run_trailing_dropLast (text : List Char) (atLineStart : Bool) :
    ∀ fragment ∈ (run true atLineStart text).1.dropLast, fragment.kind ≠ .newline := by
  rcases List.eq_nil_or_concat (run true atLineStart text).1 with none | ⟨front, last, split⟩
  · simp [none]
  · rw [List.concat_eq_append] at split
    rw [split, List.dropLast_concat]
    exact (next?_of_run split).2 rfl

private theorem startsLineAfter_iff (atLineStart : Bool) (fragments : List Fragment) :
    startsLineAfter atLineStart fragments = true ↔
      ((fragments.filter (·.kind != .whitespace)).getLast?.elim (atLineStart = true) fun last =>
        last.kind = .newline ∨ last.kind = .multilineComment) := by
  induction fragments using List.reverseRecOn with
  | nil => exact Iff.rfl
  | append_singleton fragments last ih =>
    have step : startsLineAfter atLineStart (fragments ++ [last]) =
        startsLine (startsLineAfter atLineStart fragments) last.kind := by
      simp [startsLineAfter]
    rw [step, List.filter_append]
    cases kind : last.kind <;> simp [startsLine, kind, ih]

private theorem run_blocks {front back : List Piece} {block : Piece}
    (split : pieces (run trailing atLineStart text).1 = front ++ block :: back)
    (isBlock : block.kind = .multilineComment) :
    ∀ last ∈ (front.filter (·.kind != .whitespace)).getLast?,
      last.kind = .newline ∨ last.kind = .multilineComment := by
  obtain ⟨before, rest, whole, rfl, rest'⟩ := List.map_eq_append_iff.mp split
  obtain ⟨fragment, after, rfl, rfl, -⟩ := List.map_eq_cons_iff.mp rest'
  have starts := atLineStart_of_multilineComment (next?_of_run whole).1 isBlock
  rw [startsLineAfter_iff] at starts
  intro last found
  rw [List.filter_map, List.getLast?_map, Option.mem_def, Option.map_eq_some_iff] at found
  obtain ⟨fragment, found, rfl⟩ := found
  have same : (before.filter (·.kind != .whitespace)).getLast? = some fragment := found
  rw [same] at starts
  exact starts

/-- Stretches of trivia with their texts and ranges, the first of them at `offset`. -/
def texts : List Fragment → Nat → List (TriviaKind × List Char × Range)
  | [], _ => []
  | fragment :: rest, offset =>
    (fragment.kind, fragment.text, Range.ofLength offset (Text.byteSize fragment.text)) ::
      texts rest (offset + Text.byteSize fragment.text)

private theorem texts?_pieces (fragments : List Fragment) (more : List Char) (offset : Nat) :
    Piece.texts? (pieces fragments) (textOf fragments ++ more) offset =
      some (texts fragments offset) := by
  induction fragments generalizing offset with
  | nil => rfl
  | cons fragment fragments ih =>
    have parts : textOf (fragment :: fragments) ++ more =
        fragment.text ++ (textOf fragments ++ more) := by simp [textOf]
    have later := ih (offset + Text.byteSize fragment.text)
    unfold pieces at later ⊢
    simp [Piece.texts?, parts, Text.splitBytes?_byteSize, later, texts]

private theorem exists_of_mem_texts {fragments : List Fragment} {offset : Nat}
    {item : TriviaKind × List Char × Range} (member : item ∈ texts fragments offset) :
    ∃ front fragment back, fragments = front ++ fragment :: back ∧
      item = (fragment.kind, fragment.text,
        Range.ofLength (offset + Text.byteSize (textOf front)) (Text.byteSize fragment.text)) := by
  induction fragments generalizing offset with
  | nil => cases member
  | cons first fragments ih =>
    rcases List.mem_cons.mp member with rfl | member
    · exact ⟨[], first, fragments, rfl, by simp [textOf]⟩
    · obtain ⟨front, fragment, back, rfl, same⟩ := ih member
      refine ⟨first :: front, fragment, back, rfl, ?_⟩
      rw [same]
      simp [textOf, Nat.add_assoc]

private theorem mem_diagnostics {front back : List Fragment} {problem : Problem}
    (own : problem ∈ fragment.problem) (offset : Nat) :
    ⟨problem, Range.ofLength (offset + Text.byteSize (textOf front))
      (Text.byteSize fragment.text)⟩ ∈ diagnostics (front ++ fragment :: back) offset := by
  induction front generalizing offset with
  | nil => simp [diagnostics, textOf, Option.mem_def.mp own]
  | cons first front ih =>
    have later := ih (offset + Text.byteSize first.text)
    simp only [List.cons_append, diagnostics, List.mem_append]
    refine Or.inr ?_
    simpa [textOf, Nat.add_assoc] using later

end Fragment

namespace Reading

variable (reading : Reading) (offset : Nat)

theorem token_leadingTexts? : reading.token.leadingTexts? offset =
    some (Fragment.texts reading.leading offset) := by
  have parts := Fragment.texts?_pieces reading.leading
    (reading.lexeme.text ++ Fragment.textOf reading.trailing) offset
  rwa [← List.append_assoc] at parts

theorem token_trailingTexts? : reading.token.trailingTexts? offset =
    some (Fragment.texts reading.trailing (offset +
      Text.byteSize (Fragment.textOf reading.leading ++ reading.lexeme.text))) := by
  have start : reading.token.width - reading.token.trailingWidth =
      Text.byteSize (Fragment.textOf reading.leading ++ reading.lexeme.text) := by
    simp only [token, Token.width, Token.trailingWidth, text, Fragment.total_pieces,
      Text.byteSize_append]
    omega
  have parts := Fragment.texts?_pieces reading.trailing [] (offset +
    Text.byteSize (Fragment.textOf reading.leading ++ reading.lexeme.text))
  rw [List.append_nil] at parts
  have split : Text.splitBytes?
      (Text.byteSize (Fragment.textOf reading.leading ++ reading.lexeme.text)) reading.token.text =
        some (Fragment.textOf reading.leading ++ reading.lexeme.text,
          Fragment.textOf reading.trailing) := Text.splitBytes?_byteSize _ _
  rw [Token.trailingTexts?, start, split]
  exact parts

end Reading

/-- The pieces of trivia before and after a token, with their texts and ranges. -/
def PlacedToken.trivia? (placed : PlacedToken) :
    Option (List (TriviaKind × List Char × Range)) := do
  let leading ← placed.token.leadingTexts? placed.fullStart
  let trailing ← placed.token.trailingTexts? placed.fullStart
  return leading ++ trailing

/-- How a piece of trivia of a token is read off its text. -/
inductive Fragment.Origin (text : List Char) (placed : PlacedToken) :
    TriviaKind × List Char × Range → Prop
  | read {fragment : Fragment} {front after : List Char} {atLineStart : Bool} :
    front ++ (fragment.text ++ after) = text →
    Fragment.next? atLineStart (fragment.text ++ after) = some (fragment, after) →
    (∀ problem ∈ fragment.problem, ⟨problem, Range.ofLength (Text.byteSize front)
      (Text.byteSize fragment.text)⟩ ∈ placed.diagnostics) →
    Fragment.Origin text placed (fragment.kind, fragment.text,
      Range.ofLength (Text.byteSize front) (Text.byteSize fragment.text))

private theorem origin_of_run {text before ahead : List Char} {placed : PlacedToken}
    {trailing atLineStart : Bool} (whole : before ++ ahead = text)
    (told : ∀ diagnostic ∈ Fragment.diagnostics (Fragment.run trailing atLineStart ahead).1
      (Text.byteSize before), diagnostic ∈ placed.diagnostics)
    {item : TriviaKind × List Char × Range}
    (member : item ∈ Fragment.texts (Fragment.run trailing atLineStart ahead).1
      (Text.byteSize before)) : Fragment.Origin text placed item := by
  obtain ⟨front, fragment, back, split, rfl⟩ := Fragment.exists_of_mem_texts member
  obtain ⟨reads, -⟩ := Fragment.next?_of_run split
  have parts := Fragment.run_append trailing atLineStart ahead
  rw [split] at told parts
  rw [← Text.byteSize_append]
  refine .read ?_ reads fun problem own => ?_
  · simpa [Fragment.textOf, ← whole] using parts
  · rw [Text.byteSize_append]
    exact told _ (Fragment.mem_diagnostics own _)

/-- A piece of trivia stands in a text where its range says, and `after` follows on it. -/
def StandsBefore (text : List Char) (item : TriviaKind × List Char × Range) (after : List Char) :
    Prop :=
  ∃ front, front ++ (item.2.1 ++ after) = text ∧
    item.2.2 = Range.ofLength (Text.byteSize front) (Text.byteSize item.2.1)

private theorem Fragment.Origin.spells {text : List Char} {placed : PlacedToken}
    {item : TriviaKind × List Char × Range} (origin : Fragment.Origin text placed item) :
    ∃ after, StandsBefore text item after ∧ item.1.Spells item.2.1 after := by
  cases origin with
  | read whole reads => exact ⟨_, ⟨_, whole, rfl⟩, Fragment.next?_spells reads⟩

/-- How trivia is attached to a token of a text that stands after the tokens `past`. -/
structure Attached (text : List Char) (past : List PlacedToken) (placed : PlacedToken) : Prop where
  /-- Each piece stands in the text where its range says, spelled as its kind is. -/
  pieces : ∃ pieces, placed.trivia? = some pieces ∧ ∀ item ∈ pieces,
    ∃ after, StandsBefore text item after ∧ item.1.Spells item.2.1 after
  /-- After a token trivia ends with the line. -/
  newline : ∀ piece ∈ placed.token.trailing.dropLast, piece.kind ≠ .newline
  inLine : ∀ piece ∈ placed.token.trailing, piece.kind ≠ .multilineComment
  /-- Within a line there is no trivia before a token. -/
  leading : placed.token.leading ≠ [] → ∀ last ∈ past.getLast?, last.token.endsLine = true
  /-- White space aside, a block comment stands at the start of a line. -/
  blocks : ∀ front block back, placed.token.leading = front ++ block :: back →
    block.kind = .multilineComment →
      ∀ last ∈ (front.filter (·.kind != .whitespace)).getLast?,
        last.kind = .newline ∨ last.kind = .multilineComment
  significant : ∃ word, placed.token.trimmed? = some word ∧
    placed.token.leadingWidth + Text.byteSize word + placed.token.trailingWidth =
      placed.token.width ∧
    (placed.kind = .eof → word = [] ∧ placed.token.trailing = []) ∧
    (placed.kind ≠ .eof → word ≠ [] ∧ Text.Significant word)

private theorem Text.Significant.of_front {word text : List Char}
    (significant : Text.Significant text)
    (front : word <+: text) : Text.Significant word where
  visible c first := by
    obtain ⟨rest, rfl⟩ := List.head?_eq_some_iff.mp first
    obtain ⟨more, rfl⟩ := front
    exact significant.visible c rfl
  notContinued dots := significant.notContinued (dots.trans front)

namespace Lexer

variable {text : List Char} {past : List PlacedToken} {lexer : Lexer} {placed : PlacedToken}

theorem pending_trivia? (lexer : Lexer) : lexer.pending.trivia? =
    some (Fragment.texts lexer.reading.leading lexer.position.offset ++
      Fragment.texts lexer.reading.trailing (lexer.position.offset + Text.byteSize
        (Fragment.textOf lexer.reading.leading ++ lexer.reading.lexeme.text))) := by
  have leading := lexer.reading.token_leadingTexts? lexer.position.offset
  have trailing := lexer.reading.token_trailingTexts? lexer.position.offset
  unfold PlacedToken.trivia?
  simp only [pending, PlacedToken.fullStart, leading, trailing]
  rfl

theorem exists_more (lexer : Lexer) : ∃ more,
    lexer.reading.lexeme.text ++ more = lexer.context.significant lexer.rest ∧
      lexer.reading.trailing = (Fragment.run true false more).1 :=
  ⟨_, lexer.entered.readLexeme_append _, rfl⟩

/-- Each piece of trivia is read off the text where its range says. -/
theorem Yielded.origin (run : Yielded text past lexer)
    {item : TriviaKind × List Char × Range} {pieces : List (TriviaKind × List Char × Range)}
    (trivia : lexer.pending.trivia? = some pieces) (member : item ∈ pieces) :
    Fragment.Origin text lexer.pending item := by
  obtain ⟨parts, offset⟩ := run.front
  rw [pending_trivia?, Option.some.injEq] at trivia
  subst trivia
  have told : lexer.reading.found lexer.position.offset = lexer.pending.diagnostics :=
    lexer.reading.found_eq _
  have leading : Fragment.textOf lexer.reading.leading ++ lexer.context.significant lexer.rest =
      lexer.rest := Fragment.leading_append _ _
  obtain ⟨more, lexeme, trailing⟩ := lexer.exists_more
  rcases List.mem_append.mp member with member | member
  · rw [offset] at member
    refine origin_of_run parts (fun diagnostic own => ?_) member
    rw [← offset] at own
    rw [← told]
    exact List.mem_append_left _ (List.mem_append_left _ own)
  · rw [offset, ← Text.byteSize_append, trailing] at member
    refine origin_of_run ?_ (fun diagnostic own => ?_) member
    · rw [List.append_assoc, List.append_assoc, lexeme, leading, parts]
    · rw [Text.byteSize_append, ← offset, Text.byteSize_append, ← Nat.add_assoc,
        ← trailing] at own
      rw [← told]
      exact List.mem_append_right _ own

/-- Trivia is attached to what a lexer is about to read. -/
theorem Yielded.attached (run : Yielded text past lexer) : Attached text past lexer.pending where
  pieces := ⟨_, lexer.pending_trivia?, fun _ member =>
    (run.origin lexer.pending_trivia? member).spells⟩
  newline := by
    obtain ⟨more, -, trailing⟩ := lexer.exists_more
    change ∀ piece ∈ (Fragment.pieces lexer.reading.trailing).dropLast, _
    rw [trailing, Fragment.pieces, ← List.map_dropLast]
    exact List.forall_mem_map.mpr (Fragment.run_trailing_dropLast more false)
  inLine := List.forall_mem_map.mpr (Fragment.run_trailing_inLine rfl rfl)
  leading some := by
    have startsLine := run.atLineStart
    cases inLine : lexer.context.atLineStart with
    | true =>
      intro last found
      rw [inLine, Option.mem_def.mp found] at startsLine
      exact startsLine.symm
    | false =>
      have none : lexer.reading.leading = [] :=
        congrArg Prod.fst (run.settled.leading_eq_nil inLine)
      exact absurd (congrArg Fragment.pieces none) some
  blocks _ _ _ := Fragment.run_blocks
  significant := by
    obtain ⟨more, lexeme, trailing⟩ := lexer.exists_more
    refine ⟨lexer.reading.lexeme.text, lexer.reading.token_trimmed?, ?_, ?_, ?_⟩
    · simp only [pending, Reading.token, Token.leadingWidth, Token.trailingWidth, Token.width,
        Reading.text, Fragment.total_pieces, Text.byteSize_append]
    · intro isEnd
      rw [(Context.read_kind_eq_eof_iff _ _).mp isEnd, List.append_eq_nil_iff] at lexeme
      obtain ⟨nothing, rfl⟩ := lexeme
      rw [Fragment.run_of_none rfl] at trailing
      exact ⟨nothing, congrArg Fragment.pieces trailing⟩
    · intro notEnd
      exact ⟨Context.read_lexeme_ne_nil notEnd,
        (Fragment.run_significant _ _).of_front ⟨more, lexeme⟩⟩

end Lexer

/-- Trivia is attached to the tokens of a text in one way. Each piece is spelled as its kind says;
after a token it ends with the line, without block comments; before a token it stands only at the
start of a line, and block comments in it each on a line of their own; and the significant part
starts with no trivia and is empty only at the end of the text. -/
theorem tokenize_attaches {text : List Char} {stream : TokenStream}
    (lexed : tokenize text = .ok stream) :
    ∀ before placed later, stream.toList = before ++ placed :: later →
      Attached text before placed := by
  intro before placed later split
  obtain ⟨lexer, run, yields⟩ := exists_yielded lexed split
  rw [Lexer.eq_pending yields]
  exact run.attached

/-- A block comment and a line before the first token, and after it a continuation and a comment. -/
theorem tokenize_attaches_block :
    ∃ stream, tokenize "\x0c%\x7b\r\na\n%\x7d \nx ... b\r\n = 1 % c\n".toList = .ok stream ∧
      stream.toList.map (fun placed =>
          (placed.token.leading.map Piece.kind, placed.token.trailing.map Piece.kind)) =
        [([.whitespace, .multilineComment, .newline],
            [.whitespace, .lineContinuation, .whitespace]),
          ([], [.whitespace]), ([], [.whitespace, .comment, .newline]), ([], [])] ∧
      ∀ before placed later, stream.toList = before ++ placed :: later →
        Attached "\x0c%\x7b\r\na\n%\x7d \nx ... b\r\n = 1 % c\n".toList before placed := by
  have ok : (tokenize
      "\x0c%\x7b\r\na\n%\x7d \nx ... b\r\n = 1 % c\n".toList).toOption.any (fun stream =>
        stream.toList.map (fun placed =>
          (placed.token.leading.map Piece.kind, placed.token.trailing.map Piece.kind)) ==
        [([.whitespace, .multilineComment, .newline],
            [.whitespace, .lineContinuation, .whitespace]),
          ([], [.whitespace]), ([], [.whitespace, .comment, .newline]), ([], [])]) = true := by
    decide +kernel
  obtain ⟨stream, lexed, kinds⟩ := exists_ok_of_any ok
  exact ⟨stream, lexed, by simpa using kinds, tokenize_attaches lexed⟩

end MatrixScript
