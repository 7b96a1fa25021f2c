import MatrixScript.Proofs.Lexer.Trivia

/-!
How far comments go.

A comment goes to the end of its line, and a block comment to the end of the first line that closes
it, or else to the end of the text, with a problem. Lines end at a line feed, alone or behind a
carriage return. A carriage return by itself is white space, but it ends a comment all the same, and
block comments look for their closing line behind it: comments go as far as their lines where no
carriage return stands by itself.
-/

set_option autoImplicit false

namespace MatrixScript

namespace Text

variable {c d : Char} {follows : List Char → Prop} {text : List Char}

/-- What stands after each `c` in a text is as `follows` says. -/
def EachFollowed (c : Char) (follows : List Char → Prop) (text : List Char) : Prop :=
  ∀ before rest, text = before ++ c :: rest → follows rest

private theorem eachFollowed_nil : EachFollowed c follows [] := by
  intro before rest split
  simp at split

private theorem eachFollowed_cons :
    EachFollowed c follows (d :: text) ↔ (d = c → follows text) ∧ EachFollowed c follows text := by
  constructor
  · refine fun all => ⟨?_, fun before rest split => all (d :: before) rest (by simp [split])⟩
    rintro rfl
    exact all [] text rfl
  · rintro ⟨first, later⟩ before rest split
    cases before with
    | nil =>
      obtain ⟨rfl, rfl⟩ := List.cons.inj split
      exact first rfl
    | cons head before => exact later before rest (List.cons.inj split).2

private theorem eachFollowed_cons_of_ne (other : d ≠ c) :
    EachFollowed c follows (d :: text) ↔ EachFollowed c follows text := by
  rw [eachFollowed_cons, and_iff_right fun same => absurd same other]

private theorem EachFollowed.of_suffix {back : List Char} (all : EachFollowed c follows text)
    (suffix : back <:+ text) : EachFollowed c follows back := by
  rintro before rest rfl
  obtain ⟨front, rfl⟩ := suffix
  exact all (front ++ before) rest (by simp)

instance instDecidableEachFollowed [DecidablePred follows] :
    (text : List Char) → Decidable (EachFollowed c follows text)
  | [] => isTrue eachFollowed_nil
  | _ :: text =>
    have := instDecidableEachFollowed text
    decidable_of_iff _ eachFollowed_cons.symm

def Paired (text : List Char) : Prop := EachFollowed '\r' (·.head? = some '\n') text

instance (text : List Char) : Decidable (Paired text) :=
  inferInstanceAs (Decidable (EachFollowed _ _ text))

def NeverCloses (text : List Char) : Prop :=
  EachFollowed '\n' (fun rest => trim (firstLine rest) ≠ ['%', '}']) text

def AtLineEnd (text : List Char) : Prop :=
  text = [] ∨ ['\n'] <+: text ∨ ['\r', '\n'] <+: text

private theorem firstLine_append_lineFeed (front back : List Char) :
    firstLine (front ++ '\n' :: back) = firstLine front := by
  unfold firstLine
  induction front with
  | nil => rfl
  | cons c front ih => simp [List.takeWhile_cons, ih]

end Text

open Text (Paired NeverCloses AtLineEnd)

namespace Fragment

variable {text : List Char}

/-- A block comment that ends, where `after` follows on it, with the first line that closes it. -/
inductive ClosedBlock : List Char → List Char → Prop
  | intro {front line after : List Char} : NeverCloses front → '\n' ∉ line →
    Text.trim (Text.firstLine (line ++ after)) = ['%', '}'] → AtLineEnd after →
    ClosedBlock (front ++ '\n' :: line) after

private theorem atLineEnd_afterLine (paired : Paired text) : AtLineEnd (afterLine text) := by
  cases ahead : afterLine text with
  | nil => exact Or.inl rfl
  | cons c rest =>
    have lineEnd : isLineEnd c = true :=
      isLineEnd_of_head?_afterLine text (by simp [ahead])
    rcases (by simpa [isLineEnd] using lineEnd : c = '\n' ∨ c = '\r') with rfl | rfl
    · exact Or.inr (Or.inl ⟨rest, rfl⟩)
    · have suffix : '\r' :: rest <:+ text := ahead ▸ List.dropWhile_suffix _
      obtain ⟨later, rfl⟩ := List.head?_eq_some_iff.mp
        ((Text.eachFollowed_cons.mp (paired.of_suffix suffix)).1 rfl)
      exact Or.inr (Or.inr ⟨later, rfl⟩)

private theorem not_closes {rest : List Char} (stays : ¬closesBlock rest = true) :
    Text.trim (Text.firstLine rest) ≠ ['%', '}'] := by
  simpa [closesBlock] using stays

private theorem blockComment_neverCloses (unclosed : (blockComment text).2.2 = false) :
    NeverCloses text := by
  fun_induction blockComment text with
  | case1 => exact Text.eachFollowed_nil
  | case2 => cases unclosed
  | case3 rest stays comment after closed split ih =>
    rw [split] at ih
    exact (Text.eachFollowed_cons_of_ne (by decide)).mpr
      (Text.eachFollowed_cons.mpr ⟨fun _ => not_closes stays, ih unclosed⟩)
  | case4 => cases unclosed
  | case5 c rest _ stays comment after closed split ih =>
    rw [split] at ih
    refine Text.eachFollowed_cons.mpr ⟨?_, ih unclosed⟩
    rintro rfl
    exact not_closes (by simpa [isLineEnd] using stays)

private theorem closedBlock_line {rest : List Char} (paired : Paired rest)
    (closes : closesBlock rest = true) :
    ClosedBlock ('\n' :: line rest) (afterLine rest) := by
  rw [← List.nil_append ('\n' :: line rest)]
  refine .intro Text.eachFollowed_nil (fun feed => ?_) ?_ (atLineEnd_afterLine paired)
  · have plain := isLineEnd_of_mem_line feed
    cases plain
  · rw [line_append_afterLine]
    simpa [closesBlock] using closes

private theorem ClosedBlock.cons {c : Char} {comment after : List Char}
    (closed : ClosedBlock comment after)
    (stays : c = '\n' → Text.trim (Text.firstLine (comment ++ after)) ≠ ['%', '}']) :
    ClosedBlock (c :: comment) after := by
  obtain ⟨never, inLine, closes, ends⟩ := closed
  rw [List.append_assoc, List.cons_append, Text.firstLine_append_lineFeed] at stays
  exact .intro (Text.eachFollowed_cons.mpr ⟨stays, never⟩) inLine closes ends

private theorem ClosedBlock.cons_of_ne {c : Char} {comment after : List Char}
    (closed : ClosedBlock comment after) (other : c ≠ '\n') : ClosedBlock (c :: comment) after :=
  closed.cons fun same => absurd same other

private theorem blockComment_closedBlock (paired : Paired text)
    (closed : (blockComment text).2.2 = true) :
    ClosedBlock (blockComment text).1 (blockComment text).2.1 := by
  fun_induction blockComment text with
  | case1 => cases closed
  | case2 rest closes =>
    have later := (Text.eachFollowed_cons.mp paired).2
    exact (closedBlock_line (Text.eachFollowed_cons.mp later).2 closes).cons_of_ne (by decide)
  | case3 rest stays comment after isClosed split ih =>
    have later := (Text.eachFollowed_cons.mp (Text.eachFollowed_cons.mp paired).2).2
    have parts := blockComment_append rest
    rw [split] at ih parts
    refine ((ih later closed).cons fun _ => ?_).cons_of_ne (by decide)
    rw [parts]
    exact not_closes stays
  | case4 c rest other closes =>
    rw [Bool.and_eq_true] at closes
    obtain ⟨breaks, later⟩ := Text.eachFollowed_cons.mp paired
    rcases (by simpa [isLineEnd] using closes.1 : c = '\n' ∨ c = '\r') with rfl | rfl
    · exact closedBlock_line later closes.2
    · obtain ⟨more, rfl⟩ := List.head?_eq_some_iff.mp (breaks rfl)
      exact absurd rfl (other more rfl)
  | case5 c rest _ stays comment after isClosed split ih =>
    have parts := blockComment_append rest
    rw [split] at ih parts
    refine (ih (Text.eachFollowed_cons.mp paired).2 closed).cons ?_
    rintro rfl
    rw [parts]
    exact not_closes (by simpa [isLineEnd] using stays)

variable {atLineStart : Bool} {rest : List Char} {fragment : Fragment}

private theorem next?_comment (paired : Paired text)
    (found : next? atLineStart text = some (fragment, rest)) (comment : fragment.kind = .comment) :
    AtLineEnd rest := by
  revert found
  fun_cases next? atLineStart text
  all_goals
    intro found
    simp only [Option.some.injEq, Prod.mk.injEq, reduceCtorEq] at found
  all_goals obtain ⟨rfl, rfl⟩ := found
  case case5 => exact atLineEnd_afterLine (Text.eachFollowed_cons.mp paired).2
  all_goals cases comment

private theorem next?_block (paired : Paired text)
    (found : next? atLineStart text = some (fragment, rest))
    (block : fragment.kind = .multilineComment) :
    ClosedBlock fragment.text rest ∨
      rest = [] ∧ NeverCloses fragment.text ∧ fragment.problem = some .unexpectedEndOfFile := by
  revert found
  fun_cases next? atLineStart text
  all_goals
    intro found
    simp only [Option.some.injEq, Prod.mk.injEq, reduceCtorEq] at found
  all_goals obtain ⟨rfl, rfl⟩ := found
  case case4 text _ comment after closed split _ =>
    have never : (blockComment text).2.2 = false → NeverCloses text := blockComment_neverCloses
    have ended := blockComment_unclosed text
    have closedBlock := blockComment_closedBlock (Text.eachFollowed_cons.mp paired).2
    have parts := blockComment_append text
    rw [split] at never ended closedBlock parts
    cases closed with
    | true => exact Or.inl ((closedBlock rfl).cons_of_ne (by decide))
    | false =>
      obtain rfl : after = [] := ended rfl
      rw [List.append_nil] at parts
      refine Or.inr ⟨rfl, (Text.eachFollowed_cons_of_ne (by decide)).mpr ?_, rfl⟩
      rw [show comment = text from parts]
      exact never rfl
  all_goals cases block

end Fragment

/-- How far a piece of trivia of a token goes, where `after` follows on it. -/
structure Reaches (placed : PlacedToken) (item : TriviaKind × List Char × Range)
    (after : List Char) : Prop where
  comment : item.1 = .comment → AtLineEnd after
  /-- A block comment ends with the first line that closes it, or with the text and a problem. -/
  block : item.1 = .multilineComment → Fragment.ClosedBlock item.2.1 after ∨
    after = [] ∧ NeverCloses item.2.1 ∧ ⟨.unexpectedEndOfFile, item.2.2⟩ ∈ placed.diagnostics

/-- Each piece of trivia of the tokens stands in a text where its range says, and comments go as far
as their lines do. -/
def TokenStream.CommentsReach (stream : TokenStream) (text : List Char) : Prop :=
  ∀ placed ∈ stream.toList, ∃ pieces, placed.trivia? = some pieces ∧ ∀ item ∈ pieces,
    ∃ after, StandsBefore text item after ∧ Reaches placed item after

private theorem Fragment.Origin.reaches {text : List Char} (paired : Paired text)
    {placed : PlacedToken}
    {item : TriviaKind × List Char × Range} (origin : Fragment.Origin text placed item) :
    ∃ after, StandsBefore text item after ∧ Reaches placed item after := by
  cases origin with
  | @read fragment front after atLineStart whole reads told =>
    have here := paired.of_suffix ⟨front, whole⟩
    refine ⟨after, ⟨front, whole, rfl⟩, ?_, ?_⟩
    · exact Fragment.next?_comment here reads
    · intro block
      refine (Fragment.next?_block here reads block).imp_right ?_
      exact fun ⟨ended, never, problem⟩ => ⟨ended, never, told _ problem⟩

/-- Where no carriage return stands by itself, each comment goes to the end of its line, and each
block comment to the end of the first line that closes it, or else to the end of the text, with a
problem. -/
theorem tokenize_comments {text : List Char} {stream : TokenStream} (paired : Paired text)
    (lexed : tokenize text = .ok stream) : stream.CommentsReach text := by
  intro placed member
  obtain ⟨before, later, split⟩ := List.append_of_mem member
  obtain ⟨lexer, run, yields⟩ := exists_yielded lexed split
  rw [Lexer.eq_pending yields]
  exact ⟨_, lexer.pending_trivia?, fun item found =>
    (run.origin lexer.pending_trivia? found).reaches paired⟩

/-- A block comment that is closed, a comment, and a block comment that is open. -/
theorem tokenize_comments_blocks :
    Paired "%\x7b\r\n%\r\n %\x7d\t\r\nx % a\r\n%\x7b\n%".toList ∧
      ∃ stream, tokenize "%\x7b\r\n%\r\n %\x7d\t\r\nx % a\r\n%\x7b\n%".toList = .ok stream ∧
        stream.diagnostics = [⟨.unexpectedEndOfFile, ⟨20, 24⟩⟩] ∧
        stream.CommentsReach "%\x7b\r\n%\r\n %\x7d\t\r\nx % a\r\n%\x7b\n%".toList := by
  have paired : Paired "%\x7b\r\n%\r\n %\x7d\t\r\nx % a\r\n%\x7b\n%".toList := by
    decide +kernel
  have ok : (tokenize "%\x7b\r\n%\r\n %\x7d\t\r\nx % a\r\n%\x7b\n%".toList).toOption.any
      (·.diagnostics == [⟨.unexpectedEndOfFile, ⟨20, 24⟩⟩]) = true := by decide +kernel
  obtain ⟨stream, lexed, diagnostics⟩ := exists_ok_of_any ok
  exact ⟨paired, stream, lexed, by simpa using diagnostics, tokenize_comments paired lexed⟩

/-- A carriage return by itself ends a comment, though it ends no line. -/
theorem comments_end_early :
    ∃ stream, tokenize "%a\rb".toList = .ok stream ∧ ¬stream.CommentsReach "%a\rb".toList := by
  have ok : (tokenize "%a\rb".toList).toOption.any (fun stream => stream.toList.any fun placed =>
      placed.trivia?.any (·.contains (.comment, "%a".toList, ⟨0, 2⟩))) = true := by decide +kernel
  obtain ⟨stream, lexed, found⟩ := exists_ok_of_any ok
  refine ⟨stream, lexed, fun reach => ?_⟩
  obtain ⟨placed, member, found⟩ := List.any_eq_true.mp found
  obtain ⟨pieces, trivia, reaches⟩ := reach placed member
  rw [trivia, Option.any_some, List.contains_iff_mem] at found
  obtain ⟨after, ⟨front, whole, -⟩, reaches⟩ := reaches _ found
  have split : front ++ '%' :: 'a' :: after = ['%', 'a', '\r', 'b'] := whole
  obtain rfl : front = [] := by
    cases front with
    | nil => rfl
    | cons c front =>
      have later : front ++ '%' :: 'a' :: after = ['a', '\r', 'b'] := (List.cons.inj split).2
      have percent : '%' ∈ ['a', '\r', 'b'] := later ▸ by simp
      exact absurd percent (by decide)
  obtain rfl : after = ['\r', 'b'] := by simpa using split
  exact absurd (reaches.comment rfl) (by unfold AtLineEnd; decide)

end MatrixScript
