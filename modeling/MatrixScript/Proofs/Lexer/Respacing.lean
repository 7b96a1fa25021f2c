import Mathlib.Data.List.Forall2
import MatrixScript.Proofs.Lexer.LineEnds
import MatrixScript.Proofs.Lexer.Restart

/-!
Tokens of a text whose line breaks are written in two ways.

A text that has no carriage return of its own is cut into the same tokens with and without one in
front of each line feed: the two lexers stay in step, call by call, in contexts that differ at most
in where their open brackets stand.
-/

set_option autoImplicit false

namespace MatrixScript

open Text (crlf)

/-- Two results that are both there and stand in a relation, or that both fail for one reason. -/
inductive Concur {α β : Type} (related : α → β → Prop) :
    Except Failure α → Except Failure β → Prop
  | ok {a : α} {b : β} (holds : related a b) : Concur related (.ok a) (.ok b)
  | error {failure failure' : Failure}
    (same : failure'.diagnostic.problem = failure.diagnostic.problem) :
    Concur related (.error failure) (.error failure')

namespace Concur

variable {α β γ δ : Type} {related : α → β → Prop} {result : Except Failure α}
  {result' : Except Failure β}

theorem of_ok (concur : Concur related result result') {a : α} (found : result = .ok a) :
    ∃ b, result' = .ok b ∧ related a b := by
  subst found
  cases concur with
  | ok holds => exact ⟨_, rfl, holds⟩

theorem of_error (concur : Concur related result result') {failure : Failure}
    (fails : result = .error failure) :
    ∃ failure', result' = .error failure' ∧
      failure'.diagnostic.problem = failure.diagnostic.problem := by
  subst fails
  cases concur with
  | error same => exact ⟨_, rfl, same⟩

theorem mono (concur : Concur related result result') {related' : α → β → Prop}
    (weaker : ∀ {a b}, related a b → related' a b) : Concur related' result result' := by
  cases concur with
  | ok holds => exact .ok (weaker holds)
  | error same => exact .error same

theorem map (concur : Concur related result result') {f : α → γ} {g : β → δ}
    {related' : γ → δ → Prop} (keeps : ∀ {a b}, related a b → related' (f a) (g b)) :
    Concur related' (result.map f) (result'.map g) := by
  cases concur with
  | ok holds => exact .ok (keeps holds)
  | error same => exact .error same

end Concur

def Reading.crlf (reading : Reading) : Reading where
  leading := reading.leading.map Fragment.crlf
  lexeme := reading.lexeme.crlf
  trailing := reading.trailing.map Fragment.crlf
  rest := Text.crlf reading.rest

/-- A token and the same token with carriage returns in its line breaks. -/
structure Token.Respaced (token token' : Token) : Prop where
  kind : token'.kind = token.kind
  trimmed : token'.trimmed? = token.trimmed?
  value : token'.value = token.value
  isMissing : token'.isMissing = token.isMissing
  leading : token'.leading.map Piece.kind = token.leading.map Piece.kind
  trailing : token'.trailing.map Piece.kind = token.trailing.map Piece.kind
  problems : token'.diagnostics.map Diagnostic.problem =
    token.diagnostics.map (Problem.crlf ·.problem)

theorem Token.Respaced.endsLine {token token' : Token} (respaced : token.Respaced token') :
    token'.endsLine = token.endsLine := by
  have kinds (token : Token) :
      token.endsLine = (token.trailing.map Piece.kind).getLast?.any (· == .newline) := by
    rw [Token.endsLine, List.getLast?_map, Option.any_map]
  rw [kinds, kinds, respaced.trailing]

/-- Texts cut into the same tokens but for the line breaks in them. -/
structure TokenStream.Respaced (stream stream' : TokenStream) : Prop where
  tokens : List.Forall₂ (fun placed placed' => placed.token.Respaced placed'.token)
    stream.tokens stream'.tokens
  eof : stream.eof.token.Respaced stream'.eof.token

namespace Fragment

private theorem pieces_crlf (fragments : List Fragment) :
    (pieces (fragments.map crlf)).map Piece.kind = (pieces fragments).map Piece.kind := by
  simp [pieces, Function.comp_def]

private theorem problems_crlf (fragments : List Fragment) (offset offset' : Nat) :
    (diagnostics (fragments.map crlf) offset').map Diagnostic.problem =
      (diagnostics fragments offset).map (Problem.crlf ·.problem) := by
  induction fragments generalizing offset offset' with
  | nil => rfl
  | cons fragment rest ih =>
    have own : (crlf fragment).problem.toList = fragment.problem.toList.map Problem.crlf := by
      unfold crlf
      cases fragment.problem <;> rfl
    simp only [List.map_cons, diagnostics, List.map_append, List.map_map, own,
      ih (offset + Text.byteSize fragment.text), Function.comp_def]

end Fragment

private theorem Reading.token_crlf (reading : Reading) :
    reading.token.Respaced reading.crlf.token where
  kind := rfl
  trimmed := by rw [token_trimmed?, token_trimmed?]; rfl
  value := rfl
  isMissing := rfl
  leading := Fragment.pieces_crlf reading.leading
  trailing := Fragment.pieces_crlf reading.trailing
  problems := by
    have own : reading.lexeme.crlf.problem.toList.map Diagnostic.problem =
        reading.lexeme.problem.toList.map (Problem.crlf ·.problem) := by
      unfold Lexeme.crlf
      cases reading.lexeme.problem <;> rfl
    simp only [token, diagnostics, found, List.map_append, List.map_map]
    refine congrArg₂ (· ++ ·) (congrArg₂ (· ++ ·) ?_ own) ?_
    · exact Fragment.problems_crlf reading.leading 0 0
    · exact Fragment.problems_crlf reading.trailing _ _

namespace Context

private theorem readLexeme_crlf (context : Context) {text : List Char}
    (other : text.head? ≠ some '\n') :
    context.readLexeme (Text.crlf text) =
      ((context.readLexeme text).1.crlf, Text.crlf (context.readLexeme text).2) := by
  have word : context.expectsBareWord (Text.crlf text) = context.expectsBareWord text := by
    unfold expectsBareWord
    split
    · rfl
    · rw [Lexeme.startsBareWord_crlf]
    · exact Text.any_head?_crlf (by decide) text
  unfold readLexeme
  rw [word]
  split
  · exact Lexeme.readBareWord_crlf text
  · exact Lexeme.read_crlf _ other

private theorem afterLeading_crlf (context : Context) (leading : List Fragment) :
    context.afterLeading (leading.map Fragment.crlf) = context.afterLeading leading := by
  simp [afterLeading, Function.comp_def]

private theorem read_crlf (context : Context) {text : List Char} (plain : '\r' ∉ text) :
    context.read (Text.crlf text) = (context.read text).crlf := by
  have leading := @Fragment.run_crlf false context.atLineStart text plain
  let front := Fragment.leading context.atLineStart text
  have parts : Fragment.textOf front.1 ++ front.2 = text :=
    Fragment.leading_append context.atLineStart text
  have other : front.2.head? ≠ some '\n' := by
    intro feed
    obtain ⟨rest, back⟩ := List.head?_eq_some_iff.mp feed
    exact absurd (Fragment.run_rest back).2 (by decide)
  have lexeme := (context.afterLeading front.1).readLexeme_crlf other
  have lexemeParts := (context.afterLeading front.1).readLexeme_append front.2
  have later : '\r' ∉ ((context.afterLeading front.1).readLexeme front.2).2 := by
    intro inside
    refine plain ?_
    rw [← parts, ← lexemeParts]
    exact List.mem_append_right _ (List.mem_append_right _ inside)
  have trailing := @Fragment.run_crlf true false _ later
  simp only [front, Fragment.leading] at lexeme
  simp only [front, Fragment.leading] at trailing
  simp only [read, Fragment.leading, Fragment.trailing, leading, afterLeading_crlf, lexeme,
    trailing, Reading.crlf]

/-- Contexts that differ in no more than the places of their open brackets. -/
def Alike (context context' : Context) : Prop :=
  ∃ brackets, context' = { context with brackets := brackets } ∧
    brackets.map Prod.fst = context.brackets.map Prod.fst

namespace Alike

variable {context context' : Context}

private theorem refl (context : Context) : context.Alike context := ⟨context.brackets, rfl, rfl⟩

private theorem brackets (alike : context.Alike context') :
    context'.brackets.map Prod.fst = context.brackets.map Prod.fst := by
  obtain ⟨brackets, rfl, kinds⟩ := alike
  exact kinds

private theorem afterLeading (alike : context.Alike context') (leading : List Fragment) :
    (context.afterLeading leading).Alike (context'.afterLeading leading) := by
  obtain ⟨brackets, rfl, kinds⟩ := alike
  unfold Context.afterLeading
  split <;> exact ⟨brackets, rfl, kinds⟩

/-- Reading does not hang on the places of the brackets. -/
theorem read (alike : context.Alike context') (text : List Char) :
    context'.read text = context.read text := by
  have lexeme {entered entered' : Context} (alike : entered.Alike entered') (text : List Char) :
      entered'.readLexeme text = entered.readLexeme text := by
    obtain ⟨brackets, rfl, kinds⟩ := alike
    have empty : brackets.isEmpty = entered.brackets.isEmpty := by
      rw [← List.isEmpty_map, kinds, List.isEmpty_map]
    simp only [readLexeme, expectsBareWord, empty]
    rfl
  have entered := alike.afterLeading (Fragment.leading context.atLineStart text).1
  obtain ⟨brackets, rfl, kinds⟩ := alike
  simp only [Context.read]
  rw [lexeme entered]

private theorem afterToken (alike : context.Alike context') (reading : Reading) :
    (context.afterToken reading).Alike (context'.afterToken reading.crlf) := by
  obtain ⟨brackets, rfl, kinds⟩ := alike
  have empty : brackets.isEmpty = context.brackets.isEmpty := by
    rw [← List.isEmpty_map, kinds, List.isEmpty_map]
  have spaced : reading.crlf.isSpacedName = reading.isSpacedName := by
    simp [Reading.isSpacedName, Reading.crlf, Lexeme.crlf, Function.comp_def]
  have endsLine : reading.crlf.endsLine = reading.endsLine := reading.token_crlf.endsLine
  have kind : reading.crlf.lexeme.kind = reading.lexeme.kind := rfl
  have trailing : reading.crlf.trailing.isEmpty = reading.trailing.isEmpty := List.isEmpty_map
  simp only [Context.afterToken, commandAfter, kind, spaced, endsLine, trailing, empty]
  split <;> exact ⟨brackets, rfl, kinds⟩

end Alike

private theorem matchBracket_concur {brackets brackets' : List (Kind × Range)}
    (kinds : brackets'.map Prod.fst = brackets.map Prod.fst) (kind : Kind) (range range' : Range) :
    Concur (fun after after' => after'.map Prod.fst = after.map Prod.fst)
      (matchBracket brackets kind range) (matchBracket brackets' kind range') := by
  unfold matchBracket
  by_cases opening : kind.isOpening
  · rw [if_pos opening, if_pos opening]
    exact .ok (by simp [kinds])
  rw [if_neg opening, if_neg opening]
  by_cases closing : kind.isClosing
  · rw [if_pos closing, if_pos closing]
    match brackets, brackets', kinds with
    | [], [], _ => exact .error rfl
    | (innermost, place) :: outer, (innermost', place') :: outer', kinds =>
      obtain ⟨rfl, outerKinds⟩ := List.cons.inj kinds
      by_cases partner : innermost'.closing? = some kind
      · simp only [partner, if_true]
        exact .ok outerKinds
      · simp only [partner, if_false]
        exact .error rfl
  rw [if_neg closing, if_neg closing]
  by_cases isEnd : kind = .eof
  · rw [if_pos isEnd, if_pos isEnd]
    match brackets, brackets', kinds with
    | [], [], _ => exact .ok rfl
    | (innermost, place) :: outer, (innermost', place') :: outer', kinds =>
      obtain ⟨rfl, -⟩ := List.cons.inj kinds
      exact .error rfl
  · rw [if_neg isEnd, if_neg isEnd]
    exact .ok kinds

end Context

namespace Lexer

/-- Two lexers before the same text, the second of which sees carriage returns in its line
breaks. -/
structure InStep (lexer lexer' : Lexer) : Prop where
  rest : lexer'.rest = Text.crlf lexer.rest
  plain : '\r' ∉ lexer.rest
  context : lexer.context.Alike lexer'.context

namespace InStep

variable {lexer lexer' : Lexer}

private theorem reading (step : lexer.InStep lexer') : lexer'.reading = lexer.reading.crlf := by
  rw [Lexer.reading, Lexer.reading, step.rest, step.context.read, Context.read_crlf _ step.plain]

/-- A call of both lexers fails for the same reason, or yields the same token and keeps step. -/
theorem next (step : lexer.InStep lexer') :
    Concur (fun placed placed' => placed.token.Respaced placed'.token ∧
      lexer.next.2.InStep lexer'.next.2) lexer.next.1 lexer'.next.1 := by
  have reading := step.reading
  have token := lexer.reading.token_crlf
  have entered : lexer.entered.Alike lexer'.entered := by
    have newlines := lexer.context.afterLeading_crlf lexer.reading.leading
    have alike := step.context.afterLeading lexer.reading.crlf.leading
    rw [Reading.crlf, newlines] at alike
    rw [Lexer.entered, Lexer.entered, reading]
    exact alike
  have brackets : Concur (fun after after' => after'.map Prod.fst = after.map Prod.fst)
      lexer.bracketsAfter lexer'.bracketsAfter := by
    rw [Lexer.bracketsAfter, Lexer.bracketsAfter, reading, token.kind]
    exact Context.matchBracket_concur entered.brackets _ _ _
  have plain : '\r' ∉ lexer.reading.rest := by
    intro inside
    refine step.plain ?_
    rw [← lexer.context.read_append lexer.rest]
    exact List.mem_append_right _ inside
  rw [next_eq, next_eq]
  cases found : lexer.bracketsAfter with
  | ok after =>
    obtain ⟨after', found', kinds⟩ := brackets.of_ok found
    have later : Context.Alike { lexer.entered with brackets := after }
        { lexer'.entered with brackets := after' } := by
      obtain ⟨_, whole, -⟩ := entered
      exact ⟨after', by rw [whole], kinds⟩
    rw [found', reading]
    exact .ok ⟨token, rfl, plain, later.afterToken lexer.reading⟩
  | error failure =>
    obtain ⟨failure', fails', same⟩ := brackets.of_error found
    rw [fails']
    exact .error same

/-- Lexers in step cut the same tokens, or fail for the same reason. -/
theorem tokens (step : lexer.InStep lexer') :
    Concur TokenStream.Respaced lexer.tokens lexer'.tokens := by
  fun_induction Lexer.tokens lexer generalizing lexer'
  case case1 lexer failure fails =>
    obtain ⟨failure', fails', same⟩ := step.next.of_error fails
    rw [tokens_of_error fails']
    exact .error same
  case case2 lexer placed yields isEnd =>
    obtain ⟨placed', yields', respaced, -⟩ := step.next.of_ok yields
    have isEnd' : placed'.kind = .eof := respaced.kind.trans isEnd
    rw [tokens_of_ok yields', if_pos isEnd']
    exact .ok ⟨.nil, respaced⟩
  case case3 lexer placed yields notEnd ih =>
    obtain ⟨placed', yields', respaced, later⟩ := step.next.of_ok yields
    have notEnd' : placed'.kind ≠ .eof := fun isEnd => notEnd (respaced.kind.symm.trans isEnd)
    rw [tokens_of_ok yields', if_neg notEnd']
    exact (ih later).map fun rest => ⟨.cons respaced rest.tokens, rest.eof⟩

end InStep

end Lexer

/-- A text without carriage returns is cut into the same tokens with either kind of line break. -/
theorem tokenize_respaced {text : List Char} (plain : '\r' ∉ text) :
    Concur TokenStream.Respaced (tokenize text) (tokenize (crlf text)) :=
  Lexer.InStep.tokens ⟨rfl, plain, .refl _⟩

end MatrixScript
