import MatrixScript.Proofs.Lexer.Brackets
import MatrixScript.Proofs.Lexer.Problems

/-!
What a lexer knows of the tokens that it has yielded.

`Lexer.Yielded` follows the calls of a lexer that only yield tokens; every token of a text that can
be cut into tokens is yielded after those before it. Between two tokens a lexer is `Settled`: where
a line starts so does a statement, and elsewhere no trivia is left to read. So trivia before a token
never changes what is known of the text before it.
-/

set_option autoImplicit false

namespace MatrixScript

namespace Fragment

private theorem run_trailing_ends {trailing atLineStart : Bool} {text : List Char}
    (after : trailing = true) (inLine : atLineStart = false) :
    (run trailing atLineStart text).1.getLast?.any (·.kind == .newline) = true ∨
      next? false (run trailing atLineStart text).2 = none := by
  fun_induction run trailing atLineStart text with
  | case1 atLineStart text nothing =>
    subst inLine
    exact Or.inr nothing
  | case2 _ _ fragment rest found stops =>
    refine Or.inl ?_
    rw [Bool.and_eq_true] at stops
    exact stops.2
  | case3 _ _ fragment rest found goesOn fragments later split ih =>
    subst after inLine
    rw [split] at ih
    rcases ih (next?_startsLine found (by simpa using goesOn)) with newline | nothing
    · refine Or.inl ?_
      cases fragments with
      | nil => cases newline
      | cons first others => simpa using newline
    · exact Or.inr nothing

end Fragment

namespace Context

private theorem atLineStart_afterToken (context : Context) (reading : Reading) :
    (context.afterToken reading).atLineStart = reading.endsLine := by
  simp only [afterToken]
  split <;> rfl

private theorem afterToken_of_endsLine (context : Context) {reading : Reading}
    (endsLine : reading.endsLine = true) :
    (context.afterToken reading).atStatementStart = true ∧
      (context.afterToken reading).command = .none := by
  simp only [afterToken, endsLine, Bool.true_or, if_true]
  exact ⟨rfl, rfl⟩

end Context

namespace Lexer

variable {text : List Char} {past : List PlacedToken} {lexer : Lexer} {placed : PlacedToken}

/-- What a lexer is about to read, as a token, whether it goes with the brackets or not. -/
def pending (lexer : Lexer) : PlacedToken := ⟨lexer.reading.token, lexer.position⟩

theorem pending_kind (lexer : Lexer) : lexer.pending.kind = lexer.reading.lexeme.kind := rfl

theorem eq_pending (yields : lexer.next.1 = .ok placed) : placed = lexer.pending :=
  next_eq_ok yields

theorem next_context (yields : lexer.next.1 = .ok placed) :
    ∃ brackets, lexer.bracketsAfter = .ok brackets ∧
      lexer.next.2.context =
        { lexer.entered with brackets := brackets }.afterToken lexer.reading := by
  rw [next_eq] at yields ⊢
  cases found : lexer.bracketsAfter with
  | error failure => simp [found] at yields
  | ok brackets => exact ⟨brackets, rfl, rfl⟩

/-- A lexer that has yielded `past` since the start of its text, and has never failed. -/
inductive Yielded (text : List Char) : List PlacedToken → Lexer → Prop
  | start : Yielded text [] (start text)
  | next {past : List PlacedToken} {lexer : Lexer} {placed : PlacedToken} :
    Yielded text past lexer → lexer.next.1 = .ok placed →
      Yielded text (past ++ [placed]) lexer.next.2

/-- What calls yield that all yield a token. -/
theorem Yielded.steps (run : Yielded text past lexer) {count : Nat} {more : List PlacedToken}
    (calls : lexer.steps count = more.map .ok) :
    Yielded text (past ++ more) (lexer.after count) := by
  induction count generalizing past lexer more with
  | zero =>
    have none : more = [] := List.map_eq_nil_iff.mp calls.symm
    rw [none, List.append_nil]
    exact run
  | succ count ih =>
    obtain ⟨placed, later, rfl, yields, rest⟩ := List.map_eq_cons_iff.mp calls.symm
    have whole := ih (run.next yields.symm) rest.symm
    rwa [List.append_assoc] at whole

theorem Yielded.exists_of_append {front back : List PlacedToken}
    (run : Yielded text (front ++ placed :: back) lexer) :
    ∃ source, Yielded text front source ∧ source.next.1 = .ok placed := by
  generalize whole : front ++ placed :: back = past at run
  induction run generalizing back with
  | start => simp at whole
  | @next past source last before yields ih =>
    rcases List.eq_nil_or_concat back with rfl | ⟨back, final, rfl⟩
    · obtain ⟨rfl, same⟩ := List.append_inj' whole rfl
      obtain rfl : placed = last := by simpa using same
      exact ⟨source, before, yields⟩
    · rw [List.concat_eq_append, ← List.cons_append, ← List.append_assoc] at whole
      exact ih (List.append_inj' whole rfl).1

private theorem Yielded.exists_of_tokens (run : Yielded text past lexer) {stream : TokenStream}
    (ok : lexer.tokens = .ok stream) {before later : List PlacedToken}
    (split : stream.toList = before ++ placed :: later) :
    ∃ source, Yielded text (past ++ before) source ∧ source.next.1 = .ok placed := by
  fun_induction Lexer.tokens lexer generalizing past before stream with
  | case1 => simp at ok
  | case2 lexer last yields isEnd =>
    simp only [Except.ok.injEq] at ok
    subst ok
    change [last] = before ++ placed :: later at split
    cases before with
    | nil =>
      obtain ⟨rfl, -⟩ := List.cons.inj split
      exact ⟨lexer, by simpa using run, yields⟩
    | cons head before => simp at split
  | case3 lexer first yields notEnd ih =>
    cases rest : lexer.next.2.tokens with
    | error failure => simp [rest, Except.map] at ok
    | ok stream' =>
      simp only [rest, Except.map, Except.ok.injEq] at ok
      subst ok
      change first :: stream'.toList = before ++ placed :: later at split
      cases before with
      | nil =>
        obtain ⟨rfl, -⟩ := List.cons.inj split
        exact ⟨lexer, by simpa using run, yields⟩
      | cons head before =>
        obtain ⟨rfl, rest'⟩ := List.cons.inj split
        obtain ⟨source, found, yields'⟩ := ih (run.next yields) rest rest'
        exact ⟨source, by simpa using found, yields'⟩

end Lexer

/-- Each token of a text is yielded after those before it. -/
theorem exists_yielded {text : List Char} {stream : TokenStream}
    (lexed : tokenize text = .ok stream) {before later : List PlacedToken} {placed : PlacedToken}
    (split : stream.toList = before ++ placed :: later) :
    ∃ lexer, Lexer.Yielded text before lexer ∧ lexer.next.1 = .ok placed :=
  Lexer.Yielded.start.exists_of_tokens lexed split

namespace Lexer

variable {text : List Char} {past : List PlacedToken} {lexer : Lexer} {placed : PlacedToken}

/-- The tokens that were yielded and the text that is left make up the text. -/
theorem Yielded.front (run : Yielded text past lexer) :
    past.flatMap (·.token.text) ++ lexer.rest = text ∧
      lexer.position.offset = Text.byteSize (past.flatMap (·.token.text)) := by
  induction run with
  | start => exact ⟨rfl, rfl⟩
  | @next past lexer placed before yields ih =>
    have parts := lexer.taken_append
    rw [taken_eq] at parts
    have token : placed.token.text = lexer.reading.text := by rw [eq_pending yields]; rfl
    rw [List.flatMap_append, List.flatMap_singleton, token]
    refine ⟨?_, ?_⟩
    · rw [List.append_assoc, parts, ih.1]
    · rw [next_position, Position.offset_advance, Text.byteSize_append, ih.2]

/-- A token ends where the texts of the tokens up to it do. -/
theorem Yielded.byteSize_concat (run : Yielded text past lexer)
    (yields : lexer.next.1 = .ok placed) :
    Text.byteSize ((past ++ [placed]).flatMap (·.token.text)) = placed.fullRange.stop := by
  obtain rfl := eq_pending yields
  rw [List.flatMap_append, Text.byteSize_append, ← run.front.2, List.flatMap_singleton]
  rfl

/-- A line starts where none is before, or where a token has ended its line. -/
theorem Yielded.atLineStart (run : Yielded text past lexer) :
    lexer.context.atLineStart = past.getLast?.all (·.token.endsLine) := by
  cases run with
  | start => rfl
  | @next past lexer placed before yields =>
    obtain ⟨brackets, -, same⟩ := next_context yields
    rw [same, Context.atLineStart_afterToken, List.getLast?_concat, eq_pending yields]
    rfl

/-- A lexer between two tokens. -/
structure Settled (lexer : Lexer) : Prop where
  /-- Where a line starts, a statement starts and no command goes on. -/
  fresh : lexer.context.atLineStart = true →
    lexer.context.atStatementStart = true ∧ lexer.context.command = .none
  /-- Within a line all trivia was read with the token before. -/
  bare : lexer.context.atLineStart = false → Fragment.next? false lexer.rest = none

private theorem start_settled (text : List Char) : (start text).Settled where
  fresh _ := ⟨rfl, rfl⟩
  bare inLine := nomatch inLine

theorem Settled.next (yields : lexer.next.1 = .ok placed) : lexer.next.2.Settled := by
  obtain ⟨brackets, -, same⟩ := next_context yields
  constructor
  · intro startsLine
    rw [same, Context.atLineStart_afterToken] at startsLine
    rw [same]
    exact Context.afterToken_of_endsLine _ startsLine
  · intro inLine
    rw [same, Context.atLineStart_afterToken, reading, Context.endsLine_read] at inLine
    rw [next_rest]
    refine (Fragment.run_trailing_ends rfl rfl).resolve_left fun newline => ?_
    rw [← Bool.not_eq_true] at inLine
    exact inLine newline

theorem Yielded.settled (run : Yielded text past lexer) : lexer.Settled := by
  cases run with
  | start => exact start_settled text
  | next before yields => exact Settled.next yields

theorem Settled.leading_eq_nil (settled : lexer.Settled)
    (inLine : lexer.context.atLineStart = false) :
    Fragment.leading lexer.context.atLineStart lexer.rest = ([], lexer.rest) := by
  rw [inLine]
  exact Fragment.run_of_none (settled.bare inLine)

theorem Settled.entered (settled : lexer.Settled) : lexer.entered = lexer.context := by
  cases startsLine : lexer.context.atLineStart with
  | true =>
    obtain ⟨statement, command⟩ := settled.fresh startsLine
    unfold Lexer.entered Context.afterLeading Context.endStatement
    split
    · rw [← statement, ← command]
    · rfl
  | false =>
    have none : lexer.reading.leading = [] := congrArg Prod.fst (settled.leading_eq_nil startsLine)
    rw [Lexer.entered, none]
    rfl

end Lexer

end MatrixScript
