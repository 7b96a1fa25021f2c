import MatrixScript.Proofs.Lexer.Restart

/-!
What problems the tokens of a text have.

A bad token has one problem, the symbol it is made of, and no other token has a problem of that
sort. The tokens stand one after the other, and every problem lies inside the text.
-/

set_option autoImplicit false

namespace MatrixScript

def Problem.isLexical : Problem → Bool
  | .unexpectedEndOfFile | .unexpectedCharacterInNumber _ | .unterminatedStringLiteral => true
  | _ => false

namespace Fragment

theorem blockComment_unclosed (text : List Char) :
    (blockComment text).2.2 = false → (blockComment text).2.1 = [] := by
  fun_induction blockComment text <;> simp_all

private theorem next?_problem {atLineStart : Bool} {text rest : List Char} {fragment : Fragment}
    (found : next? atLineStart text = some (fragment, rest)) :
    fragment.problem = none ∨ atLineStart = true ∧ fragment.problem = some .unexpectedEndOfFile ∧
      rest = [] := by
  revert found
  fun_cases next? atLineStart text
  case case4 rest opens comment after closed split problem =>
    intro found
    simp only [Option.some.injEq, Prod.mk.injEq] at found
    obtain ⟨rfl, rfl⟩ := found
    cases closed with
    | true => exact Or.inl rfl
    | false =>
      have ended := blockComment_unclosed rest
      rw [split] at ended
      rw [Bool.and_eq_true] at opens
      exact Or.inr ⟨opens.1, rfl, ended rfl⟩
  all_goals
    intro found
    simp only [Option.some.injEq, Prod.mk.injEq, reduceCtorEq] at found
  all_goals
    obtain ⟨rfl, -⟩ := found
    exact Or.inl rfl

theorem next?_startsLine {text rest : List Char} {fragment : Fragment}
    (found : next? false text = some (fragment, rest)) (other : fragment.kind ≠ .newline) :
    startsLine false fragment.kind = false := by
  revert found
  fun_cases next? false text
  case case4 opens _ _ _ _ _ => simp at opens
  all_goals
    intro found
    simp only [Option.some.injEq, Prod.mk.injEq, reduceCtorEq] at found
  all_goals
    obtain ⟨rfl, -⟩ := found
    first
      | rfl
      | exact absurd rfl other

theorem run_problems (trailing atLineStart : Bool) (text : List Char) :
    (∀ fragment ∈ (run trailing atLineStart text).1, ∀ problem ∈ fragment.problem,
      problem = .unexpectedEndOfFile) ∧
    ((run trailing atLineStart text).2 ≠ [] →
      ∀ fragment ∈ (run trailing atLineStart text).1, fragment.problem = none) := by
  fun_induction run trailing atLineStart text with
  | case1 => simp
  | case2 _ _ fragment rest found _ =>
    rcases next?_problem found with clean | ⟨-, problem, ended⟩
    · simp [clean]
    · simp [problem, ended]
  | case3 atLineStart _ fragment rest found _ fragments after split ih =>
    rw [split] at ih
    rcases next?_problem found with clean | ⟨-, problem, ended⟩
    · simpa [clean] using ih
    · have nothing : after = [] := by
        have parts := run_append trailing (startsLine atLineStart fragment.kind) rest
        rw [split, ended] at parts
        exact (List.append_eq_nil_iff.mp parts).2
      simp only [List.forall_mem_cons, nothing, ne_eq, not_true_eq_false, false_implies, and_true]
      exact ⟨by simp [problem], ih.1⟩

theorem run_trailing_problem {trailing atLineStart : Bool} {text : List Char}
    (after : trailing = true) (inLine : atLineStart = false) :
    ∀ fragment ∈ (run trailing atLineStart text).1, fragment.problem = none := by
  fun_induction run trailing atLineStart text with
  | case1 => simp
  | case2 _ _ fragment rest found _ =>
    rcases next?_problem found with clean | ⟨opens, -⟩
    · simp [clean]
    · rw [inLine] at opens
      exact absurd opens Bool.false_ne_true
  | case3 _ _ fragment rest found goesOn fragments later split ih =>
    subst after inLine
    rw [split] at ih
    have stays := next?_startsLine found (by simpa using goesOn)
    rcases next?_problem found with clean | ⟨opens, -⟩
    · simp only [List.forall_mem_cons]
      exact ⟨clean, ih stays⟩
    · exact absurd opens Bool.false_ne_true

theorem diagnostics_of_clean {fragments : List Fragment} (offset : Nat)
    (clean : ∀ fragment ∈ fragments, fragment.problem = none) :
    diagnostics fragments offset = [] := by
  induction fragments generalizing offset with
  | nil => rfl
  | cons fragment fragments ih =>
    rw [List.forall_mem_cons] at clean
    simp [diagnostics, clean.1, ih _ clean.2]

private theorem problem_of_mem_diagnostics {fragments : List Fragment} {offset : Nat}
    {diagnostic : Diagnostic} (member : diagnostic ∈ diagnostics fragments offset) :
    ∃ fragment ∈ fragments, fragment.problem = some diagnostic.problem := by
  induction fragments generalizing offset with
  | nil => simp [diagnostics] at member
  | cons fragment fragments ih =>
    simp only [diagnostics, List.mem_append, List.mem_map, Option.mem_toList] at member
    rcases member with ⟨problem, own, rfl⟩ | member
    · exact ⟨fragment, List.mem_cons_self, own⟩
    · obtain ⟨other, later, same⟩ := ih member
      exact ⟨other, List.mem_cons_of_mem _ later, same⟩

end Fragment

namespace Lexeme

/-- A bad lexeme is a symbol that the language does not have, and that is its problem. -/
def bad (c : Char) : Lexeme := ⟨.badToken, [c], none, some ⟨.unknownSymbol c, ⟨0, c.utf8Size⟩⟩⟩

/-- A lexeme is bad, or it is of another kind and has another problem, if any. -/
def IsBadOrLexical (lexeme : Lexeme) : Prop :=
  (∃ c, lexeme = bad c) ∨ lexeme.kind ≠ .badToken ∧
    ∀ diagnostic ∈ lexeme.problem, diagnostic.problem.isLexical = true

private theorem symbol_isBadOrLexical (c : Char) : (symbol c).IsBadOrLexical := by
  unfold symbol
  split
  case h_1 kind found =>
    refine Or.inr ⟨?_, by simp⟩
    rintro rfl
    cases singleOperator?_eq_some_iff.mp found
  case h_2 => exact Or.inl ⟨c, rfl⟩

private theorem operator_isBadOrLexical (c : Char) (rest : List Char) :
    (operator c rest).1.IsBadOrLexical := by
  fun_cases operator c rest
  case case1 d rest kind found =>
    refine Or.inr ⟨?_, by simp⟩
    rintro rfl
    cases pairOperator?_eq_some_iff.mp found
  case case2 => exact symbol_isBadOrLexical c
  case case3 => exact symbol_isBadOrLexical c

private theorem string_isBadOrLexical (quote : Char) {kind : Kind} (good : kind ≠ .badToken)
    (text : List Char) : (string quote kind text).1.IsBadOrLexical := by
  refine Or.inr ⟨good, fun diagnostic found => ?_⟩
  simp only [string, Option.mem_def, Option.ite_none_left_eq_some, Option.some.injEq] at found
  obtain ⟨-, rfl⟩ := found
  rfl

private theorem number_isBadOrLexical (text : List Char) : (number text).1.IsBadOrLexical := by
  refine Or.inr ⟨by simp [number], fun diagnostic found => ?_⟩
  obtain ⟨-, rfl⟩ := eq_of_mem_ofScan_problem found
  rfl

private theorem read_isBadOrLexical (touchesOperand : Bool) (text : List Char) :
    (read touchesOperand text).1.IsBadOrLexical := by
  fun_cases read touchesOperand text
  case case3 => exact number_isBadOrLexical _
  case case5 => exact string_isBadOrLexical _ (by decide) _
  case case6 => exact string_isBadOrLexical _ (by decide) _
  case case7 c rest _ _ _ _ => exact operator_isBadOrLexical c rest
  all_goals exact Or.inr ⟨by simp, by simp⟩

/-- The problem of a lexeme ends in its text or in the text after it. -/
def ProblemBefore (lexeme : Lexeme) (rest : List Char) : Prop :=
  ∀ diagnostic ∈ lexeme.problem,
    diagnostic.range.stop ≤ Text.byteSize lexeme.text + Text.byteSize rest

private theorem symbol_problemBefore (c : Char) (rest : List Char) :
    (symbol c).ProblemBefore rest := by
  intro diagnostic found
  unfold symbol at found ⊢
  split at found
  · simp at found
  · simp only [Option.mem_some_iff] at found
    subst found
    simp

private theorem read_problemBefore (touchesOperand : Bool) (text : List Char) :
    (read touchesOperand text).1.ProblemBefore (read touchesOperand text).2 := by
  have quoted (quote : Char) (kind : Kind) (text : List Char) :
      (string quote kind text).1.ProblemBefore (string quote kind text).2 := by
    intro diagnostic found
    simp only [string, Option.mem_def, Option.ite_none_left_eq_some, Option.some.injEq] at found
    obtain ⟨-, rfl⟩ := found
    simp [string]
  fun_cases read touchesOperand text
  case case3 c rest _ _ =>
    intro diagnostic found
    obtain ⟨whole, rfl⟩ := eq_of_mem_ofScan_problem found
    simp only [number, whole, Range.ofLength]
    cases (Numeral.run .start (c :: rest)).rest with
    | nil => simp
    | cons d later => simp
  case case5 => exact quoted _ _ _
  case case6 => exact quoted _ _ _
  case case7 c rest _ _ _ _ =>
    fun_cases operator c rest
    case case1 => simp [ProblemBefore]
    case case2 => exact symbol_problemBefore c _
    case case3 => exact symbol_problemBefore c _
  all_goals simp [ProblemBefore]

end Lexeme

private theorem Fragment.diagnostics_before (fragments : List Fragment) (offset : Nat) :
    ∀ diagnostic ∈ Fragment.diagnostics fragments offset,
      diagnostic.range.stop ≤ offset + Text.byteSize (textOf fragments) := by
  induction fragments generalizing offset with
  | nil => simp [Fragment.diagnostics]
  | cons fragment rest ih =>
    intro diagnostic member
    simp only [Fragment.diagnostics, List.mem_append, List.mem_map] at member
    simp only [textOf, List.flatMap_cons, Text.byteSize_append]
    rcases member with ⟨problem, -, rfl⟩ | member
    · simp only [Range.ofLength]
      omega
    · have before := ih _ diagnostic member
      simp only [textOf] at before
      omega

/-- A bad token has its symbol as its one problem, and no other token has such a problem. -/
structure Token.IsBadOrLexical (token : Token) : Prop where
  bad : token.kind = .badToken → ∃ c, token.trimmed? = some [c] ∧
    token.diagnostics = [⟨.unknownSymbol c, token.span 0⟩]
  other : token.kind ≠ .badToken → ∀ diagnostic ∈ token.diagnostics,
    diagnostic.problem.isLexical = true

namespace Reading

private theorem token_isBadOrLexical {reading : Reading} (lexeme : reading.lexeme.IsBadOrLexical)
    (ended : ∀ fragment ∈ reading.leading ++ reading.trailing, ∀ problem ∈ fragment.problem,
      problem = .unexpectedEndOfFile)
    (clean : reading.lexeme.text ≠ [] →
      ∀ fragment ∈ reading.leading ++ reading.trailing, fragment.problem = none) :
    reading.token.IsBadOrLexical := by
  constructor
  · intro isBad
    rcases lexeme with ⟨c, bad⟩ | ⟨good, -⟩
    · have clean := clean (by simp [bad, Lexeme.bad])
      refine ⟨c, by rw [token_trimmed?, bad, Lexeme.bad], ?_⟩
      have none (fragments : List Fragment) (offset : Nat)
          (part : fragments ⊆ reading.leading ++ reading.trailing) :
          Fragment.diagnostics fragments offset = [] :=
        Fragment.diagnostics_of_clean offset fun fragment member => clean fragment (part member)
      rw [token_span]
      simp only [token, diagnostics, found, none _ _ (List.subset_append_left _ _),
        none _ _ (List.subset_append_right _ _), bad, Lexeme.bad]
      simp [Diagnostic.shift, Range.shift, Range.ofLength, Nat.add_comm]
    · exact absurd isBad good
  · intro good diagnostic member
    have trivia (fragments : List Fragment) (offset : Nat)
        (part : fragments ⊆ reading.leading ++ reading.trailing)
        (member : diagnostic ∈ Fragment.diagnostics fragments offset) :
        diagnostic.problem.isLexical = true := by
      obtain ⟨fragment, here, same⟩ := Fragment.problem_of_mem_diagnostics member
      rw [ended fragment (part here) _ same]
      rfl
    simp only [token, diagnostics, found, List.mem_append, List.mem_map,
      Option.mem_toList] at member
    rcases member with (member | ⟨problem, own, rfl⟩) | member
    · exact trivia _ _ (List.subset_append_left _ _) member
    · rcases lexeme with ⟨c, bad⟩ | ⟨-, lexical⟩
      · exact absurd (by rw [token, bad]; rfl) good
      · exact lexical problem own
    · exact trivia _ _ (List.subset_append_right _ _) member

private theorem diagnostics_before {reading : Reading}
    (before : reading.lexeme.ProblemBefore (Fragment.textOf reading.trailing ++ reading.rest)) :
    ∀ diagnostic ∈ reading.diagnostics,
      diagnostic.range.stop ≤ Text.byteSize reading.text + Text.byteSize reading.rest := by
  intro diagnostic member
  simp only [diagnostics, found, Nat.zero_add, List.mem_append, List.mem_map,
    Option.mem_toList] at member
  simp only [text, Text.byteSize_append]
  rcases member with (member | ⟨problem, member, rfl⟩) | member
  · have := Fragment.diagnostics_before reading.leading 0 diagnostic member
    omega
  · have := before problem member
    simp only [Text.byteSize_append] at this
    simp only [Diagnostic.shift, Range.shift]
    omega
  · have := Fragment.diagnostics_before reading.trailing _ diagnostic member
    omega

end Reading

namespace Context

private theorem readLexeme_isBadOrLexical (context : Context) (text : List Char) :
    (context.readLexeme text).1.IsBadOrLexical := by
  unfold readLexeme
  split
  · exact Or.inr ⟨by simp [Lexeme.readBareWord], by simp [Lexeme.readBareWord]⟩
  · exact Lexeme.read_isBadOrLexical _ _

private theorem readLexeme_problemBefore (context : Context) (text : List Char) :
    (context.readLexeme text).1.ProblemBefore (context.readLexeme text).2 := by
  unfold readLexeme
  split
  · simp [Lexeme.ProblemBefore, Lexeme.readBareWord]
  · exact Lexeme.read_problemBefore _ _

private theorem read_token_isBadOrLexical (context : Context) (text : List Char) :
    (context.read text).token.IsBadOrLexical := by
  let front := Fragment.leading context.atLineStart text
  let entered := context.afterLeading front.1
  have parts : (entered.readLexeme front.2).1.text ++ (entered.readLexeme front.2).2 = front.2 :=
    readLexeme_append entered front.2
  have before := Fragment.run_problems false context.atLineStart text
  have after := @Fragment.run_trailing_problem true false (entered.readLexeme front.2).2 rfl rfl
  refine Reading.token_isBadOrLexical (readLexeme_isBadOrLexical _ _) ?_ ?_
  · intro fragment member problem own
    rcases List.mem_append.mp member with member | member
    · exact before.1 fragment member problem own
    · rw [after fragment member] at own
      cases own
  · intro some fragment member
    rcases List.mem_append.mp member with member | member
    · refine before.2 (fun nothing => some ?_) fragment member
      exact (List.append_eq_nil_iff.mp (parts.trans nothing)).1
    · exact after fragment member

private theorem read_diagnostics_before (context : Context) (text : List Char) :
    ∀ diagnostic ∈ (context.read text).token.diagnostics,
      diagnostic.range.stop ≤ Text.byteSize text := by
  intro diagnostic member
  have whole := congrArg Text.byteSize (context.read_append text)
  rw [Text.byteSize_append] at whole
  rw [← whole]
  let front := Fragment.leading context.atLineStart text
  let lexeme := (context.afterLeading front.1).readLexeme front.2
  have before : lexeme.1.ProblemBefore
      (Fragment.textOf (Fragment.trailing lexeme.2).1 ++ (Fragment.trailing lexeme.2).2) := by
    rw [Fragment.trailing_append]
    exact readLexeme_problemBefore _ _
  exact Reading.diagnostics_before before diagnostic member

end Context

namespace PlacedToken

def Consecutive : Nat → List PlacedToken → Prop
  | _, [] => True
  | offset, placed :: rest =>
    placed.fullStart = offset ∧ Consecutive (offset + placed.token.width) rest

end PlacedToken

namespace Lexer

theorem tokens_consecutive {lexer : Lexer} {stream : TokenStream} (ok : lexer.tokens = .ok stream) :
    PlacedToken.Consecutive lexer.position.offset stream.toList ∧
      ∀ placed ∈ stream.toList, placed.token.IsBadOrLexical ∧
        ∀ diagnostic ∈ placed.diagnostics,
          diagnostic.range.stop ≤ lexer.position.offset + Text.byteSize lexer.rest := by
  have read (lexer : Lexer) (placed : PlacedToken) (yields : lexer.next.1 = .ok placed) :
      placed.token.IsBadOrLexical ∧ ∀ diagnostic ∈ placed.diagnostics,
        diagnostic.range.stop ≤ lexer.position.offset + Text.byteSize lexer.rest := by
    rw [next_eq_ok yields]
    refine ⟨lexer.context.read_token_isBadOrLexical lexer.rest, ?_⟩
    intro diagnostic member
    obtain ⟨own, here, rfl⟩ := List.mem_map.mp member
    have inside := lexer.context.read_diagnostics_before lexer.rest own here
    simp only [Diagnostic.shift, Range.shift, PlacedToken.fullStart]
    omega
  fun_induction Lexer.tokens lexer generalizing stream with
  | case1 => simp at ok
  | case2 lexer placed yields isEnd =>
    simp only [Except.ok.injEq] at ok
    subst ok
    have here := read lexer placed yields
    simp only [TokenStream.toList, List.nil_append, List.mem_singleton, forall_eq,
      PlacedToken.Consecutive, and_true]
    exact ⟨by rw [next_eq_ok yields]; rfl, here⟩
  | case3 lexer placed yields notEnd ih =>
    cases later : lexer.next.2.tokens with
    | error failure => simp [later, Except.map] at ok
    | ok rest =>
      simp only [later, Except.map, Except.ok.injEq] at ok
      subst ok
      obtain ⟨consecutive, problems⟩ := ih later
      have here := read lexer placed yields
      have token := next_eq_ok yields
      have parts := congrArg Text.byteSize lexer.taken_append
      rw [taken_eq, Text.byteSize_append] at parts
      rw [next_position, Position.offset_advance] at consecutive problems
      simp only [TokenStream.toList, TokenStream.push, List.cons_append, List.forall_mem_cons,
        PlacedToken.Consecutive] at consecutive problems ⊢
      refine ⟨⟨by rw [token]; rfl, ?_⟩, here, fun other member => ?_⟩
      · rw [token]
        exact consecutive
      · refine ⟨(problems other member).1, fun diagnostic inside => ?_⟩
        have := (problems other member).2 diagnostic inside
        omega

end Lexer

end MatrixScript
