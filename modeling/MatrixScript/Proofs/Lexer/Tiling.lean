import MatrixScript.Lexer

/-!
The calls of a lexer tile its text.

Each call takes the stretch of text that starts where the call before it stopped, whether it yields
a token or fails, and a token holds that stretch and nothing else. A call takes a significant
character unless nothing but trivia is left, so the tokens of a text come after a bounded number of
calls, and at the end of the text all that is left to say is the end, or a bracket that is open.
-/

set_option autoImplicit false

namespace MatrixScript

/-- A computation whose result passes a test has a result. -/
theorem exists_ok_of_any {ε α : Type} {result : Except ε α} {test : α → Bool}
    (passes : result.toOption.any test = true) : ∃ a, result = .ok a ∧ test a = true := by
  cases result with
  | error failure => exact absurd passes Bool.false_ne_true
  | ok a => exact ⟨a, rfl, passes⟩

namespace Lexeme

theorem read_kind_ne_eof {touchesOperand : Bool} {text : List Char} (more : text ≠ []) :
    (read touchesOperand text).1.kind ≠ .eof := by
  fun_cases read touchesOperand text
  case case1 => contradiction
  case case2 => simp
  case case3 => simp [number]
  case case4 => simp
  case case5 => simp [string]
  case case6 => simp [string]
  case case7 c rest _ _ _ _ => exact operator_kind_ne rfl (by decide) c rest

def ProblemInside (lexeme : Lexeme) : Prop :=
  ∀ problem ∈ lexeme.problem, problem.range.start ≤ problem.range.stop ∧
    problem.range.start ≤ Text.byteSize lexeme.text

private theorem symbol_problemInside (c : Char) : (symbol c).ProblemInside := by
  intro problem found
  unfold symbol at found
  split at found
  · simp at found
  · simp only [Option.mem_some_iff] at found
    subst found
    simp

private theorem read_problemInside (touchesOperand : Bool) (text : List Char) :
    (read touchesOperand text).1.ProblemInside := by
  fun_cases read touchesOperand text
  case case3 =>
    intro problem found
    obtain ⟨text, rfl⟩ := eq_of_mem_ofScan_problem found
    simp [number, text, Range.ofLength]
  case case5 =>
    intro problem found
    simp only [string, Option.mem_def, Option.ite_none_left_eq_some, Option.some.injEq] at found
    obtain ⟨-, rfl⟩ := found
    simp
  case case6 =>
    intro problem found
    simp only [string, Option.mem_def, Option.ite_none_left_eq_some, Option.some.injEq] at found
    obtain ⟨-, rfl⟩ := found
    simp
  case case7 c rest _ _ _ _ =>
    fun_cases operator c rest
    case case1 => simp [ProblemInside]
    case case2 => exact symbol_problemInside c
    case case3 => exact symbol_problemInside c
  all_goals simp [ProblemInside]

end Lexeme

private theorem Fragment.diagnostics_inside (fragments : List Fragment) (offset : Nat) :
    ∀ diagnostic ∈ Fragment.diagnostics fragments offset,
      diagnostic.range.start ≤ diagnostic.range.stop ∧
        diagnostic.range.start ≤ offset + Text.byteSize (textOf fragments) := by
  induction fragments generalizing offset with
  | nil => simp [Fragment.diagnostics]
  | cons fragment rest ih =>
    intro diagnostic member
    simp only [Fragment.diagnostics, List.mem_append, List.mem_map] at member
    simp only [textOf, List.flatMap_cons, Text.byteSize_append]
    rcases member with ⟨problem, -, rfl⟩ | member
    · simp [Range.ofLength]
    · have inside := ih _ diagnostic member
      simp only [textOf] at inside
      omega

namespace Reading

private theorem diagnostics_inside {reading : Reading} (inside : reading.lexeme.ProblemInside) :
    ∀ diagnostic ∈ reading.diagnostics,
      diagnostic.range.start ≤ diagnostic.range.stop ∧
        diagnostic.range.start ≤ Text.byteSize reading.text := by
  intro diagnostic member
  simp only [diagnostics, found, Nat.zero_add, List.mem_append, List.mem_map,
    Option.mem_toList] at member
  simp only [text, Text.byteSize_append]
  rcases member with (member | ⟨problem, member, rfl⟩) | member
  · have := Fragment.diagnostics_inside reading.leading 0 diagnostic member
    omega
  · have := inside problem member
    simp only [Diagnostic.shift, Range.shift]
    omega
  · have := Fragment.diagnostics_inside reading.trailing _ diagnostic member
    omega

end Reading

namespace Context

@[simp]
private theorem expectsBareWord_nil (context : Context) :
    context.expectsBareWord [] = false := by
  unfold expectsBareWord
  split <;> simp [Lexeme.startsBareWord]

@[simp]
theorem read_nil (context : Context) :
    context.read [] = ⟨[], ⟨.eof, [], none, none⟩, [], []⟩ := by
  have none_left (trailing atLineStart : Bool) :
      Fragment.run trailing atLineStart [] = ([], []) := by
    rw [Fragment.run]
    rfl
  simp [read, Fragment.leading, Fragment.trailing, none_left, readLexeme, Lexeme.read]

private theorem readLexeme_problemInside (context : Context) (text : List Char) :
    (context.readLexeme text).1.ProblemInside := by
  unfold readLexeme
  split
  · simp [Lexeme.ProblemInside, Lexeme.readBareWord]
  · exact Lexeme.read_problemInside _ _

private theorem readLexeme_kind_ne_eof {context : Context} {text : List Char} (more : text ≠ []) :
    (context.readLexeme text).1.kind ≠ .eof := by
  unfold readLexeme
  split
  · simp [Lexeme.readBareWord]
  · exact Lexeme.read_kind_ne_eof more

def significant (context : Context) (text : List Char) : List Char :=
  (Fragment.leading context.atLineStart text).2

/-- The end is read just where nothing but trivia is left. -/
theorem read_kind_eq_eof_iff (context : Context) (text : List Char) :
    (context.read text).lexeme.kind = .eof ↔ context.significant text = [] := by
  constructor
  · intro isEnd
    apply Classical.byContradiction
    intro more
    exact readLexeme_kind_ne_eof more isEnd
  · intro nothing
    unfold significant at nothing
    simp [read, nothing, readLexeme, Lexeme.read]

private theorem read_takes_significant {context : Context} {text : List Char}
    (more : context.significant text ≠ []) : (context.read text).lexeme.text ≠ [] :=
  read_lexeme_ne_nil (mt (read_kind_eq_eof_iff context text).mp more)

end Context

namespace Lexer

/-- The lexer after `count` calls of `next`, failed or not. -/
def after (lexer : Lexer) : Nat → Lexer
  | 0 => lexer
  | count + 1 => lexer.next.2.after count

/-- The stretch of text that a call of `next` moves over. -/
def taken (lexer : Lexer) : List Char :=
  lexer.rest.take (lexer.rest.length - lexer.next.2.rest.length)

theorem next_position (lexer : Lexer) :
    lexer.next.2.position = lexer.position.advance lexer.reading.text := by
  simp only [next]
  split <;> rfl

/-- A call takes what it reads. -/
theorem taken_eq (lexer : Lexer) : lexer.taken = lexer.reading.text := by
  have parts := lexer.context.read_append lexer.rest
  have lengths := congrArg List.length parts
  rw [List.length_append] at lengths
  have front : lexer.rest.length - (lexer.context.read lexer.rest).rest.length =
      lexer.reading.text.length := by
    simp only [reading]
    omega
  calc lexer.taken
    _ = lexer.rest.take lexer.reading.text.length := by rw [taken, next_rest, front]
    _ = (lexer.reading.text ++ (lexer.context.read lexer.rest).rest).take
          lexer.reading.text.length := congrArg _ parts.symm
    _ = lexer.reading.text := List.take_left

/-- A call leaves what it does not take. -/
theorem taken_append (lexer : Lexer) : lexer.taken ++ lexer.next.2.rest = lexer.rest := by
  rw [taken_eq, next_rest]
  exact lexer.context.read_append lexer.rest

theorem after_succ (lexer : Lexer) (count : Nat) :
    lexer.after (count + 1) = (lexer.after count).next.2 := by
  induction count generalizing lexer with
  | zero => rfl
  | succ count ih => exact ih lexer.next.2

/-- The stretches that the first `count` calls move over. -/
def slices (lexer : Lexer) (count : Nat) : List (List Char) :=
  (List.range count).map fun call => (lexer.after call).taken

theorem slices_succ (lexer : Lexer) (count : Nat) :
    lexer.slices (count + 1) = lexer.slices count ++ [(lexer.after count).taken] := by
  simp [slices, List.range_succ]

private theorem slices_append (lexer : Lexer) (count : Nat) :
    (lexer.slices count).flatten ++ (lexer.after count).rest = lexer.rest := by
  induction count with
  | zero => rfl
  | succ count ih =>
    rw [slices_succ, List.flatten_append, List.flatten_singleton, List.append_assoc, after_succ,
      taken_append, ih]

private theorem after_position (lexer : Lexer) (count : Nat) :
    (lexer.after count).position = lexer.position.advance (lexer.slices count).flatten := by
  induction count with
  | zero => rfl
  | succ count ih =>
    rw [slices_succ, List.flatten_append, List.flatten_singleton, Position.advance_append,
      after_succ, next_position, ih, taken_eq]

/-- The calls of `steps` are made one after the other. -/
theorem steps_getElem? (lexer : Lexer) (count call : Nat) (inside : call < count) :
    (lexer.steps count)[call]? = some (lexer.after call).next.1 := by
  induction count generalizing lexer call with
  | zero => omega
  | succ count ih =>
    cases call with
    | zero => rfl
    | succ call => exact ih lexer.next.2 call (by omega)

theorem next_rest_of_eof {lexer : Lexer} (isEnd : lexer.reading.lexeme.kind = .eof) :
    lexer.next.2.rest = [] := by
  have nothing := (Context.read_kind_eq_eof_iff lexer.context lexer.rest).mp isEnd
  unfold Context.significant at nothing
  rw [next_rest]
  have none_left : Fragment.trailing [] = ([], []) := by
    rw [Fragment.trailing, Fragment.run]
    rfl
  simp [Context.read, nothing, Context.readLexeme, Lexeme.read, none_left]

/-- What a call answers once the text is used up: the end, or else the innermost open bracket. -/
def AnswersEnd (lexer : Lexer) : Prop :=
  match lexer.context.brackets with
  | [] => ∃ placed, lexer.next.1 = .ok placed ∧ placed.kind = .eof
  | (opening, place) :: _ => lexer.next.1 = .error ⟨⟨.unmatchedOpeningBracket opening, place⟩⟩

theorem next_at_end {lexer : Lexer} (done : lexer.rest = []) :
    lexer.taken = [] ∧ lexer.next.2.rest = [] ∧ lexer.AnswersEnd := by
  refine ⟨by simp [taken, done], ?_, ?_⟩
  · have parts := lexer.taken_append
    rw [done] at parts
    exact (List.append_eq_nil_iff.mp parts).2
  · have entered : lexer.context.afterLeading [] = lexer.context := by
      simp [Context.afterLeading]
    have kind (position : Position) :
        (⟨Reading.token ⟨[], ⟨.eof, [], none, none⟩, [], []⟩, position⟩ : PlacedToken).kind =
          .eof := rfl
    unfold AnswersEnd
    simp only [next, done, Context.read_nil, entered, kind]
    split
    · rename_i none
      simp [Context.matchBracket, none, Kind.isOpening, Kind.isClosing, kind]
    · rename_i opening place outer found
      simp [Context.matchBracket, found, Kind.isOpening, Kind.isClosing]

/-- The tokens of a text are those that the calls yield, up to the first end. -/
theorem steps_eq_of_tokens_ok {lexer : Lexer} {stream : TokenStream}
    (ok : lexer.tokens = .ok stream) :
    lexer.steps (stream.tokens.length + 1) = stream.toList.map .ok ∧
      stream.tokens.length ≤ lexer.rest.length := by
  fun_induction Lexer.tokens lexer generalizing stream with
  | case1 => simp at ok
  | case2 lexer placed yields isEnd =>
    simp only [Except.ok.injEq] at ok
    subst ok
    simp [steps, TokenStream.toList, yields]
  | case3 lexer placed yields notEnd ih =>
    cases more : lexer.next.2.tokens with
    | error failure => simp [more, Except.map] at ok
    | ok later =>
      simp only [more, Except.map, Except.ok.injEq] at ok
      subst ok
      obtain ⟨calls, bound⟩ := ih more
      have shorter := next_length_lt yields notEnd
      refine ⟨?_, ?_⟩
      · simp only [TokenStream.push, List.length_cons, steps, yields, TokenStream.toList,
          List.cons_append, List.map_cons, List.cons.injEq, true_and]
        exact calls
      · simp only [TokenStream.push, List.length_cons]
        omega

private theorem steps_eq_of_tokens_error {lexer : Lexer} {failure : Failure}
    (failed : lexer.tokens = .error failure) :
    ∃ yielded : List PlacedToken, yielded.length ≤ lexer.rest.length ∧
      lexer.steps (yielded.length + 1) = yielded.map .ok ++ [.error failure] ∧
      ∀ placed ∈ yielded, placed.kind ≠ .eof := by
  fun_induction Lexer.tokens lexer with
  | case1 lexer failure' fails =>
    simp only [Except.error.injEq] at failed
    subst failed
    exact ⟨[], by simp, by simp [steps, fails], by simp⟩
  | case2 => simp at failed
  | case3 lexer placed yields notEnd ih =>
    cases more : lexer.next.2.tokens with
    | ok later => simp [more, Except.map] at failed
    | error failure' =>
      simp only [more, Except.map, Except.error.injEq] at failed
      subst failed
      obtain ⟨yielded, bound, calls, kinds⟩ := ih more
      have shorter := next_length_lt yields notEnd
      refine ⟨placed :: yielded, ?_, ?_, ?_⟩
      · simp only [List.length_cons]
        omega
      · simp only [List.length_cons, steps, yields, List.map_cons, List.cons_append,
          List.cons.injEq, true_and]
        exact calls
      · simp only [List.forall_mem_cons]
        exact ⟨notEnd, kinds⟩

/-- The tokens of a text have all of it, the end stands last, and no token is missing. -/
theorem tokens_ok {lexer : Lexer} {stream : TokenStream} (ok : lexer.tokens = .ok stream) :
    stream.toList.flatMap (·.token.text) = lexer.rest ∧ stream.eof.kind = .eof ∧
      (∀ placed ∈ stream.tokens, placed.kind ≠ .eof) ∧
      ∀ placed ∈ stream.toList, placed.token.isMissing = false := by
  fun_induction Lexer.tokens lexer generalizing stream with
  | case1 => simp at ok
  | case2 lexer placed yields isEnd =>
    simp only [Except.ok.injEq] at ok
    subst ok
    have parts := lexer.taken_append
    have token := next_eq_ok yields
    subst token
    rw [next_rest_of_eof isEnd, List.append_nil, taken_eq] at parts
    refine ⟨?_, isEnd, by simp, ?_⟩
    · simpa [TokenStream.toList, Reading.token] using parts
    · simp [TokenStream.toList, Reading.token]
  | case3 lexer placed yields notEnd ih =>
    cases more : lexer.next.2.tokens with
    | error failure => simp [more, Except.map] at ok
    | ok later =>
      simp only [more, Except.map, Except.ok.injEq] at ok
      subst ok
      obtain ⟨texts, isEnd, kinds, present⟩ := ih more
      have parts := lexer.taken_append
      have token := next_eq_ok yields
      subst token
      simp only [TokenStream.toList] at texts present
      refine ⟨?_, isEnd, ?_, ?_⟩
      · rw [← parts, ← texts, taken_eq]
        rfl
      · simp only [TokenStream.push, List.forall_mem_cons]
        exact ⟨notEnd, kinds⟩
      · simp only [TokenStream.toList, TokenStream.push, List.cons_append, List.forall_mem_cons]
        exact ⟨rfl, present⟩

/-- Every token of a text is read somewhere in it. -/
theorem tokens_read {lexer : Lexer} {stream : TokenStream} (ok : lexer.tokens = .ok stream) :
    ∀ placed ∈ stream.toList, ∃ source : Lexer, placed.token = source.reading.token := by
  fun_induction Lexer.tokens lexer generalizing stream with
  | case1 => simp at ok
  | case2 lexer placed yields isEnd =>
    simp only [Except.ok.injEq] at ok
    subst ok
    simp only [TokenStream.toList, List.nil_append, List.mem_singleton, forall_eq]
    exact ⟨lexer, by rw [next_eq_ok yields]⟩
  | case3 lexer placed yields notEnd ih =>
    cases later : lexer.next.2.tokens with
    | error failure => simp [later, Except.map] at ok
    | ok rest =>
      simp only [later, Except.map, Except.ok.injEq] at ok
      subst ok
      simp only [TokenStream.toList, TokenStream.push, List.cons_append, List.forall_mem_cons]
      exact ⟨⟨lexer, by rw [next_eq_ok yields]⟩, ih later⟩

/-- What one call of `next` has to do with the text: it moves over the stretch between its two
places, and whatever it yields is made of that stretch. -/
structure Tile (text : List Char) (lexer : Lexer) : Prop where
  /-- The stretch lies in the text between the offsets before and after the call. -/
  slice : Text.slice? lexer.position.offset lexer.next.2.position.offset text = some lexer.taken
  /-- The stretch is trivia, a significant part, and trivia. -/
  parts : lexer.taken = Fragment.textOf lexer.reading.leading ++ lexer.reading.lexeme.text ++
    Fragment.textOf lexer.reading.trailing
  /-- A token has the text of the stretch, starts where it starts, and has the trivia and the
  problems found in it and no others. -/
  token : ∀ placed, lexer.next.1 = .ok placed →
    placed.token.text = lexer.taken ∧ placed.position = lexer.position ∧
      placed.token.leading = Fragment.pieces lexer.reading.leading ∧
      placed.token.trailing = Fragment.pieces lexer.reading.trailing ∧
      placed.token.diagnostics = lexer.reading.diagnostics
  /-- The problems of a token start inside the stretch. -/
  diagnostics : ∀ placed, lexer.next.1 = .ok placed → ∀ diagnostic ∈ placed.token.diagnostics,
    diagnostic.range.start ≤ diagnostic.range.stop ∧
      diagnostic.range.start ≤ Text.byteSize lexer.taken
  /-- A significant character is taken unless nothing but trivia is left. -/
  significant : lexer.context.significant lexer.rest ≠ [] → lexer.reading.lexeme.text ≠ []
  /-- Once the text is used up, nothing is taken and the end is answered. -/
  finished : lexer.rest = [] → lexer.taken = [] ∧ lexer.next.2.rest = [] ∧ lexer.AnswersEnd

private theorem tile_of_front {text front : List Char} {lexer : Lexer}
    (whole : front ++ lexer.rest = text)
    (place : lexer.position.offset = Text.byteSize front) : Tile text lexer where
  slice := by
    rw [← whole, ← lexer.taken_append, next_position, Position.offset_advance, place, taken_eq]
    exact Text.slice?_append front _ _
  parts := lexer.taken_eq
  token placed ok := by
    have token := next_eq_ok ok
    subst token
    exact ⟨lexer.taken_eq.symm, rfl, rfl, rfl, rfl⟩
  diagnostics placed ok := by
    have token := next_eq_ok ok
    subst token
    rw [taken_eq]
    exact Reading.diagnostics_inside (Context.readLexeme_problemInside _ _)
  significant := Context.read_takes_significant
  finished := next_at_end

private theorem after_offset (text : List Char) (count : Nat) :
    ((start text).after count).position.offset =
      Text.byteSize ((start text).slices count).flatten := by
  rw [after_position, Position.offset_advance]
  simp [start, Position.start]

/-- The calls of a lexer tile its text, and `tokenize` makes a bounded number of them. -/
theorem calls_tile (text : List Char) (count : Nat) :
    ((start text).slices count).flatten ++ ((start text).after count).rest = text ∧
    (∀ call < count,
      ((start text).steps count)[call]? = some ((start text).after call).next.1 ∧
      ((start text).after call).position.offset =
        Text.byteSize ((start text).slices call).flatten ∧
      Tile text ((start text).after call)) ∧
    (∀ stream, tokenize text = .ok stream →
      stream.tokens.length ≤ text.length ∧
      (start text).steps (stream.tokens.length + 1) = stream.toList.map .ok ∧
      stream.eof.kind = .eof ∧ (∀ placed ∈ stream.tokens, placed.kind ≠ .eof) ∧
      stream.toList.flatMap (·.token.text) = text) ∧
    (∀ failure, tokenize text = .error failure →
      ∃ yielded : List PlacedToken, yielded.length ≤ text.length ∧
        (start text).steps (yielded.length + 1) = yielded.map .ok ++ [.error failure] ∧
        ∀ placed ∈ yielded, placed.kind ≠ .eof) := by
  refine ⟨slices_append _ _, ?_, ?_, fun failure failed => steps_eq_of_tokens_error failed⟩
  · intro call inside
    exact ⟨steps_getElem? _ _ _ inside, after_offset text call,
      tile_of_front (slices_append _ _) (after_offset text call)⟩
  · intro stream ok
    obtain ⟨calls, bound⟩ := steps_eq_of_tokens_ok ok
    obtain ⟨texts, isEnd, kinds, -⟩ := tokens_ok ok
    exact ⟨bound, calls, isEnd, kinds, texts⟩

/-- The calls go on past a bracket that nothing opened, and past the end. -/
theorem calls_tile_mismatch :
    ((start ")\nx".toList).steps 4).map Except.isOk = [false, true, true, true] ∧
      Tile ")\nx".toList ((start ")\nx".toList).after 1) :=
  ⟨by decide +kernel, ((calls_tile _ 4).2.1 1 (by decide)).2.2⟩

end Lexer
end MatrixScript
