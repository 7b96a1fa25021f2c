import MatrixScript.Lexer

/-!
Scanners look no further than the end of a line.

A text that ends with a line feed is read in the same way whatever follows it. This holds of every
lexeme, since none goes past a line feed, and of trivia as long as some text is left, or the line
feed itself is what ends the trivia.
-/

set_option autoImplicit false

namespace MatrixScript

namespace Text

def LineEnded (text : List Char) : Prop := text.getLast? = some '\n'

namespace LineEnded

theorem ne_nil {text : List Char} (ended : LineEnded text) : text ≠ [] := by
  rintro rfl
  simp [LineEnded] at ended

theorem append {back : List Char} (ended : LineEnded back) (front : List Char) :
    LineEnded (front ++ back) := by
  unfold LineEnded at ended ⊢
  simp [List.getLast?_append, ended]

theorem of_append {front back : List Char} (ended : LineEnded (front ++ back)) (more : back ≠ []) :
    LineEnded back := by
  obtain ⟨last, found⟩ := Option.isSome_iff_exists.mp (List.getLast?_isSome.mpr more)
  unfold LineEnded at ended ⊢
  rw [List.getLast?_append, found] at ended
  rw [found]
  exact ended

private theorem tail {c : Char} {rest : List Char} (ended : LineEnded (c :: rest))
    (other : c ≠ '\n') :
    LineEnded rest := by
  apply of_append (show LineEnded ([c] ++ rest) from ended)
  rintro rfl
  simp [LineEnded, other] at ended

private theorem span_append {text : List Char} (ended : LineEnded text) {test : Char → Bool}
    (stops : test '\n' = false) (more : List Char) :
    (text ++ more).takeWhile test = text.takeWhile test ∧
      (text ++ more).dropWhile test = text.dropWhile test ++ more ∧
      LineEnded (text.dropWhile test) := by
  induction text with
  | nil => exact absurd rfl ended.ne_nil
  | cons c rest ih =>
    by_cases passes : test c
    · have other : c ≠ '\n' := by
        rintro rfl
        simp [stops] at passes
      obtain ⟨taken, left, leftEnded⟩ := ih (ended.tail other)
      simp [passes, taken, left, leftEnded]
    · simp [passes, ended]

private theorem firstLine_append {text : List Char} (ended : LineEnded text) (more : List Char) :
    firstLine (text ++ more) = firstLine text :=
  (ended.span_append (by decide) more).1

end LineEnded

end Text

open Text (LineEnded)

/-- A scanner that takes nothing past the end of a line, and does not look there either. -/
def StaysInLine {α : Type} (scan : List Char → α × List Char) : Prop :=
  ∀ ⦃text : List Char⦄, LineEnded text → ∀ more : List Char,
    scan (text ++ more) = ((scan text).1, (scan text).2 ++ more) ∧ LineEnded (scan text).2

namespace Numeral

private theorem detachesPoint_append {text : List Char} (ended : LineEnded text)
    (more : List Char) : detachesPoint (text ++ more) = detachesPoint text := by
  cases text with
  | nil => exact absurd rfl ended.ne_nil
  | cons c rest =>
    by_cases point : c = '.'
    · subst point
      cases rest with
      | nil => exact absurd rfl (ended.tail (by decide)).ne_nil
      | cons d after => by_cases point : d = '.' <;> simp [detachesPoint, point]
    · simp [detachesPoint, point]

private theorem step_lineFeed (stage : Stage) (after : List Char) :
    step stage '\n' after = .stop := by
  cases stage <;> rfl

private theorem step_append_more {after : List Char} (ended : LineEnded after) (stage : Stage)
    (c : Char) (more : List Char) : step stage c (after ++ more) = step stage c after := by
  cases stage <;> simp only [step, detachesPoint_append ended]

private theorem run_append_more {text : List Char} (ended : LineEnded text) (stage : Stage)
    (more : List Char) :
    run stage (text ++ more) = { run stage text with rest := (run stage text).rest ++ more } ∧
      LineEnded (run stage text).rest := by
  induction text generalizing stage with
  | nil => exact absurd rfl ended.ne_nil
  | cons c after ih =>
    by_cases feed : c = '\n'
    · subst feed
      simp [run, step_lineFeed, ended]
    · have afterEnded : LineEnded after := ended.tail feed
      cases move : step stage c after with
      | take next =>
        obtain ⟨same, restEnded⟩ := ih afterEnded next
        simp [run, step_append_more afterEnded, move, same, restEnded, Scan.push]
      | stop => simp [run, step_append_more afterEnded, move, ended]
      | suffix => simp [run, step_append_more afterEnded, move, afterEnded]

end Numeral

namespace Lexeme

private theorem number_staysInLine : StaysInLine number := by
  intro text ended more
  obtain ⟨same, restEnded⟩ := Numeral.run_append_more ended .start more
  obtain ⟨c, rest, left⟩ := List.exists_cons_of_ne_nil restEnded.ne_nil
  rw [left] at same restEnded
  simp only [number, same, ofScan, left, List.cons_append, List.headD_cons, List.take_succ_cons,
    List.take_zero, true_and]
  exact restEnded

theorem quotation_lineEnd {quote c : Char} (other : c ≠ quote)
    (lineEnd : Fragment.isLineEnd c) (rest : List Char) :
    Quotation.read quote (c :: rest) = ⟨[], [], false, c :: rest⟩ := by
  cases rest <;> simp [Quotation.read, other, lineEnd]

private theorem quotation_staysInLine {quote : Char} (other : quote ≠ '\n') {text : List Char}
    (ended : LineEnded text) (more : List Char) :
    Quotation.read quote (text ++ more) =
        { Quotation.read quote text with rest := (Quotation.read quote text).rest ++ more } ∧
      LineEnded (Quotation.read quote text).rest := by
  fun_induction Quotation.read quote text
  case case1 => exact absurd rfl ended.ne_nil
  case case2 => exact absurd rfl (ended.tail other).ne_nil
  case case3 c notQuote lineEnd => exact ⟨quotation_lineEnd notQuote lineEnd more, ended⟩
  case case4 c notQuote inside =>
    refine absurd rfl (ended.tail ?_).ne_nil
    rintro rfl
    exact inside (by decide)
  case case5 rest ih =>
    obtain ⟨same, restEnded⟩ := ih ((ended.tail other).tail other)
    simp [Quotation.read, Quotation.push, same, restEnded]
  case case6 d rest single =>
    simp [Quotation.read, single, ended.tail other]
  case case7 c d rest notQuote lineEnd => exact ⟨quotation_lineEnd notQuote lineEnd _, ended⟩
  case case8 c d rest notQuote inside ih =>
    have restEnded : LineEnded (d :: rest) := by
      refine ended.tail ?_
      rintro rfl
      exact inside (by decide)
    obtain ⟨same, leftEnded⟩ := ih restEnded
    rw [List.cons_append] at same
    simp [Quotation.read, Quotation.push, notQuote, inside, same, leftEnded]

private theorem string_staysInLine {quote : Char} (other : quote ≠ '\n') (kind : Kind) :
    StaysInLine (string quote kind) := by
  intro text ended more
  obtain ⟨same, restEnded⟩ := quotation_staysInLine other ended more
  simp only [string, same, true_and]
  exact restEnded

theorem pairOperator?_lineEnd (c : Char) {d : Char} (lineEnd : Fragment.isLineEnd d = true) :
    pairOperator? c d = none := by
  simp only [Fragment.isLineEnd, Bool.or_eq_true, beq_iff_eq] at lineEnd
  rw [Option.eq_none_iff_forall_ne_some]
  intro kind found
  have second := (mem_of_pairOperator? found).2
  rcases lineEnd with rfl | rfl <;> simp at second

private theorem operator_staysInLine (c : Char) : StaysInLine (operator c) := by
  intro rest ended more
  cases rest with
  | nil => exact absurd rfl ended.ne_nil
  | cons d after =>
    cases pair : pairOperator? c d with
    | none => simp [operator, pair, ended]
    | some kind =>
      have other : d ≠ '\n' := by
        rintro rfl
        simp [pairOperator?_lineEnd c (show Fragment.isLineEnd '\n' = true by decide)] at pair
      simp [operator, pair, ended.tail other]

theorem read_staysInLine (touchesOperand : Bool) {c : Char} {rest : List Char}
    (ended : LineEnded (c :: rest)) (other : c ≠ '\n') (more : List Char) :
    read touchesOperand (c :: rest ++ more) =
        ((read touchesOperand (c :: rest)).1, (read touchesOperand (c :: rest)).2 ++ more) ∧
      LineEnded (read touchesOperand (c :: rest)).2 := by
  have restEnded : LineEnded rest := ended.tail other
  have head : (rest ++ more).head? = rest.head? := by
    cases rest with
    | nil => exact absurd rfl restEnded.ne_nil
    | cons d after => rfl
  rw [List.cons_append]
  simp only [read, head]
  split
  · obtain ⟨taken, left, leftEnded⟩ :=
      restEnded.span_append (show isWordChar '\n' = false by decide) more
    simp [taken, left, leftEnded]
  split
  · exact number_staysInLine ended more
  split
  · split
    · exact ⟨rfl, restEnded⟩
    · rename_i quote _
      subst quote
      exact string_staysInLine (by decide) _ restEnded more
  split
  · rename_i quote
    subst quote
    exact string_staysInLine (by decide) _ restEnded more
  · exact operator_staysInLine c restEnded more

private theorem bareWord_staysInLine {grouped : Bool} {text : List Char}
    (ended : LineEnded text) (more : List Char) :
    bareWord grouped (text ++ more) = ((bareWord grouped text).1, (bareWord grouped text).2.1,
        (bareWord grouped text).2.2 ++ more) ∧
      LineEnded (bareWord grouped text).2.2 := by
  have apart {grouped : Bool} {c : Char} {rest : List Char} (ended : LineEnded rest)
      (single : ∀ after, grouped = true → c = '\'' → rest = '\'' :: after → False) :
      ∀ after, grouped = true → c = '\'' → rest ++ more = '\'' :: after → False := by
    intro after isGrouped quote same
    cases rest with
    | nil => exact ended.ne_nil rfl
    | cons d rest =>
      rw [List.cons_append, List.cons.injEq] at same
      exact single rest isGrouped quote (by rw [same.1])
  fun_induction bareWord grouped text
  case case1 => exact absurd rfl ended.ne_nil
  case case2 rest word content after whole ih =>
    obtain ⟨same, restEnded⟩ := ih ((ended.tail (by decide)).tail (by decide))
    rw [whole] at same restEnded
    simp [bareWord, same, restEnded]
  case case3 grouped c rest single stops =>
    have other : c ≠ '\'' := by
      rintro rfl
      revert stops
      cases grouped <;> decide
    rw [List.cons_append, bareWord]
    · simp [stops, ended]
    · intro after _ quote
      exact absurd quote other
  case case4 grouped rest word content after whole single inside ih =>
    have restEnded := ended.tail (by decide)
    obtain ⟨same, leftEnded⟩ := ih restEnded
    rw [whole] at same leftEnded
    rw [List.cons_append, bareWord]
    · simp [inside, same, leftEnded]
    · exact apart restEnded single
  case case5 grouped c rest single inside other word content after whole ih =>
    have restEnded := ended.tail (by
      rintro rfl
      revert inside
      cases grouped <;> decide)
    obtain ⟨same, leftEnded⟩ := ih restEnded
    rw [whole] at same leftEnded
    rw [List.cons_append, bareWord]
    · simp [inside, other, same, leftEnded]
    · exact apart restEnded single

theorem readBareWord_staysInLine : StaysInLine readBareWord := by
  intro text ended more
  obtain ⟨same, restEnded⟩ := @bareWord_staysInLine false text ended more
  simp only [readBareWord, same, true_and]
  exact restEnded

theorem binaryOperatorLength?_cases {c d : Char} {after : List Char} {length : Nat}
    (found : binaryOperatorLength? (c :: d :: after) = some length) :
    length = 1 ∨ length = 2 ∧ d ≠ '\n' := by
  cases pair : (pairOperator? c d).any (· != .dotApostrophe) with
  | true =>
    simp only [binaryOperatorLength?, List.head?_cons, Option.bind_some, pair, if_true,
      Option.some.injEq] at found
    refine Or.inr ⟨found.symm, ?_⟩
    rintro rfl
    simp [pairOperator?_lineEnd c (show Fragment.isLineEnd '\n' = true by decide)] at pair
  | false =>
    simp only [binaryOperatorLength?, List.head?_cons, Option.bind_some, pair, Bool.false_eq_true,
      if_false, Option.ite_none_right_eq_some, Option.some.injEq] at found
    exact Or.inl found.2.symm

theorem startsBareWord_append {text : List Char} (ended : LineEnded text) (more : List Char) :
    startsBareWord (text ++ more) = startsBareWord text := by
  cases text with
  | nil => exact absurd rfl ended.ne_nil
  | cons c rest =>
    by_cases first : c ∈ ['\n', '\r', ';', ',', '=', '(', '%']
    · simp only [startsBareWord, List.cons_append, first, if_true]
    · have restEnded : LineEnded rest := ended.tail (by rintro rfl; simp at first)
      cases rest with
      | nil => exact absurd rfl restEnded.ne_nil
      | cons d after =>
        have length : binaryOperatorLength? (c :: d :: (after ++ more)) =
            binaryOperatorLength? (c :: d :: after) := rfl
        simp only [startsBareWord, List.cons_append, first, if_false, length]
        cases operator : binaryOperatorLength? (c :: d :: after) with
        | none => rfl
        | some length =>
          obtain rfl | ⟨rfl, other⟩ := binaryOperatorLength?_cases operator
          · rfl
          · cases after with
            | nil => exact absurd rfl (restEnded.tail other).ne_nil
            | cons e after => rfl

end Lexeme

namespace Fragment

private theorem lineBreak_append_more {text : List Char} (ended : LineEnded text)
    (more : List Char) :
    lineBreak (text ++ more) = ((lineBreak text).1, (lineBreak text).2 ++ more) := by
  cases text with
  | nil => exact absurd rfl ended.ne_nil
  | cons c rest =>
    by_cases carriage : c = '\r'
    · subst carriage
      cases rest with
      | nil => exact absurd rfl (ended.tail (by decide)).ne_nil
      | cons d after => by_cases feed : d = '\n' <;> simp [lineBreak, feed, isLineEnd]
    · by_cases lineEnd : isLineEnd c <;> simp [lineBreak, carriage, lineEnd]

private theorem closesBlock_append {text : List Char} (ended : LineEnded text)
    (more : List Char) : closesBlock (text ++ more) = closesBlock text := by
  simp only [closesBlock, ended.firstLine_append]

private theorem opensBlock_append {text : List Char} (ended : LineEnded text)
    (more : List Char) : opensBlock (text ++ more) = opensBlock text := by
  cases text with
  | nil => exact absurd rfl ended.ne_nil
  | cons c rest =>
    by_cases brace : c = '\x7b'
    · subst brace
      simp only [List.cons_append, opensBlock]
      rw [(ended.tail (by decide)).firstLine_append]
    · simp [opensBlock, brace]

private theorem line_append {text : List Char} (ended : LineEnded text) (more : List Char) :
    line (text ++ more) = line text ∧ afterLine (text ++ more) = afterLine text ++ more ∧
      LineEnded (afterLine text) :=
  ended.span_append (by decide) more

private theorem blockComment_append_more {text : List Char} (ended : LineEnded text)
    (closed : (blockComment text).2.2 = true) (more : List Char) :
    blockComment (text ++ more) =
      ((blockComment text).1, (blockComment text).2.1 ++ more, true) := by
  have closer {rest : List Char} (closes : closesBlock rest = true) : rest ≠ [] := by
    rintro rfl
    exact absurd closes (by decide)
  have later {rest : List Char} (closed : (blockComment rest).2.2 = true) : rest ≠ [] := by
    rintro rfl
    simp [blockComment] at closed
  have apart {c : Char} {rest : List Char} (more' : rest ≠ [])
      (single : ∀ after, c = '\r' → rest = '\n' :: after → False) :
      ∀ after, c = '\r' → rest ++ more = '\n' :: after → False := by
    intro after carriage same
    cases rest with
    | nil => exact more' rfl
    | cons d rest =>
      rw [List.cons_append, List.cons.injEq] at same
      exact single rest carriage (by rw [same.1])
  fun_induction blockComment text
  case case1 => exact absurd rfl ended.ne_nil
  case case2 rest closes =>
    have restEnded : LineEnded rest :=
      LineEnded.of_append (show LineEnded (['\r', '\n'] ++ rest) from ended) (closer closes)
    obtain ⟨taken, left, -⟩ := line_append restEnded more
    simp [blockComment, closesBlock_append restEnded, closes, taken, left]
  case case3 rest goesOn text after isClosed whole ih =>
    simp only at closed
    subst closed
    have restClosed : (blockComment rest).2.2 = true := by rw [whole]
    have restEnded : LineEnded rest :=
      LineEnded.of_append (show LineEnded (['\r', '\n'] ++ rest) from ended) (later restClosed)
    have same := ih restEnded restClosed
    rw [whole] at same
    simp [blockComment, closesBlock_append restEnded, goesOn, same]
  case case4 c rest single closes =>
    simp only [Bool.and_eq_true] at closes
    have restEnded : LineEnded rest :=
      LineEnded.of_append (show LineEnded ([c] ++ rest) from ended) (closer closes.2)
    obtain ⟨taken, left, -⟩ := line_append restEnded more
    rw [List.cons_append, blockComment]
    · simp [closesBlock_append restEnded, closes, taken, left]
    · exact apart (closer closes.2) single
  case case5 c rest single goesOn text after isClosed whole ih =>
    simp only at closed
    subst closed
    have restClosed : (blockComment rest).2.2 = true := by rw [whole]
    have restEnded : LineEnded rest :=
      LineEnded.of_append (show LineEnded ([c] ++ rest) from ended) (later restClosed)
    have same := ih restEnded restClosed
    rw [whole] at same
    rw [List.cons_append, blockComment]
    · simp [closesBlock_append restEnded, goesOn, same]
    · exact apart (later restClosed) single

private theorem blockComment_open {text : List Char} (isOpen : (blockComment text).2.2 = false) :
    (blockComment text).2.1 = [] := by
  fun_induction blockComment text <;> simp_all

private theorem next?_append_more {atLineStart : Bool} {text rest : List Char}
    {fragment : Fragment} (ended : LineEnded text)
    (found : next? atLineStart text = some (fragment, rest))
    (more : List Char) (inside : rest ≠ [] ∨ fragment.kind = .newline) :
    next? atLineStart (text ++ more) = some (fragment, rest ++ more) := by
  revert found
  fun_cases next? atLineStart text
  all_goals intro found
  all_goals simp only [Option.some.injEq, Prod.mk.injEq, reduceCtorEq] at found
  all_goals obtain ⟨rfl, rfl⟩ := found
  case case1 rest => rfl
  case case2 rest single =>
    have restEnded : LineEnded rest := ended.tail (by decide)
    cases rest with
    | nil => exact absurd rfl restEnded.ne_nil
    | cons d after =>
      have other : d ≠ '\n' := fun feed => single after (by rw [feed])
      simp [next?, other]
  case case3 rest => rfl
  case case4 rest opens text after isClosed whole problem =>
    have restEnded : LineEnded rest := ended.tail (by decide)
    have closed : (blockComment rest).2.2 = true := by
      rw [← Bool.not_eq_false]
      intro isOpen
      have nothing := blockComment_open isOpen
      simp [whole] at nothing
      simp [nothing] at inside
    have same := blockComment_append_more restEnded closed more
    simp only [whole] at same closed
    simp only [List.cons_append, next?, opensBlock_append restEnded, opens, same, if_true,
      problem, closed]
  case case5 rest notBlock =>
    have restEnded : LineEnded rest := ended.tail (by decide)
    obtain ⟨taken, left, -⟩ := line_append restEnded more
    simp [next?, opensBlock_append restEnded, notBlock, taken, left]
  case case6 rest lineEnd after whole =>
    have restEnded : LineEnded rest :=
      ((ended.tail (by decide)).tail (by decide)).tail (by decide)
    obtain ⟨taken, left, leftEnded⟩ := line_append restEnded more
    have same := lineBreak_append_more leftEnded more
    rw [whole] at same
    simp [next?, taken, left, same]
  case case7 c rest _ notReturn notFeed notPercent _ horizontal =>
    obtain ⟨taken, left, -⟩ :=
      (ended.tail notFeed).span_append (show isHorizontal '\n' = false by decide) more
    have notPoint : c ≠ '.' := by
      rintro rfl
      simp [isHorizontal] at horizontal
    rw [List.cons_append, next?]
    · simp [horizontal, taken, left]
    · intro _ same
      exact absurd same notReturn
    · exact notReturn
    · exact notFeed
    · exact notPercent
    · intro _ same
      exact absurd same notPoint

private theorem next?_eq_none_append {atLineStart : Bool} {text : List Char}
    (ended : LineEnded text) (found : next? atLineStart text = none) (more : List Char) :
    next? atLineStart (text ++ more) = none := by
  revert found
  fun_cases next? atLineStart text
  all_goals intro found
  case case8 c rest _ notReturn notFeed notPercent notContinued other =>
    rw [List.cons_append, next?]
    · simp [other]
    · intro _ same
      exact absurd same notReturn
    · exact notReturn
    · exact notFeed
    · exact notPercent
    · rintro after rfl same
      have restEnded : LineEnded rest := ended.tail (by decide)
      -- The two points that would make a continuation stand before the line feed.
      match rest, restEnded, notContinued, same with
      | [_], feedEnded, _, same =>
        rw [List.cons_append, List.cons.injEq] at same
        exact absurd rfl (feedEnded.tail (by rw [same.1]; decide)).ne_nil
      | _ :: _ :: rest, _, notContinued, same =>
        simp only [List.cons_append, List.cons.injEq] at same
        exact notContinued rest rfl (by rw [same.1, same.2.1])
  case case9 => exact absurd rfl ended.ne_nil
  all_goals simp at found

theorem run_append_more {trailing atLineStart : Bool} {text : List Char} (ended : LineEnded text)
    (more : List Char)
    (inside : (run trailing atLineStart text).2 ≠ [] ∨
      trailing = true ∧ (run trailing atLineStart text).1.getLast?.any (·.kind == .newline)) :
    run trailing atLineStart (text ++ more) =
      ((run trailing atLineStart text).1, (run trailing atLineStart text).2 ++ more) := by
  fun_induction run trailing atLineStart text
  case case1 atLineStart text none =>
    rw [run_of_none (next?_eq_none_append ended none more)]
  case case2 atLineStart text fragment rest found stops =>
    have newline : fragment.kind = .newline := by
      simp only [Bool.and_eq_true, beq_iff_eq] at stops
      exact stops.2
    rw [run_of_some (next?_append_more ended found more (Or.inr newline)), if_pos stops]
  case case3 atLineStart text fragment rest found goesOn fragments after whole ih =>
    have left : rest ≠ [] := by
      rintro rfl
      rw [run_of_none (by simp [next?]), Prod.mk.injEq] at whole
      obtain ⟨rfl, rfl⟩ := whole
      rcases inside with inside | ⟨isTrailing, newline⟩
      · exact inside rfl
      · exact goesOn (by simpa [isTrailing] using newline)
    have restEnded : LineEnded rest := by
      obtain ⟨parts, -⟩ := next?_append found
      rw [← parts] at ended
      exact ended.of_append left
    have same := ih restEnded (by
      rw [whole]
      rcases inside with inside | ⟨isTrailing, newline⟩
      · exact Or.inl inside
      · cases fragments with
        | nil => exact absurd (by simpa [isTrailing] using newline) goesOn
        | cons _ _ => exact Or.inr ⟨isTrailing, by simpa using newline⟩)
    rw [run_of_some (next?_append_more ended found more (Or.inl left)), if_neg goesOn, same, whole]

theorem run_newline {trailing atLineStart : Bool} {text : List Char} :
    ∀ fragment ∈ (run trailing atLineStart text).1, fragment.kind = .newline →
      LineEnded fragment.text := by
  have single {atLineStart : Bool} {text rest : List Char} {fragment : Fragment}
      (found : next? atLineStart text = some (fragment, rest))
      (newline : fragment.kind = .newline) : LineEnded fragment.text := by
    revert found
    fun_cases next? atLineStart text
    all_goals intro found
    all_goals simp only [Option.some.injEq, Prod.mk.injEq, reduceCtorEq] at found
    all_goals obtain ⟨rfl, -⟩ := found
    case case1 => rfl
    case case3 => rfl
    all_goals simp at newline
  fun_induction run trailing atLineStart text
  case case1 => simp
  case case2 atLineStart text fragment rest found stops =>
    simp only [List.mem_singleton, forall_eq]
    exact single found
  case case3 atLineStart text fragment rest found goesOn fragments after whole ih =>
    rw [whole] at ih
    simp only [List.forall_mem_cons]
    exact ⟨single found, ih⟩

end Fragment

end MatrixScript
