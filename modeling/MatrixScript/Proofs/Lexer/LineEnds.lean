import MatrixScript.Proofs.Lexer.Line

/-!
Scanners of a text whose line breaks are written in two ways.

`Text.crlf` puts a carriage return in front of each line feed. No lexeme has a line end in it, so a
scanner of lexemes leaves the rest of the one text where it leaves that of the other; the carriage
return is seen only by the problem of an incomplete number, which names the character after it.
Trivia is parted at the same places if the text has no carriage returns of its own, since a lone one
counts as white space but ends a comment.
-/

set_option autoImplicit false

namespace MatrixScript

namespace Text

/-- A text with a carriage return in front of each line feed. -/
def crlf (text : List Char) : List Char :=
  text.flatMap fun c => if c = '\n' then ['\r', '\n'] else [c]

@[simp]
theorem crlf_nil : crlf [] = [] := rfl

@[simp]
theorem crlf_lineFeed (rest : List Char) : crlf ('\n' :: rest) = '\r' :: '\n' :: crlf rest := rfl

private theorem crlf_cons {c : Char} (other : c ≠ '\n') (rest : List Char) :
    crlf (c :: rest) = c :: crlf rest := by
  simp [crlf, other]

@[simp]
theorem crlf_append (front back : List Char) : crlf (front ++ back) = crlf front ++ crlf back := by
  simp [crlf]

@[simp]
theorem crlf_eq_nil_iff {text : List Char} : crlf text = [] ↔ text = [] := by
  cases text with
  | nil => simp
  | cons c rest => by_cases feed : c = '\n' <;> simp [feed, crlf_cons]

private theorem eq_cons_of_crlf {text after : List Char} {c : Char} (other : c ≠ '\r')
    (same : crlf text = c :: after) : ∃ rest, text = c :: rest ∧ crlf rest = after := by
  cases text with
  | nil => simp at same
  | cons d rest =>
    by_cases feed : d = '\n'
    · subst feed
      rw [crlf_lineFeed, List.cons.injEq] at same
      exact absurd same.1.symm other
    · rw [crlf_cons feed, List.cons.injEq] at same
      exact ⟨rest, by rw [same.1], same.2⟩

private theorem crlf_eq_self {text : List Char} (plain : '\n' ∉ text) : crlf text = text := by
  induction text with
  | nil => rfl
  | cons c rest ih =>
    rw [List.mem_cons, not_or] at plain
    rw [crlf_cons (Ne.symm plain.1), ih plain.2]

private theorem span_crlf {test : Char → Bool} (feed : test '\n' = false)
    (carriage : test '\r' = false)
    (text : List Char) :
    (crlf text).takeWhile test = text.takeWhile test ∧
      (crlf text).dropWhile test = crlf (text.dropWhile test) := by
  induction text with
  | nil => exact ⟨rfl, rfl⟩
  | cons c rest ih =>
    by_cases other : c = '\n'
    · subst other
      simp [feed, carriage]
    · rw [crlf_cons other]
      by_cases passes : test c <;> simp [passes, ih, crlf_cons other]

theorem any_head?_crlf {test : Char → Bool} (same : test '\r' = test '\n') (text : List Char) :
    (crlf text).head?.any test = text.head?.any test := by
  cases text with
  | nil => rfl
  | cons c rest =>
    by_cases feed : c = '\n'
    · subst feed
      exact same
    · simp [crlf_cons feed]

private theorem firstLine_crlf (text : List Char) :
    firstLine (crlf text) = firstLine text ∨ firstLine (crlf text) = firstLine text ++ ['\r'] := by
  induction text with
  | nil => exact Or.inl rfl
  | cons c rest ih =>
    by_cases feed : c = '\n'
    · subst feed
      exact Or.inr rfl
    · rw [crlf_cons feed]
      simpa [firstLine, feed] using ih

end Text

open Text (crlf crlf_cons span_crlf)

namespace Numeral

private theorem detachesPoint_crlf (text : List Char) :
    detachesPoint (crlf text) = detachesPoint text := by
  match text with
  | [] => rfl
  | c :: rest =>
    by_cases feed : c = '\n'
    · subst feed
      rfl
    · rw [crlf_cons feed]
      by_cases point : c = '.'
      · subst point
        cases rest with
        | nil => rfl
        | cons d after =>
          by_cases second : d = '.'
          · subst second
            rfl
          · by_cases feed : d = '\n'
            · subst feed
              rfl
            · simp [detachesPoint, crlf_cons feed, second]
      · simp [detachesPoint, point]

private theorem step_crlf (stage : Stage) (c : Char) (after : List Char) :
    step stage c (crlf after) = step stage c after := by
  cases stage <;> simp only [step, detachesPoint_crlf]

private theorem run_crlf (stage : Stage) (text : List Char) :
    run stage (crlf text) = { run stage text with rest := crlf (run stage text).rest } := by
  induction text generalizing stage with
  | nil => rfl
  | cons c after ih =>
    by_cases feed : c = '\n'
    · subst feed
      cases stage <;> rfl
    · rw [crlf_cons feed]
      cases move : step stage c after with
      | take next => simp [run, step_crlf, move, ih next, Scan.push]
      | stop => simp [run, step_crlf, move, crlf_cons feed]
      | suffix => simp [run, step_crlf, move]

end Numeral

/-- A problem as it is told of the text with carriage returns. -/
def Problem.crlf : Problem → Problem
  | .unexpectedCharacterInNumber c => .unexpectedCharacterInNumber (if c = '\n' then '\r' else c)
  | problem => problem

def Lexeme.crlf (lexeme : Lexeme) : Lexeme :=
  { lexeme with
    problem := lexeme.problem.map fun diagnostic => ⟨diagnostic.problem.crlf, diagnostic.range⟩ }

namespace Lexeme

private theorem number_crlf (text : List Char) :
    number (Text.crlf text) = ((number text).1.crlf, Text.crlf (number text).2) := by
  have next (rest : List Char) :
      (Text.crlf rest).headD '\x00' =
        (if rest.headD '\x00' = '\n' then '\r' else rest.headD '\x00') ∧
      Text.byteSize ((Text.crlf rest).take 1) = Text.byteSize (rest.take 1) := by
    cases rest with
    | nil => exact ⟨rfl, rfl⟩
    | cons c rest =>
      by_cases feed : c = '\n'
      · subst feed
        exact ⟨rfl, rfl⟩
      · simp [crlf_cons feed, feed]
  simp only [number, ofScan, Numeral.run_crlf, next, crlf]
  cases (Numeral.run .start text).ending <;> simp only [Option.map_some, Option.map_none,
    Problem.crlf]

private theorem quotation_lineEnd_crlf {quote c : Char} (notReturn : quote ≠ '\r')
    (other : c ≠ quote) (lineEnd : Fragment.isLineEnd c) (rest : List Char) :
    Quotation.read quote (Text.crlf (c :: rest)) = ⟨[], [], false, Text.crlf (c :: rest)⟩ := by
  by_cases feed : c = '\n'
  · subst feed
    exact quotation_lineEnd notReturn.symm (by decide) _
  · rw [crlf_cons feed]
    exact quotation_lineEnd other lineEnd _

private theorem quotation_crlf {quote : Char} (notFeed : quote ≠ '\n') (notReturn : quote ≠ '\r')
    (text : List Char) :
    Quotation.read quote (Text.crlf text) =
      { Quotation.read quote text with rest := Text.crlf (Quotation.read quote text).rest } := by
  fun_induction Quotation.read quote text
  case case1 => rfl
  case case2 => simp [crlf_cons notFeed, Quotation.read]
  case case3 c notQuote lineEnd => exact quotation_lineEnd_crlf notReturn notQuote lineEnd []
  case case4 c notQuote inside =>
    have other : c ≠ '\n' := by
      rintro rfl
      exact inside (by decide)
    simp [crlf_cons other, Quotation.read, notQuote, inside]
  case case5 rest ih => simp [crlf_cons notFeed, Quotation.read, Quotation.push, ih]
  case case6 d rest single =>
    rw [crlf_cons notFeed]
    by_cases feed : d = '\n'
    · subst feed
      simp [Quotation.read, notReturn.symm]
    · simp [crlf_cons feed, Quotation.read, single]
  case case7 c d rest notQuote lineEnd =>
    exact quotation_lineEnd_crlf notReturn notQuote lineEnd (d :: rest)
  case case8 c d rest notQuote inside ih =>
    have other : c ≠ '\n' := by
      rintro rfl
      exact inside (by decide)
    obtain ⟨e, after, more⟩ := List.exists_cons_of_ne_nil
      (mt Text.crlf_eq_nil_iff.mp (List.cons_ne_nil d rest))
    rw [crlf_cons other, more, Quotation.read, if_neg notQuote, if_neg inside, ← more, ih]
    rfl

private theorem string_crlf {quote : Char} (notFeed : quote ≠ '\n') (notReturn : quote ≠ '\r')
    (kind : Kind) (text : List Char) :
    string quote kind (Text.crlf text) =
      ((string quote kind text).1.crlf, Text.crlf (string quote kind text).2) := by
  simp only [string, quotation_crlf notFeed notReturn, crlf]
  by_cases closed : (Quotation.read quote text).closed = true
  · simp only [closed, if_true, Option.map_none]
  · simp only [closed, Bool.false_eq_true, if_false, Option.map_some, Problem.crlf]

private theorem symbol_crlf (c : Char) : (symbol c).crlf = symbol c := by
  unfold symbol
  split <;> rfl

private theorem operator_crlf (c : Char) (rest : List Char) :
    operator c (Text.crlf rest) = ((operator c rest).1.crlf, Text.crlf (operator c rest).2) := by
  cases rest with
  | nil => simp [operator, symbol_crlf]
  | cons d after =>
    by_cases feed : d = '\n'
    · subst feed
      simp [operator, symbol_crlf, pairOperator?_lineEnd c (show Fragment.isLineEnd '\n' by decide),
        pairOperator?_lineEnd c (show Fragment.isLineEnd '\r' by decide)]
    · rw [crlf_cons feed]
      cases pair : pairOperator? c d with
      | none => simp [operator, pair, symbol_crlf, crlf_cons feed]
      | some kind => simp [operator, pair, crlf]

theorem read_crlf (touchesOperand : Bool) {text : List Char} (other : text.head? ≠ some '\n') :
    read touchesOperand (Text.crlf text) =
      ((read touchesOperand text).1.crlf, Text.crlf (read touchesOperand text).2) := by
  cases text with
  | nil => rfl
  | cons c rest =>
    have notFeed : c ≠ '\n' := fun feed => other (by rw [feed, List.head?_cons])
    have head : (Text.crlf rest).head?.any Char.isDigit = rest.head?.any Char.isDigit :=
      Text.any_head?_crlf (by decide) rest
    have digits := number_crlf (c :: rest)
    rw [crlf_cons notFeed] at digits ⊢
    simp only [read, head]
    split
    · obtain ⟨taken, left⟩ := @span_crlf isWordChar (by decide) (by decide) rest
      simp [taken, left, crlf]
    split
    · exact digits
    split
    · split
      · rfl
      · rename_i quote _
        subst quote
        exact string_crlf (by decide) (by decide) _ rest
    split
    · rename_i quote
      subst quote
      exact string_crlf (by decide) (by decide) _ rest
    · exact operator_crlf c rest

private theorem bareWord_stops {grouped : Bool} {c : Char} (rest : List Char)
    (stops : (if grouped then Fragment.isLineEnd c else endsBareWord c) = true) :
    bareWord grouped (c :: rest) = ([], [], c :: rest) := by
  have other : c ≠ '\'' := by
    rintro rfl
    revert stops
    cases grouped <;> decide
  rw [bareWord]
  · rw [if_pos stops]
  · intro after _ quote
    exact absurd quote other

private theorem bareWord_crlf (grouped : Bool) (text : List Char) :
    bareWord grouped (Text.crlf text) = ((bareWord grouped text).1, (bareWord grouped text).2.1,
      Text.crlf (bareWord grouped text).2.2) := by
  -- A quote that is not doubled in the text is not doubled with carriage returns in it.
  have apart {grouped : Bool} {c : Char} {rest : List Char}
      (single : ∀ after, grouped = true → c = '\'' → rest = '\'' :: after → False) :
      ∀ after, grouped = true → c = '\'' → Text.crlf rest = '\'' :: after → False := by
    intro after isGrouped quote same
    obtain ⟨rest, rfl, -⟩ := Text.eq_cons_of_crlf (by decide) same
    exact single rest isGrouped quote rfl
  fun_induction bareWord grouped text
  case case1 => simp [bareWord]
  case case2 rest word content after whole ih =>
    rw [whole] at ih
    simp [crlf_cons, bareWord, ih]
  case case3 grouped c rest single stops =>
    by_cases feed : c = '\n'
    · subst feed
      exact bareWord_stops ('\n' :: Text.crlf rest) (by cases grouped <;> decide)
    · rw [crlf_cons feed]
      exact bareWord_stops (Text.crlf rest) stops
  case case4 grouped rest word content after whole single inside ih =>
    rw [whole] at ih
    rw [crlf_cons (by decide), bareWord]
    · simp [inside, ih]
    · exact apart single
  case case5 grouped c rest single inside other word content after whole ih =>
    have notFeed : c ≠ '\n' := by
      rintro rfl
      revert inside
      cases grouped <;> decide
    rw [whole] at ih
    rw [crlf_cons notFeed, bareWord]
    · simp [inside, other, ih]
    · exact apart single

theorem readBareWord_crlf (text : List Char) :
    readBareWord (Text.crlf text) =
      ((readBareWord text).1.crlf, Text.crlf (readBareWord text).2) := by
  simp only [readBareWord, bareWord_crlf, crlf, Option.map_none]

private theorem binaryOperatorLength?_crlf (c : Char) (rest : List Char) :
    binaryOperatorLength? (c :: Text.crlf rest) = binaryOperatorLength? (c :: rest) := by
  have pair : ((Text.crlf rest).head?.bind fun d => pairOperator? c d) =
      rest.head?.bind fun d => pairOperator? c d := by
    cases rest with
    | nil => rfl
    | cons d after =>
      by_cases feed : d = '\n'
      · subst feed
        simp [pairOperator?_lineEnd c (show Fragment.isLineEnd '\n' by decide),
          pairOperator?_lineEnd c (show Fragment.isLineEnd '\r' by decide)]
      · simp [crlf_cons feed]
  simp only [binaryOperatorLength?, pair]

theorem startsBareWord_crlf (text : List Char) :
    startsBareWord (Text.crlf text) = startsBareWord text := by
  have visible (rest : List Char) :
      ((Text.crlf rest).head?.any fun next => !Text.isBlank next && next != '\x00') =
        rest.head?.any fun next => !Text.isBlank next && next != '\x00' :=
    Text.any_head?_crlf (by decide) rest
  cases text with
  | nil => rfl
  | cons c rest =>
    by_cases feed : c = '\n'
    · subst feed
      rfl
    · rw [crlf_cons feed]
      by_cases first : c ∈ ['\n', '\r', ';', ',', '=', '(', '%']
      · simp only [startsBareWord, first, if_true]
      · simp only [startsBareWord, first, if_false, binaryOperatorLength?_crlf c]
        cases operator : binaryOperatorLength? (c :: rest) with
        | none => rfl
        | some length =>
          cases rest with
          | nil => rfl
          | cons d after =>
            obtain rfl | ⟨rfl, other⟩ := binaryOperatorLength?_cases operator
            · simpa [List.head?_eq_getElem?] using visible (d :: after)
            · simpa [crlf_cons other, List.head?_eq_getElem?] using visible after

end Lexeme

namespace Text

private theorem trim_append_blank {c : Char} (blank : isBlank c = true) (text : List Char) :
    trim (text ++ [c]) = trim text := by
  unfold trim
  rw [List.dropWhile_append]
  split
  · rename_i nothing
    rw [List.isEmpty_iff] at nothing
    simp [nothing, blank]
  · simp [blank]

private theorem crlf_takeWhile {test : Char → Bool} (feed : test '\n' = false) (text : List Char) :
    crlf (text.takeWhile test) = text.takeWhile test := by
  refine crlf_eq_self fun inside => ?_
  rw [List.all_eq_true.mp List.all_takeWhile _ inside] at feed
  exact absurd feed (by decide)

end Text

/-- A stretch of trivia as it is read off the text with carriage returns. -/
def Fragment.crlf (fragment : Fragment) : Fragment where
  kind := fragment.kind
  text := Text.crlf fragment.text
  problem := fragment.problem.map Problem.crlf

namespace Fragment

@[simp]
theorem kind_crlf (fragment : Fragment) : fragment.crlf.kind = fragment.kind := rfl

private theorem line_crlf (text : List Char) :
    line (Text.crlf text) = line text ∧ afterLine (Text.crlf text) = Text.crlf (afterLine text) :=
  span_crlf (by decide) (by decide) text

private theorem closesBlock_crlf (text : List Char) :
    closesBlock (Text.crlf text) = closesBlock text := by
  unfold closesBlock
  obtain same | longer := Text.firstLine_crlf text
  · rw [same]
  · rw [longer, Text.trim_append_blank (by decide)]

private theorem opensBlock_crlf (text : List Char) :
    opensBlock (Text.crlf text) = opensBlock text := by
  cases text with
  | nil => rfl
  | cons c rest =>
    by_cases feed : c = '\n'
    · subst feed
      rfl
    · rw [crlf_cons feed]
      by_cases brace : c = '\x7b'
      · subst brace
        simp only [opensBlock]
        obtain same | longer := Text.firstLine_crlf rest
        · rw [same]
        · rw [longer, List.all_append]
          simp [show Text.isBlank '\r' = true by decide]
      · simp [opensBlock, brace]

private theorem blockComment_lineBreak (rest : List Char) :
    blockComment ('\r' :: '\n' :: rest) =
      ('\r' :: (blockComment ('\n' :: rest)).1, (blockComment ('\n' :: rest)).2) := by
  rw [blockComment, blockComment]
  · by_cases closes : closesBlock rest = true <;> simp [closes, isLineEnd]
  · simp

private theorem blockComment_inside {c : Char} (inside : isLineEnd c = false) (rest : List Char) :
    blockComment (c :: rest) = (c :: (blockComment rest).1, (blockComment rest).2) := by
  rw [blockComment]
  · simp [inside]
  · rintro _ rfl
    simp [isLineEnd] at inside

private theorem blockComment_crlf {text : List Char} (plain : '\r' ∉ text) :
    blockComment (Text.crlf text) =
      (Text.crlf (blockComment text).1, Text.crlf (blockComment text).2.1,
        (blockComment text).2.2) := by
  induction text with
  | nil => simp [blockComment]
  | cons c rest ih =>
    rw [List.mem_cons, not_or] at plain
    obtain ⟨taken, left⟩ := line_crlf rest
    by_cases feed : c = '\n'
    · subst feed
      have goesOn (rest : List Char) : blockComment ('\n' :: rest) =
          if closesBlock rest then ('\n' :: line rest, afterLine rest, true)
          else ('\n' :: (blockComment rest).1, (blockComment rest).2) := by
        rw [blockComment]
        · simp [isLineEnd]
        · simp
      rw [Text.crlf_lineFeed, blockComment_lineBreak, goesOn, goesOn, closesBlock_crlf, ih plain.2,
        taken, left]
      by_cases closes : closesBlock rest = true
      · have stays : Text.crlf (line rest) = line rest :=
          Text.crlf_takeWhile (by decide) rest
        simp [closes, stays]
      · simp [closes]
    · have inside : isLineEnd c = false := by simp [isLineEnd, feed, Ne.symm plain.1]
      rw [crlf_cons feed, blockComment_inside inside, blockComment_inside inside, ih plain.2,
        crlf_cons feed]

private theorem lineBreak_crlf {text : List Char} (plain : '\r' ∉ text) :
    lineBreak (Text.crlf text) = (Text.crlf (lineBreak text).1, Text.crlf (lineBreak text).2) := by
  cases text with
  | nil => simp [lineBreak]
  | cons c rest =>
    rw [List.mem_cons, not_or] at plain
    by_cases feed : c = '\n'
    · subst feed
      simp [lineBreak, isLineEnd]
    · simp [crlf_cons feed, lineBreak, isLineEnd, feed, Ne.symm plain.1]

private theorem next?_crlf {atLineStart : Bool} {text rest : List Char} {fragment : Fragment}
    (plain : '\r' ∉ text) (found : next? atLineStart text = some (fragment, rest)) :
    next? atLineStart (Text.crlf text) = some (fragment.crlf, Text.crlf rest) := by
  have stays (text : List Char) : Text.crlf (line text) = line text :=
    Text.crlf_takeWhile (by decide) text
  revert found
  fun_cases next? atLineStart text
  all_goals intro found
  all_goals simp only [Option.some.injEq, Prod.mk.injEq, reduceCtorEq] at found
  all_goals obtain ⟨rfl, rfl⟩ := found
  case case1 => simp at plain
  case case2 => simp at plain
  case case3 rest => rfl
  case case4 rest opens text after isClosed whole problem =>
    have same := @blockComment_crlf rest fun inside => plain (List.mem_cons_of_mem _ inside)
    rw [whole] at same
    rw [crlf_cons (by decide), next?]
    simp only [opensBlock_crlf, opens, same, if_true, problem, crlf]
    rw [crlf_cons (by decide)]
    cases isClosed <;> rfl
  case case5 rest notBlock =>
    obtain ⟨taken, left⟩ := line_crlf rest
    rw [crlf_cons (by decide), next?]
    simp [opensBlock_crlf, notBlock, taken, left, crlf, crlf_cons, stays]
  case case6 rest lineEnd after whole =>
    obtain ⟨taken, left⟩ := line_crlf rest
    have same := @lineBreak_crlf (afterLine rest) (by
      intro inside
      have later : '\r' ∈ rest := by
        rw [← line_append_afterLine rest]
        exact List.mem_append_right _ inside
      exact plain (by simp [later]))
    rw [whole] at same
    simp [crlf_cons, next?, taken, left, same, crlf, stays]
  case case7 c rest _ notReturn notFeed notPercent _ horizontal =>
    obtain ⟨taken, left⟩ := @span_crlf isHorizontal (by decide) (by decide) rest
    have notPoint : c ≠ '.' := by
      rintro rfl
      simp [isHorizontal] at horizontal
    rw [crlf_cons notFeed, next?]
    · simp [horizontal, taken, left, crlf, crlf_cons notFeed,
        @Text.crlf_takeWhile isHorizontal (by decide)]
    · intro _ same
      exact absurd same notReturn
    · exact notReturn
    · exact notFeed
    · exact notPercent
    · intro _ same
      exact absurd same notPoint

private theorem next?_crlf_eq_none {atLineStart : Bool} {text : List Char}
    (found : next? atLineStart text = none) : next? atLineStart (Text.crlf text) = none := by
  revert found
  fun_cases next? atLineStart text
  all_goals intro found
  case case8 c rest _ notReturn notFeed notPercent notContinued other =>
    rw [crlf_cons notFeed, next?]
    · simp [other]
    · intro _ same
      exact absurd same notReturn
    · exact notReturn
    · exact notFeed
    · exact notPercent
    · rintro after rfl same
      obtain ⟨rest, rfl, second⟩ := Text.eq_cons_of_crlf (by decide) same
      obtain ⟨rest, rfl, -⟩ := Text.eq_cons_of_crlf (by decide) second
      exact notContinued rest rfl rfl
  case case9 => rfl
  all_goals simp at found

theorem run_crlf {trailing atLineStart : Bool} {text : List Char} (plain : '\r' ∉ text) :
    run trailing atLineStart (Text.crlf text) =
      ((run trailing atLineStart text).1.map crlf,
        Text.crlf (run trailing atLineStart text).2) := by
  fun_induction run trailing atLineStart text
  case case1 atLineStart text none => exact run_of_none (next?_crlf_eq_none none)
  case case2 atLineStart text fragment rest found stops =>
    rw [run_of_some (next?_crlf plain found), kind_crlf, if_pos stops]
    rfl
  case case3 atLineStart text fragment rest found goesOn fragments after whole ih =>
    have later : '\r' ∉ rest := by
      rw [← (next?_append found).1, List.mem_append, not_or] at plain
      exact plain.2
    have same := ih later
    rw [whole] at same
    rw [run_of_some (next?_crlf plain found), kind_crlf, if_neg goesOn, same, List.map_cons]

end Fragment

end MatrixScript
