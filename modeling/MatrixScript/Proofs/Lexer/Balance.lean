import MatrixScript.Proofs.Lexer.History

/-!
Brackets decide whether a text can be cut into tokens.

`PlacedToken.unclosed` picks out of some tokens the opening brackets that nothing after them closes,
and the open brackets of a lexer are exactly those, with their ranges. A text can be cut into tokens
just where the bracket tokens that are read make up a well-nested word. Otherwise cutting stops at
the first closing bracket that does not match the innermost open one, or at the end of the text with
the innermost open one. A bracket in trivia, in a string or in a word of a command is no token and
takes no part.
-/

set_option autoImplicit false

namespace MatrixScript

namespace Kind

def isBracket (kind : Kind) : Bool := kind.isOpening || kind.isClosing

def ofBracket? (c : Char) : Option Kind := (ofFixedText? [c]).filter isBracket

def isText : Kind → Bool
  | .stringLiteral | .doubleQuotedStringLiteral | .unquotedStringLiteral => true
  | _ => false

/-- A significant part of a kind keeps to the brackets of that kind: a bracket is one character, and
the only other parts with brackets in them are strings and words of commands. -/
structure KeepsBrackets (kind : Kind) (word : List Char) : Prop where
  bracket : kind.isBracket = true → ∃ c, word = [c] ∧ ofBracket? c = some kind
  other : kind.isBracket = false → (∃ c ∈ word, (ofBracket? c).isSome = true) →
    kind.isText = true

/-- A word over brackets in which each bracket has its partner. -/
inductive WellNested : List Kind → Prop
  | nil : WellNested []
  | cons {opening closing : Kind} {inside after : List Kind} :
    opening.closing? = some closing → WellNested inside → WellNested after →
      WellNested (opening :: (inside ++ closing :: after))

variable {kind opening closing : Kind} {kinds opened : List Kind}

private theorem not_isClosing_of_isOpening (opens : kind.isOpening = true) :
    kind.isClosing = false := by
  cases kind <;> first | rfl | cases opens

private theorem mem_of_ofBracket? {c : Char} (spells : (ofBracket? c).isSome = true) :
    c ∈ ['(', ')', '[', ']', '\x7b', '\x7d'] := by
  obtain ⟨kind, found⟩ := Option.isSome_iff_exists.mp spells
  obtain ⟨fixed, bracket⟩ := Option.filter_eq_some_iff.mp found
  have spelled := ofFixedText?_eq_some_iff.mp fixed
  cases kind <;> first
    | exact absurd bracket (by decide)
    | (simp only [fixedText?, Option.some.injEq, List.cons.injEq, and_true] at spelled
       subst spelled
       decide)

private theorem WellNested.openAfterAll? (nested : WellNested kinds) (opened : List Kind) :
    Kind.openAfterAll? kinds opened = some opened := by
  induction nested generalizing opened with
  | nil => rfl
  | @cons opening closing inside after partner _ _ within later =>
    obtain ⟨opens, closes⟩ := isOpening_of_closing? partner
    have ends : closing.openAfter? (opening :: opened) = some opened :=
      (openAfter?_of_closing closes).mpr ⟨opening, rfl, partner⟩
    rw [Kind.openAfterAll?, openAfter?_of_opening opens, Option.bind_some, openAfterAll?_append,
      within, Option.bind_some, Kind.openAfterAll?, ends, Option.bind_some, later]

/-- A word that closes each open bracket, and is well-nested before, between and after. -/
def Closes : List Kind → List Kind → Prop
  | [], kinds => WellNested kinds
  | opening :: outer, kinds => ∃ inside closing after, kinds = inside ++ closing :: after ∧
      WellNested inside ∧ opening.closing? = some closing ∧ Closes outer after

private theorem Closes.cons {inside after : List Kind} (partner : opening.closing? = some closing)
    (nested : WellNested inside) (closes : Closes opened after) :
    Closes opened (opening :: (inside ++ closing :: after)) := by
  cases opened with
  | nil => exact .cons partner nested closes
  | cons first outer =>
    obtain ⟨inner, ending, rest, rfl, within, same, later⟩ := closes
    exact ⟨opening :: (inside ++ closing :: inner), ending, rest, by simp,
      .cons partner nested within, same, later⟩

private theorem closes_of_closeAll (brackets : ∀ kind ∈ kinds, kind.isBracket = true)
    (closeAll : CloseAll kinds opened) : Closes opened kinds := by
  induction kinds generalizing opened with
  | nil =>
    obtain rfl := closeAll_nil.mp closeAll
    exact .nil
  | cons kind kinds ih =>
    rw [List.forall_mem_cons] at brackets
    obtain ⟨after, steps, later⟩ := closeAll_cons.mp closeAll
    have rest := ih brackets.2 later
    cases opens : kind.isOpening with
    | true =>
      rw [openAfter?_of_opening opens, Option.some.injEq] at steps
      subst steps
      obtain ⟨inside, closing, after, rfl, nested, partner, outer⟩ := rest
      exact outer.cons partner nested
    | false =>
      have closes : kind.isClosing = true := by simpa [isBracket, opens] using brackets.1
      obtain ⟨opening, rfl, partner⟩ := (openAfter?_of_closing closes).mp steps
      exact ⟨[], kind, kinds, rfl, .nil, partner, rest⟩

private theorem openAfterAll?_filter (kinds opened : List Kind) :
    openAfterAll? (kinds.filter isBracket) opened = openAfterAll? kinds opened := by
  induction kinds generalizing opened with
  | nil => rfl
  | cons kind kinds ih =>
    cases bracket : kind.isBracket with
    | true =>
      rw [List.filter_cons_of_pos bracket, openAfterAll?, openAfterAll?]
      exact congrArg _ (funext ih)
    | false =>
      have other : kind.isOpening = false ∧ kind.isClosing = false := by
        simpa [isBracket] using bracket
      rw [List.filter_cons_of_neg (by simp [bracket]), ih, openAfterAll?,
        openAfter?_of_other other.1 other.2, Option.bind_some]

private theorem wellNested_iff_closeAll (kinds : List Kind) :
    WellNested (kinds.filter isBracket) ↔ CloseAll kinds [] := by
  constructor
  · intro nested
    rw [CloseAll, ← openAfterAll?_filter]
    exact nested.openAfterAll? []
  · intro closeAll
    rw [CloseAll, ← openAfterAll?_filter] at closeAll
    exact closes_of_closeAll (fun kind member => (List.mem_filter.mp member).2) closeAll

end Kind

namespace PlacedToken

/-- How many closing brackets among some tokens have no opening one before them. -/
def unopened : List PlacedToken → Nat
  | [] => 0
  | placed :: later =>
    if placed.kind.isOpening then unopened later - 1
    else if placed.kind.isClosing then unopened later + 1
    else unopened later

/-- The opening brackets among some tokens that nothing after them closes, in order. -/
def unclosed : List PlacedToken → List PlacedToken
  | [] => []
  | placed :: later =>
    if placed.kind.isOpening = true ∧ unopened later = 0 then placed :: unclosed later
    else unclosed later

/-- The kind of a token and the range of its significant part. -/
def bracket (placed : PlacedToken) : Kind × Range := (placed.kind, placed.range)

variable {placed : PlacedToken}

theorem unclosed_concat_of_other (notBracket : placed.kind.isBracket = false)
    (past : List PlacedToken) : unopened (past ++ [placed]) = unopened past ∧
      unclosed (past ++ [placed]) = unclosed past := by
  have other : placed.kind.isOpening = false ∧ placed.kind.isClosing = false := by
    simpa [Kind.isBracket] using notBracket
  induction past with
  | nil => simp [unopened, unclosed, other]
  | cons first past ih => simp [unopened, unclosed, ih]

private theorem unclosed_concat_of_opening (opens : placed.kind.isOpening = true)
    (past : List PlacedToken) : unopened (past ++ [placed]) = unopened past ∧
      unclosed (past ++ [placed]) = unclosed past ++ [placed] := by
  induction past with
  | nil => simp [unopened, unclosed, opens]
  | cons first past ih =>
    simp only [List.cons_append, unopened, unclosed, ih, true_and]
    split <;> rfl

private theorem unclosed_concat_of_closing (closes : placed.kind.isClosing = true)
    (past : List PlacedToken) :
    unopened (past ++ [placed]) = unopened past + (if unclosed past = [] then 1 else 0) ∧
      unclosed (past ++ [placed]) = (unclosed past).dropLast := by
  have notOpening : placed.kind.isOpening = false := by
    rw [← Bool.not_eq_true]
    intro opens
    rw [Kind.not_isClosing_of_isOpening opens] at closes
    cases closes
  induction past with
  | nil => simp [unopened, unclosed, closes, notOpening]
  | cons first past ih =>
    obtain ⟨count, rest⟩ := ih
    simp only [List.cons_append, unopened, unclosed, count, rest]
    by_cases inner : unclosed past = []
    · -- The new bracket closes `first` itself, if that is an open bracket.
      by_cases opens : first.kind.isOpening = true
      · by_cases balanced : unopened past = 0
        · simp [inner, opens, balanced]
        · simp only [inner, opens, balanced, if_true, and_false, if_false]
          exact ⟨by omega, by simp⟩
      · by_cases closes : first.kind.isClosing = true <;> simp [inner, opens, closes]
    · by_cases opens : first.kind.isOpening = true
      · by_cases balanced : unopened past = 0
        · simp [inner, opens, balanced, List.dropLast_cons_of_ne_nil]
        · simp [inner, opens, balanced]
      · simp [inner, opens]

/-- A closing bracket that does not match the innermost open one, or closes nothing. -/
def Mismatch (past : List PlacedToken) (placed : PlacedToken) : Prop :=
  placed.kind.isClosing = true ∧
    ∀ opening ∈ (unclosed past).getLast?, opening.kind.closing? ≠ some placed.kind

end PlacedToken

def Numeral.isLetter (c : Char) : Bool := c.isAlphanum || c == '.' || c == '+' || c == '-'

namespace Numeral

private theorem close_isLetter {c : Char} (move : close c ≠ .stop) : isLetter c = true := by
  unfold close at move
  split at move
  · rename_i suffix
    simp only [isSuffix, Bool.or_eq_true, beq_iff_eq] at suffix
    rcases suffix with ((rfl | rfl) | rfl) | rfl <;> decide
  · exact absurd rfl move

private theorem step_isLetter {stage : Stage} {c : Char} {after : List Char}
    (move : step stage c after ≠ .stop) : isLetter c = true := by
  by_cases digit : c.isDigit = true
  · simp [isLetter, Char.isAlphanum, digit]
  · by_cases mark : c ∈ ['.', 'e', 'E', '+', '-']
    · exact List.all_eq_true.mp (by decide) c mark
    · simp only [List.mem_cons, List.not_mem_nil, or_false, not_or] at mark
      cases stage <;> simp [step, digit, mark] at move
      all_goals exact close_isLetter move

private theorem run_isLetter (stage : Stage) (text : List Char) :
    ((run stage text).taken ++ (run stage text).ending.suffix).all isLetter = true := by
  have silent (stage : Stage) : stage.ending.suffix = [] := by cases stage <;> rfl
  induction text generalizing stage with
  | nil => simp [run, silent]
  | cons c after ih =>
    cases move : step stage c after with
    | take next =>
      have letter : isLetter c = true := step_isLetter (by rw [move]; exact Move.noConfusion)
      simpa [run_of_take move, Scan.push, letter] using ih next
    | stop => simp [run_of_stop move, silent]
    | suffix =>
      have letter : isLetter c = true := step_isLetter (by rw [move]; exact Move.noConfusion)
      simp [run_of_suffix move, Ending.suffix, letter]

end Numeral

namespace Lexeme

private theorem keepsBrackets_of_all {kind : Kind} {word : List Char}
    (notBracket : kind.isBracket = false)
    (plain : ∀ c ∈ word, c ∉ ['(', ')', '[', ']', '\x7b', '\x7d']) : kind.KeepsBrackets word where
  bracket isBracket := by
    rw [notBracket] at isBracket
    cases isBracket
  other _ found := by
    obtain ⟨c, member, spells⟩ := found
    exact absurd (Kind.mem_of_ofBracket? spells) (plain c member)

private theorem keepsBrackets_of_isText {kind : Kind} (isText : kind.isText = true)
    (word : List Char) :
    kind.KeepsBrackets word where
  bracket isBracket := by
    cases kind <;> first
      | exact absurd isText (by decide)
      | exact absurd isBracket (by decide)
  other _ _ := isText

private theorem symbol_keepsBrackets (c : Char) :
    (symbol c).kind.KeepsBrackets (symbol c).text := by
  unfold symbol
  rw [singleOperator?_eq]
  split
  case h_1 kind found =>
    constructor
    · intro isBracket
      exact ⟨c, rfl, by simp [Kind.ofBracket?, found, isBracket]⟩
    · rintro notBracket ⟨d, member, spells⟩
      obtain rfl := List.mem_singleton.mp member
      simp [Kind.ofBracket?, found, notBracket] at spells
  case h_2 none =>
    constructor
    · intro isBracket
      cases isBracket
    · rintro - ⟨d, member, spells⟩
      obtain rfl := List.mem_singleton.mp member
      simp [Kind.ofBracket?, none] at spells

private theorem pair_keepsBrackets {c d : Char} {kind : Kind}
    (found : pairOperator? c d = some kind) : kind.KeepsBrackets [c, d] := by
  have spelled := pairOperator?_eq_some_iff.mp found
  cases kind <;> simp only [Kind.fixedText?, Option.some.injEq, List.cons.injEq, and_true,
    reduceCtorEq, and_false] at spelled
  all_goals
    obtain ⟨rfl, rfl⟩ := spelled
    exact keepsBrackets_of_all rfl (by simp)

private theorem operator_keepsBrackets (c : Char) (rest : List Char) :
    (operator c rest).1.kind.KeepsBrackets (operator c rest).1.text := by
  fun_cases operator c rest
  case case1 d rest kind found => exact pair_keepsBrackets found
  case case2 => exact symbol_keepsBrackets c
  case case3 => exact symbol_keepsBrackets c

private theorem read_keepsBrackets (touchesOperand : Bool) (text : List Char) :
    (read touchesOperand text).1.kind.KeepsBrackets (read touchesOperand text).1.text := by
  have plain (test : Char → Bool) (none : ['(', ')', '[', ']', '\x7b', '\x7d'].any test = false)
      {word : List Char} (all : word.all test = true) :
      ∀ c ∈ word, c ∉ ['(', ')', '[', ']', '\x7b', '\x7d'] := fun c member bracket =>
    List.any_eq_false.mp none c bracket (List.all_eq_true.mp all c member)
  fun_cases read touchesOperand text
  case case1 => exact keepsBrackets_of_all rfl (by simp)
  case case2 c rest letter =>
    refine keepsBrackets_of_all rfl (plain isWordChar (by decide) ?_)
    simp [isWordChar, Char.isAlphanum, letter, List.all_takeWhile]
  case case3 c rest _ _ =>
    exact keepsBrackets_of_all rfl (plain _ (by decide) (Numeral.run_isLetter .start (c :: rest)))
  case case4 => exact keepsBrackets_of_all rfl (by simp)
  case case5 => exact keepsBrackets_of_isText rfl _
  case case6 => exact keepsBrackets_of_isText rfl _
  case case7 c rest _ _ _ _ => exact operator_keepsBrackets c rest

end Lexeme

private theorem Context.readLexeme_keepsBrackets (context : Context) (text : List Char) :
    (context.readLexeme text).1.kind.KeepsBrackets (context.readLexeme text).1.text := by
  unfold readLexeme
  split
  · exact Lexeme.keepsBrackets_of_isText rfl _
  · exact Lexeme.read_keepsBrackets _ _

open PlacedToken (unclosed bracket Mismatch)

namespace Context

variable {brackets after : List (Kind × Range)} {kind : Kind} {range : Range}

private theorem matchBracket_ok_cases (matched : matchBracket brackets kind range = .ok after) :
    kind.isOpening = true ∧ after = (kind, range) :: brackets ∨
      (kind.isClosing = true ∧ ∃ innermost, brackets = innermost :: after ∧
        innermost.1.closing? = some kind) ∨
      kind.isBracket = false ∧ after = brackets := by
  unfold matchBracket at matched
  split at matched
  case isTrue opens => exact Or.inl ⟨opens, (Except.ok.inj matched).symm⟩
  case isFalse notOpening =>
    split at matched
    case isTrue closes =>
      refine Or.inr (Or.inl ⟨closes, ?_⟩)
      split at matched
      · split at matched
        · rw [← Except.ok.inj matched]
          exact ⟨_, rfl, ‹_›⟩
        · cases matched
      · cases matched
    case isFalse notClosing =>
      refine Or.inr (Or.inr ⟨by simp [Kind.isBracket, notOpening, notClosing], ?_⟩)
      split at matched
      · split at matched
        · cases matched
        · exact (Except.ok.inj matched).symm
      · exact (Except.ok.inj matched).symm

private theorem matchBracket_error_cases {failure : Failure}
    (failed : matchBracket brackets kind range = .error failure) :
    (kind.isClosing = true ∧ (∀ innermost ∈ brackets.head?, innermost.1.closing? ≠ some kind) ∧
        failure = ⟨⟨.unmatchedClosingBracket kind, range⟩⟩) ∨
      kind = .eof ∧ ∃ innermost ∈ brackets.head?,
        failure = ⟨⟨.unmatchedOpeningBracket innermost.1, innermost.2⟩⟩ := by
  unfold matchBracket at failed
  split at failed
  · cases failed
  split at failed
  case isTrue closes =>
    refine Or.inl ⟨closes, ?_⟩
    split at failed
    · split at failed
      · cases failed
      · exact ⟨by simpa using ‹_›, (Except.error.inj failed).symm⟩
    · exact ⟨by simp, (Except.error.inj failed).symm⟩
  split at failed
  case isTrue isEnd =>
    refine Or.inr ⟨isEnd, ?_⟩
    split at failed
    · exact ⟨_, rfl, (Except.error.inj failed).symm⟩
    · cases failed
  case isFalse => cases failed

end Context

namespace Lexer

variable {text : List Char} {past : List PlacedToken} {lexer : Lexer} {placed : PlacedToken}

private theorem Yielded.brackets (run : Yielded text past lexer) :
    lexer.context.brackets = ((unclosed past).map bracket).reverse := by
  induction run with
  | start => rfl
  | @next past lexer placed before yields ih =>
    have matched := bracketsAfter_of_next yields
    rw [ih] at matched
    rcases Context.matchBracket_ok_cases matched with
      ⟨opens, same⟩ | ⟨closes, innermost, same, -⟩ | ⟨other, same⟩
    · rw [same, (PlacedToken.unclosed_concat_of_opening opens past).2]
      simp [bracket]
    · rw [(PlacedToken.unclosed_concat_of_closing closes past).2, List.map_dropLast,
        ← List.tail_reverse, same]
      rfl
    · rw [same, (PlacedToken.unclosed_concat_of_other other past).2]

private theorem Yielded.head?_brackets (run : Yielded text past lexer) :
    lexer.context.brackets.head? = (unclosed past).getLast?.map bracket := by
  rw [run.brackets, List.head?_reverse, List.getLast?_map]

theorem Yielded.brackets_eq_nil_iff (run : Yielded text past lexer) :
    lexer.context.brackets = [] ↔ unclosed past = [] := by
  rw [run.brackets, List.reverse_eq_nil_iff, List.map_eq_nil_iff]

private theorem Yielded.matched (run : Yielded text past lexer) {front back : List PlacedToken}
    (split : past = front ++ placed :: back) : ¬Mismatch front placed := by
  rintro ⟨closes, mismatch⟩
  subst split
  obtain ⟨source, before, yields⟩ := run.exists_of_append
  rcases Context.matchBracket_ok_cases (bracketsAfter_of_next yields) with
    ⟨opens, -⟩ | ⟨-, innermost, same, partner⟩ | ⟨other, -⟩
  · rw [Kind.not_isClosing_of_isOpening opens] at closes
    cases closes
  · have head := before.head?_brackets
    rw [same, List.head?_cons, eq_comm, Option.map_eq_some_iff] at head
    obtain ⟨opening, found, rfl⟩ := head
    exact mismatch opening found partner
  · simp [Kind.isBracket, closes] at other

/-- The tokens that are read up to the end of the text, or up to the one that fails. -/
def scanned (lexer : Lexer) : List PlacedToken :=
  match _h : lexer.next.1 with
  | .error _ => [lexer.pending]
  | .ok placed =>
    if _end : placed.kind = .eof then [placed] else placed :: lexer.next.2.scanned
termination_by lexer.rest.length
decreasing_by exact next_length_lt _h _end

private theorem bracketsAfter_of_error {failure : Failure} (fails : lexer.next.1 = .error failure) :
    Context.matchBracket lexer.context.brackets lexer.pending.kind lexer.pending.range =
      .error failure := by
  rw [← entered_brackets]
  rw [next_eq] at fails
  cases found : lexer.bracketsAfter with
  | error other =>
    rw [found] at fails
    rw [← Except.error.inj fails]
    exact found
  | ok brackets => simp [found] at fails

private theorem exists_tokens_iff (lexer : Lexer) :
    (∃ stream, lexer.tokens = .ok stream) ↔
      Kind.CloseAll (lexer.scanned.map PlacedToken.kind)
        (lexer.context.brackets.map Prod.fst) := by
  fun_induction Lexer.scanned lexer with
  | case1 lexer failure fails =>
    rw [tokens_of_error fails, List.map_singleton, Kind.closeAll_cons]
    refine iff_of_false (by simp) ?_
    rintro ⟨after, opens, closed⟩
    obtain rfl := Kind.closeAll_nil.mp closed
    rcases Context.matchBracket_error_cases (bracketsAfter_of_error fails) with
      ⟨closes, mismatch, -⟩ | ⟨isEnd, innermost, found, -⟩
    · obtain ⟨opening, front, partner⟩ := (Kind.openAfter?_of_closing closes).mp opens
      obtain ⟨bracket, outer, same, rfl, -⟩ := List.map_eq_cons_iff.mp front
      exact mismatch bracket (by simp [same]) partner
    · rw [isEnd, Kind.openAfter?_of_other rfl rfl, Option.some.injEq, List.map_eq_nil_iff] at opens
      simp [opens] at found
  | case2 lexer placed yields isEnd =>
    obtain ⟨opens, closed⟩ := openAfter?_of_next yields
    rw [tokens_of_ok yields, if_pos isEnd]
    refine iff_of_true ⟨_, rfl⟩ ?_
    rw [closed isEnd, List.map_singleton, isEnd]
    exact Kind.closeAll_cons.mpr ⟨[], rfl, Kind.closeAll_nil.mpr rfl⟩
  | case3 lexer placed yields notEnd ih =>
    have tokens : (∃ stream, lexer.tokens = .ok stream) ↔
        ∃ stream, lexer.next.2.tokens = .ok stream := by
      rw [tokens_of_ok yields, if_neg notEnd]
      cases lexer.next.2.tokens <;> simp [Except.map]
    rw [tokens, ih, List.map_cons, Kind.closeAll_cons, (openAfter?_of_next yields).1]
    simp

private theorem exists_pending (lexer : Lexer) :
    ∀ placed ∈ lexer.scanned, ∃ source : Lexer, placed = source.pending := by
  fun_induction Lexer.scanned lexer with
  | case1 lexer failure fails => exact List.forall_mem_singleton.mpr ⟨lexer, rfl⟩
  | case2 lexer placed yields isEnd =>
    exact List.forall_mem_singleton.mpr ⟨lexer, eq_pending yields⟩
  | case3 lexer placed yields notEnd ih =>
    rw [List.forall_mem_cons]
    exact ⟨⟨lexer, eq_pending yields⟩, ih⟩

/-- How cutting a text into tokens comes out, after some tokens and with the last one read. -/
inductive Verdict (past : List PlacedToken) (last : PlacedToken) :
    Except Failure TokenStream → Prop
  /-- The end of the text, with no bracket open. -/
  | closed : last.kind = .eof → unclosed past = [] → Verdict past last (.ok ⟨past, last⟩)
  /-- A closing bracket that does not match the innermost open one. -/
  | unmatchedClosing : Mismatch past last →
    Verdict past last (.error ⟨⟨.unmatchedClosingBracket last.kind, last.range⟩⟩)
  /-- The end of the text, with brackets open. -/
  | unmatchedOpening {opening : PlacedToken} : last.kind = .eof →
    (unclosed past).getLast? = some opening →
    Verdict past last (.error ⟨⟨.unmatchedOpeningBracket opening.kind, opening.range⟩⟩)

private theorem Yielded.verdict_of_error (run : Yielded text past lexer) {failure : Failure}
    (fails : lexer.next.1 = .error failure) : Verdict past lexer.pending (.error failure) := by
  rcases Context.matchBracket_error_cases (bracketsAfter_of_error fails) with
    ⟨closes, mismatch, rfl⟩ | ⟨isEnd, innermost, found, rfl⟩
  · refine .unmatchedClosing ⟨closes, fun opening found => mismatch opening.bracket ?_⟩
    rw [run.head?_brackets, Option.mem_def, Option.mem_def.mp found]
    rfl
  · rw [run.head?_brackets, Option.mem_def, Option.map_eq_some_iff] at found
    obtain ⟨opening, found, rfl⟩ := found
    exact .unmatchedOpening isEnd found

private theorem Yielded.verdict (run : Yielded text past lexer) :
    ∃ more last, lexer.scanned = more ++ [last] ∧
      (∀ front closing back, past ++ more = front ++ closing :: back → ¬Mismatch front closing) ∧
      Verdict (past ++ more) last (lexer.tokens.map fun stream => stream.prepend past) := by
  fun_induction Lexer.scanned lexer generalizing past with
  | case1 lexer failure fails =>
    refine ⟨[], lexer.pending, rfl, ?_, ?_⟩
    · intro front closing back split
      exact run.matched (by simpa using split)
    · rw [List.append_nil, tokens_of_error fails]
      exact run.verdict_of_error fails
  | case2 lexer placed yields isEnd =>
    refine ⟨[], placed, rfl, ?_, ?_⟩
    · intro front closing back split
      exact run.matched (by simpa using split)
    · rw [List.append_nil, tokens_of_ok yields, if_pos isEnd]
      have closed := run.brackets_eq_nil_iff.mp ((openAfter?_of_next yields).2 isEnd)
      simpa [Except.map, TokenStream.prepend] using Verdict.closed isEnd closed
  | case3 lexer placed yields notEnd ih =>
    obtain ⟨more, last, scanned, matched, verdict⟩ := ih (run.next yields)
    rw [List.append_assoc] at matched verdict
    refine ⟨placed :: more, last, by rw [scanned]; rfl, matched, ?_⟩
    have same : (lexer.tokens.map fun stream => stream.prepend past) =
        lexer.next.2.tokens.map fun stream => stream.prepend (past ++ [placed]) := by
      rw [tokens_of_ok yields, if_neg notEnd]
      cases lexer.next.2.tokens <;> simp [Except.map, TokenStream.prepend, TokenStream.push]
    rw [same]
    exact verdict

private theorem exists_map_ok {ε α : Type} {results : List (Except ε α)}
    (ok : results.all Except.isOk = true) : ∃ found : List α, results = found.map .ok := by
  induction results with
  | nil => exact ⟨[], rfl⟩
  | cons result results ih =>
    rw [List.all_cons, Bool.and_eq_true] at ok
    obtain ⟨found, rfl⟩ := ih ok.2
    cases result with
    | error failure => cases ok.1
    | ok first => exact ⟨first :: found, rfl⟩

/-- Brackets decide whether and where a text can be cut into tokens. The open brackets of a lexer
are the opening tokens that nothing has closed, innermost first; the text can be cut just where the
bracket tokens are well-nested, and fails at the first one without partner; and the bracket tokens
are all brackets outside of trivia, strings and words of commands. -/
theorem tokenize_balances (text : List Char) :
    (∀ count past, (start text).steps count = past.map .ok →
      ((start text).after count).context.brackets = ((unclosed past).map bracket).reverse) ∧
    ((∃ stream, tokenize text = .ok stream) ↔
      Kind.WellNested (((start text).scanned.map PlacedToken.kind).filter Kind.isBracket)) ∧
    (∃ past last, (start text).scanned = past ++ [last] ∧
      (∀ front closing back, past = front ++ closing :: back → ¬Mismatch front closing) ∧
      Verdict past last (tokenize text)) ∧
    ∀ placed ∈ (start text).scanned, ∃ word, placed.token.trimmed? = some word ∧
      placed.kind.KeepsBrackets word := by
  refine ⟨?_, ?_, ?_, ?_⟩
  · intro count past calls
    exact (Yielded.start.steps calls).brackets
  · rw [Kind.wellNested_iff_closeAll]
    exact exists_tokens_iff (start text)
  · have run : Yielded text [] (start text) := .start
    obtain ⟨past, last, scanned, matched, verdict⟩ := run.verdict
    refine ⟨past, last, scanned, matched, ?_⟩
    have same : ((start text).tokens.map fun stream => stream.prepend []) = tokenize text := by
      unfold tokenize
      cases (start text).tokens <;> rfl
    rwa [same] at verdict
  · intro placed member
    obtain ⟨source, rfl⟩ := exists_pending _ placed member
    exact ⟨_, source.reading.token_trimmed?, Context.readLexeme_keepsBrackets _ _⟩

/-- Two brackets are open; the others stand in a word of a command, a string and a comment. -/
theorem tokenize_balances_open :
    ∃ past : List PlacedToken, (start "cd x(\n[a (')' % ]\n".toList).steps 6 = past.map .ok ∧
      ((start "cd x(\n[a (')' % ]\n".toList).after 6).context.brackets =
        ((unclosed past).map bracket).reverse ∧
      (unclosed past).map bracket =
        [(.openSquareBracket, ⟨6, 7⟩), (.openParenthesis, ⟨9, 10⟩)] := by
  obtain ⟨past, calls⟩ : ∃ past : List PlacedToken,
      (start "cd x(\n[a (')' % ]\n".toList).steps 6 = past.map .ok :=
    exists_map_ok (by decide +kernel)
  have brackets := (tokenize_balances "cd x(\n[a (')' % ]\n".toList).1 6 past calls
  refine ⟨past, calls, brackets, ?_⟩
  have reversed := congrArg List.reverse brackets
  rw [List.reverse_reverse] at reversed
  rw [← reversed]
  decide +kernel

end Lexer

end MatrixScript
