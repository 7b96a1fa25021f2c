import MatrixScript.Proofs.Lexer.Restart

/-!
Brackets of a text, by their kinds alone.

A text that can be cut into tokens closes all its brackets, innermost first. `Kind.closeAll` says so
of a row of kinds, after some brackets were opened.
-/

set_option autoImplicit false

namespace MatrixScript

namespace Kind

/-- The open brackets after a token of a kind, innermost first. A closing bracket must match the
innermost open one. -/
def openAfter? (kind : Kind) (opened : List Kind) : Option (List Kind) :=
  if kind.isOpening then some (kind :: opened)
  else if kind.isClosing then
    match opened with
    | opening :: outer => if opening.closing? = some kind then some outer else none
    | [] => none
  else some opened

/-- The open brackets after tokens of some kinds. -/
def openAfterAll? : List Kind → List Kind → Option (List Kind)
  | [], opened => some opened
  | kind :: kinds, opened => (kind.openAfter? opened).bind (openAfterAll? kinds)

theorem openAfterAll?_append (front back opened : List Kind) :
    openAfterAll? (front ++ back) opened =
      (openAfterAll? front opened).bind (openAfterAll? back) := by
  induction front generalizing opened with
  | nil => rfl
  | cons kind front ih =>
    rw [List.cons_append, openAfterAll?, openAfterAll?, Option.bind_assoc]
    exact congrArg _ (funext ih)

/-- Tokens of some kinds close all open brackets, and those that they open. -/
def CloseAll (kinds opened : List Kind) : Prop := openAfterAll? kinds opened = some []

variable {kind opening : Kind} {kinds opened outer : List Kind}

theorem openAfter?_of_opening (opens : kind.isOpening = true) :
    kind.openAfter? opened = some (kind :: opened) := if_pos opens

theorem openAfter?_of_other (notOpening : kind.isOpening = false)
    (notClosing : kind.isClosing = false) : kind.openAfter? opened = some opened := by
  simp [openAfter?, notOpening, notClosing]

/-- A closing bracket leaves the brackets around the one that it closes. -/
theorem openAfter?_of_closing (closes : kind.isClosing = true) {after : List Kind} :
    kind.openAfter? opened = some after ↔
      ∃ opening, opened = opening :: after ∧ opening.closing? = some kind := by
  have notOpening : kind.isOpening = false := by
    cases kind <;> first | rfl | exact absurd closes (by decide)
  cases opened with
  | nil => simp [openAfter?, notOpening, closes]
  | cons first rest =>
    simp only [openAfter?, notOpening, closes, Bool.false_eq_true, if_false, if_true,
      Option.ite_none_right_eq_some, Option.some.injEq, List.cons.injEq]
    constructor
    · rintro ⟨same, rfl⟩
      exact ⟨first, ⟨rfl, rfl⟩, same⟩
    · rintro ⟨opening, ⟨rfl, rfl⟩, same⟩
      exact ⟨same, rfl⟩

theorem closing?_inj {other : Kind} (closes : opening.closing? = some kind)
    (closes' : other.closing? = some kind) : opening = other := by
  revert closes closes'
  unfold closing?
  split <;> rintro ⟨⟩ <;> split <;> rintro ⟨⟩ <;> rfl

theorem isOpening_of_closing? (closes : opening.closing? = some kind) :
    opening.isOpening = true ∧ kind.isClosing = true := by
  revert closes
  unfold closing?
  split <;> rintro ⟨⟩ <;> exact ⟨rfl, rfl⟩

theorem openAfter?_append {after : List Kind} (opens : kind.openAfter? opened = some after)
    (outer : List Kind) : kind.openAfter? (opened ++ outer) = some (after ++ outer) := by
  cases opening : kind.isOpening with
  | true =>
    rw [openAfter?_of_opening opening, Option.some.injEq] at opens
    rw [openAfter?_of_opening opening, ← opens, List.cons_append]
  | false =>
    cases closing : kind.isClosing with
    | true =>
      obtain ⟨first, rfl, same⟩ := (openAfter?_of_closing closing).mp opens
      exact (openAfter?_of_closing closing).mpr ⟨first, rfl, same⟩
    | false =>
      rw [openAfter?_of_other opening closing, Option.some.injEq] at opens
      rw [openAfter?_of_other opening closing, opens]

theorem closeAll_nil : CloseAll [] opened ↔ opened = [] := by
  simp [CloseAll, openAfterAll?]

theorem closeAll_cons : CloseAll (kind :: kinds) opened ↔
    ∃ after, kind.openAfter? opened = some after ∧ CloseAll kinds after := by
  simp [CloseAll, openAfterAll?, Option.bind_eq_some_iff]

end Kind

namespace Context

theorem openAfter?_of_matchBracket {brackets after : List (Kind × Range)} {kind : Kind}
    {range : Range} (matched : matchBracket brackets kind range = .ok after) :
    kind.openAfter? (brackets.map Prod.fst) = some (after.map Prod.fst) := by
  unfold matchBracket at matched
  split at matched
  case isTrue opens =>
    rw [← Except.ok.inj matched]
    exact Kind.openAfter?_of_opening opens
  case isFalse notOpening =>
    split at matched
    case isTrue closes =>
      rw [Kind.openAfter?_of_closing closes]
      split at matched
      · rename_i opening place outer
        split at matched
        · rw [← Except.ok.inj matched]
          exact ⟨opening, rfl, ‹_›⟩
        · cases matched
      · cases matched
    case isFalse notClosing =>
      rw [Kind.openAfter?_of_other (by simpa using notOpening) (by simpa using notClosing)]
      split at matched
      · cases brackets with
        | nil => rw [← Except.ok.inj matched]
        | cons bracket outer => cases matched
      · rw [← Except.ok.inj matched]

theorem exists_matchBracket {brackets : List (Kind × Range)} {kind : Kind} (notEnd : kind ≠ .eof)
    {opened : List Kind} (opens : kind.openAfter? (brackets.map Prod.fst) = some opened)
    (range : Range) : ∃ after, matchBracket brackets kind range = .ok after := by
  unfold matchBracket
  split
  case isTrue => exact ⟨_, rfl⟩
  case isFalse =>
    split
    case isTrue closes =>
      obtain ⟨opening, front, same⟩ := (Kind.openAfter?_of_closing closes).mp opens
      obtain ⟨bracket, outer, rfl, rfl, -⟩ := List.map_eq_cons_iff.mp front
      exact ⟨outer, if_pos same⟩
    case isFalse => exact ⟨brackets, rfl⟩

/-- What follows a token changes no bracket. -/
theorem brackets_afterToken (context : Context) (reading : Reading) :
    (context.afterToken reading).brackets = context.brackets := by
  simp only [afterToken]
  split <;> rfl

private theorem nil_of_matchBracket {brackets after : List (Kind × Range)} {range : Range}
    (matched : matchBracket brackets .eof range = .ok after) : brackets = [] := by
  cases brackets with
  | nil => rfl
  | cons bracket outer => cases matched

end Context

namespace Lexer

/-- Trivia opens and closes no bracket. -/
theorem entered_brackets (lexer : Lexer) : lexer.entered.brackets = lexer.context.brackets := by
  unfold entered Context.afterLeading
  split <;> rfl

theorem bracketsAfter_of_next {lexer : Lexer} {placed : PlacedToken}
    (yields : lexer.next.1 = .ok placed) :
    Context.matchBracket lexer.context.brackets placed.kind placed.range =
      .ok lexer.next.2.context.brackets := by
  have token := next_eq_ok yields
  rw [next_eq] at yields ⊢
  cases found : lexer.bracketsAfter with
  | error failure => simp [found] at yields
  | ok after =>
    rw [bracketsAfter, entered_brackets] at found
    subst token
    simp only [Context.brackets_afterToken]
    exact found

theorem openAfter?_of_next {lexer : Lexer} {placed : PlacedToken}
    (yields : lexer.next.1 = .ok placed) :
    placed.kind.openAfter? (lexer.context.brackets.map Prod.fst) =
        some (lexer.next.2.context.brackets.map Prod.fst) ∧
      (placed.kind = .eof → lexer.context.brackets = []) := by
  have matched := bracketsAfter_of_next yields
  refine ⟨Context.openAfter?_of_matchBracket matched, fun isEnd => ?_⟩
  rw [isEnd] at matched
  exact Context.nil_of_matchBracket matched

private theorem tokens_close {lexer : Lexer} {stream : TokenStream}
    (ok : lexer.tokens = .ok stream) :
    Kind.CloseAll (stream.tokens.map PlacedToken.kind) (lexer.context.brackets.map Prod.fst) := by
  fun_induction Lexer.tokens lexer generalizing stream with
  | case1 => simp at ok
  | case2 lexer placed yields isEnd =>
    simp only [Except.ok.injEq] at ok
    subst ok
    simp [Kind.closeAll_nil, (openAfter?_of_next yields).2 isEnd]
  | case3 lexer placed yields notEnd ih =>
    cases later : lexer.next.2.tokens with
    | error failure => simp [later, Except.map] at ok
    | ok rest =>
      simp only [later, Except.map, Except.ok.injEq] at ok
      subst ok
      exact Kind.closeAll_cons.mpr ⟨_, (openAfter?_of_next yields).1, ih later⟩

end Lexer

theorem tokenize_close {text : List Char} {stream : TokenStream}
    (ok : tokenize text = .ok stream) :
    Kind.CloseAll (stream.tokens.map PlacedToken.kind) [] := Lexer.tokens_close ok

end MatrixScript
