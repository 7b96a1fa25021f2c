import MatrixScript.Element
import MatrixScript.Grammar.Precedence
import MatrixScript.Proofs.Lexer.Writing

/-!
Expressions before they are written.

A `Formula` is built from numbers and names with parentheses, signs and binary operators. It has a
text, in which one space stands between any two lexemes, and an element, the tree that stands for
it. `isProper` says when no further parentheses are needed. A lexer reads a formula lexeme by
lexeme, whatever its shape.
-/

set_option autoImplicit false

namespace MatrixScript.Grammar

/-- A binary operator. -/
structure Operator where
  kind : Kind
  isBinary : (Precedence.ofBinary? kind).isSome = true

namespace Operator

def precedence (operator : Operator) : Precedence :=
  (Precedence.ofBinary? operator.kind).get operator.isBinary

theorem ofBinary?_kind (operator : Operator) :
    Precedence.ofBinary? operator.kind = some operator.precedence :=
  (Option.some_get operator.isBinary).symm

private theorem isInner (operator : Operator) : operator.kind.isInner = true ∧
    operator.kind.fixedText?.isSome = true ∧ operator.kind ≠ .apostrophe := by
  obtain ⟨kind, isBinary⟩ := operator
  revert isBinary
  cases kind <;> decide

private theorem plain (operator : Operator) : (Lexeme.fixed operator.kind).Plain :=
  Lexeme.fixed_plain operator.isInner.2.1 operator.isInner.2.2

private theorem startsBareWord_text (operator : Operator) (rest : List Char) :
    Lexeme.startsBareWord ((Lexeme.fixed operator.kind).text ++ ' ' :: rest) = false := by
  obtain ⟨kind, isBinary⟩ := operator
  cases kind <;> first | rfl | cases isBinary

/-- The kind of the tree that an operator makes. -/
def resultKind (operator : Operator) : Kind :=
  if operator.kind == .equals then .assignmentExpression else .binaryOperationExpression

end Operator

/-- A sign in front of an operand. -/
structure Sign where
  kind : Kind
  isSign : kind ∈ [Kind.plus, .minus, .tilde]

theorem Sign.isInner (sign : Sign) : sign.kind.isInner = true ∧
    sign.kind.fixedText?.isSome = true ∧ sign.kind ≠ .apostrophe ∧ sign.kind ≠ .identifier := by
  obtain ⟨kind, isSign⟩ := sign
  revert isSign
  cases kind <;> decide

private theorem Sign.plain (sign : Sign) : (Lexeme.fixed sign.kind).Plain :=
  Lexeme.fixed_plain sign.isInner.2.1 sign.isInner.2.2.1

/-- An expression by its structure. -/
inductive Formula where
  | number (literal : Literal)
  | identifier (name : Name)
  | parenthesized (body : Formula)
  | signed (sign : Sign) (body : Formula)
  | binary (left : Formula) (operator : Operator) (right : Formula)

namespace Formula

def lexemes : Formula → List Lexeme
  | .number literal => [literal.lexeme]
  | .identifier name => [name.lexeme]
  | .parenthesized body =>
    .fixed .openParenthesis :: (body.lexemes ++ [.fixed .closeParenthesis])
  | .signed sign body => .fixed sign.kind :: body.lexemes
  | .binary left operator right => left.lexemes ++ .fixed operator.kind :: right.lexemes

def text (formula : Formula) : List Char := [' '].intercalate (formula.lexemes.map Lexeme.text)

def written (formula : Formula) (gap : Gap) : List Written := Written.spaced formula.lexemes gap

/-- The tree of a formula on which a gap follows. -/
def element : Formula → Gap → Element
  | .number literal, gap =>
    .ofChildren .numberLiteralExpression [.leaf (Written.token ⟨literal.lexeme, gap⟩)]
  | .identifier name, gap =>
    .ofChildren .identifierNameExpression [.leaf (Written.token ⟨name.lexeme, gap⟩)]
  | .parenthesized body, gap =>
    .ofChildren .parenthesizedExpression
      [.leaf (Written.token ⟨.fixed .openParenthesis, .space⟩), body.element .space,
        .leaf (Written.token ⟨.fixed .closeParenthesis, gap⟩)]
  | .signed sign body, gap =>
    .ofChildren .unaryPrefixOperationExpression
      [.leaf (Written.token ⟨.fixed sign.kind, .space⟩), body.element gap]
  | .binary left operator right, gap =>
    .ofChildren operator.resultKind
      [left.element .space, .leaf (Written.token ⟨.fixed operator.kind, .space⟩),
        right.element gap]

/-- How strongly the operator at the top binds, where there is one. -/
def precedence? : Formula → Option Precedence
  | .binary _ operator _ => some operator.precedence
  | _ => none

def isSigned : Formula → Bool
  | .signed .. => true
  | _ => false

/-- Whether no binary operation stands under the signs at the front of a formula. -/
def isPlainExponent : Formula → Bool
  | .signed _ body => body.precedence?.isNone && body.isPlainExponent
  | _ => true

/-- Whether a formula needs no further parentheses. The left side of an operation binds at least as
strongly as the operation, and the right side more strongly. Under a sign only powers stand bare,
and none where the sign is in an exponent; a power of a signed operand has parentheses. -/
def isProper : Formula → Bool
  | .number _ | .identifier _ => true
  | .parenthesized body => body.isProper
  | .signed _ body => body.precedence?.all (· == .power) && body.isProper
  | .binary left operator right =>
    left.precedence?.all (operator.precedence.strength ≤ ·.strength) &&
      right.precedence?.all (operator.precedence.strength < ·.strength) &&
      (operator.precedence != .power || !left.isSigned && right.isPlainExponent) &&
      left.isProper && right.isProper

theorem lexemes_ne_nil (formula : Formula) : formula.lexemes ≠ [] := by
  cases formula <;> simp [lexemes]

theorem written_parenthesized (body : Formula) (gap : Gap) :
    (parenthesized body).written gap =
      [⟨.fixed .openParenthesis, .space⟩] ++
        (body.written .space ++ [⟨.fixed .closeParenthesis, gap⟩]) := by
  have more : body.lexemes ++ [.fixed .closeParenthesis] ≠ [] := by simp
  show Written.spaced ([.fixed .openParenthesis] ++
    (body.lexemes ++ [.fixed .closeParenthesis])) gap = _
  rw [Written.spaced_append more, Written.spaced_append (by simp)]
  rfl

theorem written_signed (sign : Sign) (body : Formula) (gap : Gap) :
    (signed sign body).written gap = [⟨.fixed sign.kind, .space⟩] ++ body.written gap :=
  Written.spaced_append body.lexemes_ne_nil [.fixed sign.kind] gap

theorem written_binary (left : Formula) (operator : Operator) (right : Formula) (gap : Gap) :
    (binary left operator right).written gap =
      left.written .space ++ ([⟨.fixed operator.kind, .space⟩] ++ right.written gap) := by
  show Written.spaced (left.lexemes ++ ([.fixed operator.kind] ++ right.lexemes)) gap = _
  rw [Written.spaced_append (by simp), Written.spaced_append right.lexemes_ne_nil]
  rfl

/-- The text of a formula is what is written without a gap after it. -/
theorem textOf_written (formula : Formula) :
    Written.textOf (formula.written .none) = formula.text :=
  Written.textOf_spaced formula.lexemes

private theorem plain (formula : Formula) : ∀ lexeme ∈ formula.lexemes, lexeme.Plain := by
  induction formula with
  | number literal => simpa [lexemes] using literal.plain
  | identifier name => simpa [lexemes] using name.plain
  | parenthesized body ih =>
    have opening : (Lexeme.fixed .openParenthesis).Plain := Lexeme.fixed_plain rfl (by decide)
    have closing : (Lexeme.fixed .closeParenthesis).Plain := Lexeme.fixed_plain rfl (by decide)
    intro lexeme member
    simp only [lexemes, List.mem_cons, List.mem_append, List.not_mem_nil, or_false] at member
    rcases member with rfl | member | rfl
    · exact opening
    · exact ih lexeme member
    · exact closing
  | signed sign body ih =>
    simp only [lexemes, List.forall_mem_cons]
    exact ⟨sign.plain, ih⟩
  | binary left operator right left_ih right_ih =>
    simp only [lexemes, List.forall_mem_append, List.forall_mem_cons]
    exact ⟨left_ih, operator.plain, right_ih⟩

theorem written_plain (formula : Formula) {gap : Gap} :
    ∀ one ∈ formula.written gap, one.lexeme.Plain :=
  fun one member => formula.plain one.lexeme (Written.lexeme_mem_of_spaced member)

theorem absent (formula : Formula) {gap : Gap} {rest : List Char} (fits : gap.Fits rest) :
    Fragment.Absent (Written.textOf (formula.written gap) ++ rest) :=
  Written.absent_spaced formula.lexemes_ne_nil formula.plain fits

/-- A formula is read where it is written. -/
theorem reads (formula : Formula) {lexer : Lexer} {gap : Gap} {rest : List Char}
    (ahead : lexer.rest = Written.textOf (formula.written gap) ++ rest) (fits : gap.Fits rest)
    (idle : lexer.context.command = .none) :
    ∃ later : Lexer, lexer.Reads (formula.written gap) later ∧ later.rest = rest ∧
      lexer.context.Follows gap later.context := by
  induction formula generalizing lexer gap rest with
  | number literal =>
    have whole : lexer.rest = Written.text ⟨literal.lexeme, gap⟩ ++ rest := by
      simpa [written, lexemes, Written.spaced, Written.textOf] using ahead
    obtain ⟨later, reads, left, follows, -⟩ := Lexer.reads_inner literal.plain whole fits
      (by simp [idle]) (Context.expectsBareWord_of_none idle _) rfl
    exact ⟨later, reads, left, follows⟩
  | identifier name =>
    have whole : lexer.rest = Written.text ⟨name.lexeme, gap⟩ ++ rest := by
      simpa [written, lexemes, Written.spaced, Written.textOf] using ahead
    obtain ⟨later, reads, left, follows, -⟩ := Lexer.reads_inner name.plain whole fits
      (by simp [idle]) (Context.expectsBareWord_of_none idle _) rfl
    exact ⟨later, reads, left, follows⟩
  | parenthesized body ih =>
    rw [written_parenthesized] at ahead ⊢
    have opening : (Lexeme.fixed .openParenthesis).Plain := Lexeme.fixed_plain rfl (by decide)
    have closing : (Lexeme.fixed .closeParenthesis).Plain := Lexeme.fixed_plain rfl (by decide)
    have whole : lexer.rest = Written.text ⟨.fixed .openParenthesis, .space⟩ ++
        (Written.textOf (body.written .space) ++
          (Written.text ⟨.fixed .closeParenthesis, gap⟩ ++ rest)) := by
      simpa [Written.textOf] using ahead
    have before : Gap.space.Fits (Written.text ⟨.fixed .closeParenthesis, gap⟩ ++ rest) := by
      rw [Written.text, List.append_assoc]
      exact closing.absent _ fits.breaks
    obtain ⟨inside, reads, left, opened, none⟩ := Lexer.reads_lexeme opening whole
      (body.absent before) (by simp [idle]) (Context.expectsBareWord_of_none idle _) (by decide)
      (by decide) rfl
    obtain ⟨outside, more, left, within⟩ := ih left before (none (Or.inl (by decide)))
    have follows := opened.trans (by simp) within
    have matched : Context.matchBracket outside.context.brackets .closeParenthesis
        (PlacedToken.range ⟨Written.token ⟨.fixed .closeParenthesis, gap⟩, outside.position⟩) =
          .ok lexer.context.brackets := by
      rw [(follows.within (by simp)).1]
      rfl
    have idle : outside.context.command = .none :=
      (within.within (by simp)).2.2.2 (opened.within (by simp)).2.1
    obtain ⟨later, last, left, further, -⟩ := Lexer.reads_lexeme closing left fits (by simp [idle])
      (Context.expectsBareWord_of_none idle _) (by simp [Lexeme.fixed]) (by simp [Lexeme.fixed])
      matched
    refine ⟨later, reads.trans (more.trans last), left, ?_⟩
    exact follows.close.trans (by simp) further
  | signed sign body ih =>
    rw [written_signed] at ahead ⊢
    have whole : lexer.rest = Written.text ⟨.fixed sign.kind, .space⟩ ++
        (Written.textOf (body.written gap) ++ rest) := by
      simpa [Written.textOf] using ahead
    obtain ⟨inside, reads, left, follows, none⟩ := Lexer.reads_inner sign.plain whole
      (body.absent fits) (by simp [idle]) (Context.expectsBareWord_of_none idle _) sign.isInner.1
    obtain ⟨later, more, left, further⟩ := ih left fits (none (Or.inl sign.isInner.2.2.2))
    exact ⟨later, reads.trans more, left, follows.trans (by simp) further⟩
  | binary left operator right left_ih right_ih =>
    rw [written_binary] at ahead ⊢
    have whole : lexer.rest = Written.textOf (left.written .space) ++
        (Written.text ⟨.fixed operator.kind, .space⟩ ++
          (Written.textOf (right.written gap) ++ rest)) := by
      simpa [Written.textOf] using ahead
    have split (back : List Char) : Written.text ⟨.fixed operator.kind, .space⟩ ++ back =
        (Lexeme.fixed operator.kind).text ++ ' ' :: back := by
      simp [Written.text, Gap.text, Gap.fragments, Fragment.textOf]
    have before : Gap.space.Fits (Written.text ⟨.fixed operator.kind, .space⟩ ++
        (Written.textOf (right.written gap) ++ rest)) := by
      rw [split]
      refine operator.plain.absent _ ?_
      intro c found
      exact Or.inl (by simpa using found.symm)
    obtain ⟨middle, reads, ahead, first⟩ := left_ih whole before idle
    have calm := (first.within (by simp)).2.2.1
    have expects : middle.context.expectsBareWord middle.rest = false := by
      apply Context.expectsBareWord_of_startsBareWord calm
      rw [ahead, split]
      exact operator.startsBareWord_text _
    obtain ⟨after, one, ahead, second, -⟩ := Lexer.reads_inner operator.plain ahead
      (right.absent fits) calm expects operator.isInner.1
    have idle : after.context.command = .none :=
      (second.within (by simp)).2.2.2 (first.within (by simp)).2.1
    obtain ⟨later, more, left, third⟩ := right_ih ahead fits idle
    refine ⟨later, reads.trans (one.trans more), left, ?_⟩
    exact first.trans (by simp) (second.trans (by simp) third)

end Formula
end MatrixScript.Grammar
