import MatrixScript.Proofs.Grammar.Formula
import MatrixScript.Proofs.Lexer.Laying
import MatrixScript.Proofs.Tree.Layout

/-!
Matrices before they are written.

An `Item` is a simple operand with or without a sign, an `Entry` is items that binary `+` and `-`
join, and `Contents` are entries that are parted by white space, commas, semicolons or line feeds.
Each of them has a text, the lexemes that are laid out in it, and the tree that stands for it. The
lexemes stand in the text, whatever parts them.
-/

set_option autoImplicit false

namespace MatrixScript.Grammar

/-- A word, reserved or not. Between brackets every word is a name. -/
structure Identifier where
  text : List Char
  isWord : Lexeme.isWord text = true

def Identifier.lexeme (name : Identifier) : Lexeme := .word name.text

private theorem Identifier.text_ne_nil (name : Identifier) : name.text ≠ [] := by
  intro empty
  have word := name.isWord
  rw [empty] at word
  cases word

/-- An operand of a matrix, without a sign. -/
inductive Operand where
  | number (literal : Literal)
  | identifier (name : Identifier)
  | call (name : Identifier) (argument : Literal)
  | cellAccess (name : Identifier) (index : Literal)
  | parenthesized (body : Literal)
  | cell (content : Literal)

namespace Operand

def text : Operand → List Char
  | .number literal => literal.numeral.text
  | .identifier name => name.text
  | .call name argument => name.text ++ '(' :: (argument.numeral.text ++ [')'])
  | .cellAccess name index => name.text ++ '{' :: (index.numeral.text ++ ['}'])
  | .parenthesized body => '(' :: (body.numeral.text ++ [')'])
  | .cell content => '{' :: (content.numeral.text ++ ['}'])

def laid : Operand → Trail → List Laid
  | .number literal, trail => [⟨literal.lexeme, trail⟩]
  | .identifier name, trail => [⟨name.lexeme, trail⟩]
  | .call name argument, trail =>
    ⟨name.lexeme, .none⟩ ::
      Laid.enclosed .openParenthesis .closeParenthesis [⟨argument.lexeme, .none⟩] trail
  | .cellAccess name index, trail =>
    ⟨name.lexeme, .none⟩ :: Laid.enclosed .openBrace .closeBrace [⟨index.lexeme, .none⟩] trail
  | .parenthesized body, trail =>
    Laid.enclosed .openParenthesis .closeParenthesis [⟨body.lexeme, .none⟩] trail
  | .cell content, trail =>
    Laid.enclosed .openBrace .closeBrace [⟨content.lexeme, .none⟩] trail

def kind : Operand → Kind
  | .number _ => .numberLiteralExpression
  | .identifier _ => .identifierNameExpression
  | .call .. => .functionCallExpression
  | .cellAccess .. => .cellArrayElementAccessExpression
  | .parenthesized _ => .parenthesizedExpression
  | .cell _ => .cellArrayLiteralExpression

end Operand

def leaf (lexeme : Lexeme) (trail : Trail) : Element := .leaf (Laid.token ⟨lexeme, trail⟩)

def numberElement (literal : Literal) (trail : Trail) : Element :=
  .ofChildren .numberLiteralExpression [leaf literal.lexeme trail]

def identifierElement (name : Identifier) (trail : Trail) : Element :=
  .ofChildren .identifierNameExpression [leaf name.lexeme trail]

namespace Operand

def element (operand : Operand) (trail : Trail) : Element :=
  .ofChildren operand.kind <|
    match operand with
    | .number literal => [leaf literal.lexeme trail]
    | .identifier name => [leaf name.lexeme trail]
    | .call name argument =>
      [identifierElement name .none, leaf (.fixed .openParenthesis) .none,
        .list [numberElement argument .none], leaf (.fixed .closeParenthesis) trail]
    | .cellAccess name index =>
      [identifierElement name .none, leaf (.fixed .openBrace) .none,
        .list [numberElement index .none], leaf (.fixed .closeBrace) trail]
    | .parenthesized body =>
      [leaf (.fixed .openParenthesis) .none, numberElement body .none,
        leaf (.fixed .closeParenthesis) trail]
    | .cell content =>
      [leaf (.fixed .openBrace) .none, .list [numberElement content .none],
        leaf (.fixed .closeBrace) trail]

end Operand

/-- A `+` or a `-`. -/
inductive Additive where
  | plus
  | minus
  deriving DecidableEq, Repr

namespace Additive

def kind : Additive → Kind
  | .plus => .plus
  | .minus => .minus

def char : Additive → Char
  | .plus => '+'
  | .minus => '-'

def lexeme (additive : Additive) : Lexeme := .fixed additive.kind

@[simp]
theorem text_lexeme (additive : Additive) : additive.lexeme.text = [additive.char] := by
  cases additive <;> rfl

end Additive

/-- An operand that may have a sign directly in front. -/
structure Item where
  sign : Option Additive
  operand : Operand

namespace Item

def text (item : Item) : List Char := item.sign.toList.map Additive.char ++ item.operand.text

def laid (item : Item) (trail : Trail) : List Laid :=
  item.sign.toList.map (fun sign => ⟨sign.lexeme, .none⟩) ++ item.operand.laid trail

def kind (item : Item) : Kind :=
  if item.sign.isSome then .unaryPrefixOperationExpression else item.operand.kind

def element (item : Item) (trail : Trail) : Element :=
  match item.sign with
  | none => item.operand.element trail
  | some sign =>
    .ofChildren .unaryPrefixOperationExpression
      [leaf sign.lexeme .none, item.operand.element trail]

end Item

/-- What stands around a binary `+` or `-`: nothing, or white space on both sides. -/
inductive Spacing where
  | tight
  | apart (before after : Spaces)

namespace Spacing

def before : Spacing → Trail
  | .tight => .none
  | .apart before _ => .spaces before

def after : Spacing → Trail
  | .tight => .none
  | .apart _ after => .spaces after

end Spacing

/-- Items that are joined by binary `+` and `-`, to the left. -/
inductive Entry where
  | item (only : Item)
  | joined (left : Entry) (operator : Additive) (spacing : Spacing) (right : Item)

namespace Entry

def text : Entry → List Char
  | .item only => only.text
  | .joined left operator spacing right =>
    left.text ++ (spacing.before.text ++ operator.char :: (spacing.after.text ++ right.text))

def laid : Entry → Trail → List Laid
  | .item only, trail => only.laid trail
  | .joined left operator spacing right, trail =>
    left.laid spacing.before ++ ⟨operator.lexeme, spacing.after⟩ :: right.laid trail

def kind : Entry → Kind
  | .item only => only.kind
  | .joined .. => .binaryOperationExpression

def element : Entry → Trail → Element
  | .item only, trail => only.element trail
  | .joined left operator spacing right, trail =>
    .ofChildren .binaryOperationExpression
      [left.element spacing.before, leaf operator.lexeme spacing.after, right.element trail]

end Entry

/-- What parts two entries. -/
inductive Parting where
  | spaces (stretch : Spaces)
  | comma
  | semicolon
  | lineFeed

namespace Parting

def text : Parting → List Char
  | .spaces stretch => stretch.text
  | .comma => [',', ' ']
  | .semicolon => [';', ' ']
  | .lineFeed => ['\n']

def trail : Parting → Trail
  | .spaces stretch => .spaces stretch
  | .comma | .semicolon => .none
  | .lineFeed => .lineFeed

def separator? : Parting → Option Lexeme
  | .spaces _ | .lineFeed => none
  | .comma => some (.fixed .comma)
  | .semicolon => some (.fixed .semicolon)

def laid (parting : Parting) : List Laid :=
  parting.separator?.toList.map fun separator => ⟨separator, .spaces .one⟩

def leaves (parting : Parting) : List Element :=
  parting.separator?.toList.map fun separator => leaf separator (.spaces .one)

end Parting

/-- The entries of a matrix, one at least, with what parts each of the others from the one in front
of it. -/
structure Contents where
  first : Entry
  rest : List (Parting × Entry)

namespace Contents

def text (contents : Contents) : List Char :=
  contents.first.text ++ contents.rest.flatMap fun part => part.1.text ++ part.2.text

def entries (contents : Contents) : List Entry := contents.first :: contents.rest.map Prod.snd

def laidFrom (entry : Entry) : List (Parting × Entry) → List Laid
  | [] => entry.laid .none
  | (parting, next) :: rest => entry.laid parting.trail ++ (parting.laid ++ laidFrom next rest)

/-- The trees of an entry and of those after it. -/
def elementsFrom (entry : Entry) : List (Parting × Entry) → List Element
  | [] => [entry.element .none]
  | (parting, next) :: rest => entry.element parting.trail :: elementsFrom next rest

def childrenFrom (entry : Entry) : List (Parting × Entry) → List Element
  | [] => [entry.element .none]
  | (parting, next) :: rest =>
    entry.element parting.trail :: (parting.leaves ++ childrenFrom next rest)

def laid (contents : Contents) : List Laid := laidFrom contents.first contents.rest

def elements (contents : Contents) : List Element := elementsFrom contents.first contents.rest

end Contents

/-- The brackets of a matrix. -/
inductive Bracket where
  | square
  | brace
  deriving DecidableEq, Repr

namespace Bracket

def opening : Bracket → Kind
  | .square => .openSquareBracket
  | .brace => .openBrace

def closing : Bracket → Kind
  | .square => .closeSquareBracket
  | .brace => .closeBrace

def kind : Bracket → Kind
  | .square => .arrayLiteralExpression
  | .brace => .cellArrayLiteralExpression

def text (bracket : Bracket) (contents : Contents) : List Char :=
  match bracket with
  | .square => '[' :: (contents.text ++ [']'])
  | .brace => '{' :: (contents.text ++ ['}'])

def element (bracket : Bracket) (contents : Contents) : Element :=
  .ofChildren bracket.kind
    [leaf (.fixed bracket.opening) .none,
      .list (Contents.childrenFrom contents.first contents.rest),
      leaf (.fixed bracket.closing) .none]

end Bracket

section

open Laid

variable {trail : Trail} {rest : List Char}

private theorem Identifier.stand (name : Identifier) (fits : trail.Fits rest)
    (ends : Text.Ends (trail.text ++ rest)) : Stand [⟨name.lexeme, trail⟩] rest :=
  stand_single ((Lexeme.word_solid name.isWord).stands ends) name.text_ne_nil fits

private theorem Identifier.stand_enclosed (name : Identifier) {opening closing : Kind}
    {row : List Laid}
    (opens : opening ∈ Lexeme.solitary)
    (stand : Stand (enclosed opening closing row trail) rest) :
    Stand (⟨name.lexeme, .none⟩ :: enclosed opening closing row trail) rest := by
  refine stand_append.mpr ⟨name.stand ?_ ?_, stand⟩
  · exact .of_absent (stand.absent (List.cons_ne_nil _ _))
  · simpa [Trail.text, enclosed] using Lexeme.fixed_ends opens _

namespace Operand

private theorem laid_ne_nil (operand : Operand) : operand.laid trail ≠ [] := by
  cases operand <;> exact List.cons_ne_nil _ _

private theorem laid_ends (operand : Operand) (trail : Trail) :
    ∃ front lexeme, operand.laid trail = front ++ [⟨lexeme, trail⟩] := by
  cases operand with
  | number literal => exact ⟨[], _, rfl⟩
  | identifier name => exact ⟨[], _, rfl⟩
  | call name argument => exact ⟨[_, _, _], _, rfl⟩
  | cellAccess name index => exact ⟨[_, _, _], _, rfl⟩
  | parenthesized body => exact ⟨[_, _], _, rfl⟩
  | cell content => exact ⟨[_, _], _, rfl⟩

private theorem textOf_laid (operand : Operand) :
    textOf (operand.laid trail) = operand.text ++ trail.text := by
  cases operand <;>
    simp [laid, text, enclosed, Literal.lexeme, Lexeme.ofNumeral, Identifier.lexeme, Lexeme.word,
      Lexeme.fixed, Kind.fixedText?, Trail.text]

private theorem level (operand : Operand) : Level (operand.laid trail) := by
  intro opened
  cases operand <;> rfl

private theorem stand (operand : Operand) (fits : trail.Fits rest)
    (ends : Text.Ends (trail.text ++ rest)) : Stand (operand.laid trail) rest := by
  cases operand with
  | number literal => exact literal_stand literal fits ends
  | identifier name => exact name.stand fits ends
  | call name argument =>
    exact name.stand_enclosed (by decide) (literal_enclosed (by decide) (by decide) argument fits)
  | cellAccess name index =>
    exact name.stand_enclosed (by decide) (literal_enclosed (by decide) (by decide) index fits)
  | parenthesized body => exact literal_enclosed (by decide) (by decide) body fits
  | cell content => exact literal_enclosed (by decide) (by decide) content fits

end Operand

private theorem Additive.solitary (additive : Additive) : additive.kind ∈ Lexeme.solitary := by
  cases additive <;> decide

namespace Item

private theorem laid_ne_nil (item : Item) : item.laid trail ≠ [] :=
  List.append_ne_nil_of_right_ne_nil _ item.operand.laid_ne_nil

private theorem laid_ends (item : Item) (trail : Trail) :
    ∃ front lexeme, item.laid trail = front ++ [⟨lexeme, trail⟩] := by
  obtain ⟨front, lexeme, ends⟩ := item.operand.laid_ends trail
  exact ⟨_, lexeme, by rw [laid, ends, List.append_assoc]⟩

theorem textOf_laid (item : Item) : textOf (item.laid trail) = item.text ++ trail.text := by
  obtain ⟨sign, operand⟩ := item
  cases sign <;> simp [laid, text, operand.textOf_laid, Trail.text]

theorem level (item : Item) : Level (item.laid trail) := by
  obtain ⟨sign, operand⟩ := item
  refine Level.append (fun opened => ?_) operand.level
  rcases sign with _ | (_ | _) <;> rfl

theorem stand (item : Item) (fits : trail.Fits rest) (ends : Text.Ends (trail.text ++ rest)) :
    Stand (item.laid trail) rest := by
  obtain ⟨sign, operand⟩ := item
  have stand := operand.stand fits ends
  have absent := stand.absent operand.laid_ne_nil
  cases sign with
  | none => exact stand
  | some sign => exact stand_append.mpr ⟨fixed_stand sign.solitary (.of_absent absent), stand⟩

end Item

namespace Entry

private theorem laid_ne_nil (entry : Entry) : entry.laid trail ≠ [] := by
  cases entry with
  | item only => exact only.laid_ne_nil
  | joined left operator spacing right => simp [laid]

theorem laid_ends (entry : Entry) (trail : Trail) :
    ∃ front lexeme, entry.laid trail = front ++ [⟨lexeme, trail⟩] := by
  cases entry with
  | item only => exact only.laid_ends trail
  | joined left operator spacing right =>
    obtain ⟨front, lexeme, ends⟩ := right.laid_ends trail
    exact ⟨_, lexeme, by rw [laid, ends, ← List.cons_append, List.append_assoc]⟩

private theorem textOf_laid (entry : Entry) :
    textOf (entry.laid trail) = entry.text ++ trail.text := by
  induction entry generalizing trail with
  | item only => exact only.textOf_laid
  | joined left operator spacing right ih => simp [laid, text, ih, right.textOf_laid]

private theorem level (entry : Entry) : Level (entry.laid trail) := by
  induction entry generalizing trail with
  | item only => exact only.level
  | joined left operator spacing right ih =>
    have one : Level [⟨operator.lexeme, spacing.after⟩] := by
      intro opened
      cases operator <;> rfl
    exact ih.append (one.append right.level)

private theorem stand (entry : Entry) (fits : trail.Fits rest)
    (ends : Text.Ends (trail.text ++ rest)) :
    Stand (entry.laid trail) rest := by
  induction entry generalizing trail rest with
  | item only => exact only.stand fits ends
  | joined left operator spacing right ih =>
    have last := right.stand fits ends
    have absent := last.absent right.laid_ne_nil
    have operation : Stand (⟨operator.lexeme, spacing.after⟩ :: right.laid trail) rest :=
      stand_append.mpr ⟨fixed_stand operator.solitary (.of_absent absent), last⟩
    refine stand_append.mpr ⟨ih ?_ ?_, operation⟩
    · exact .of_absent (operation.absent (List.cons_ne_nil _ _))
    · refine Trail.ends fun _ => ?_
      rw [textOf_cons, List.append_assoc]
      exact Lexeme.fixed_ends operator.solitary _

end Entry

namespace Contents

private theorem laidFrom_ne_nil (entry : Entry) (rest : List (Parting × Entry)) :
    laidFrom entry rest ≠ [] := by
  cases rest with
  | nil => exact entry.laid_ne_nil
  | cons part rest => exact List.append_ne_nil_of_left_ne_nil entry.laid_ne_nil _

theorem textOf_laidFrom (entry : Entry) (rest : List (Parting × Entry)) :
    textOf (laidFrom entry rest) =
      entry.text ++ rest.flatMap fun part => part.1.text ++ part.2.text := by
  induction rest generalizing entry with
  | nil => simp [laidFrom, entry.textOf_laid, Trail.text]
  | cons part rest ih =>
    obtain ⟨parting, next⟩ := part
    have parted : parting.trail.text ++ textOf parting.laid = parting.text := by
      cases parting <;> simp [Parting.trail, Parting.text, Parting.laid, Parting.separator?,
        Trail.text, Lexeme.fixed, Kind.fixedText?, Spaces.one]
    simp [laidFrom, entry.textOf_laid, ih, ← parted]

theorem level (entry : Entry) (rest : List (Parting × Entry)) : Level (laidFrom entry rest) := by
  induction rest generalizing entry with
  | nil => exact entry.level
  | cons part rest ih =>
    obtain ⟨parting, next⟩ := part
    refine entry.level.append (Level.append (fun opened => ?_) (ih next))
    cases parting <;> rfl

private theorem stand_separated (entry : Entry) {kind : Kind} (alone : kind ∈ Lexeme.solitary)
    {row : List Laid} (some : row ≠ []) (stand : Stand row rest) :
    Stand (entry.laid .none ++ ⟨.fixed kind, .spaces .one⟩ :: row) rest := by
  have separated : Stand (⟨.fixed kind, .spaces .one⟩ :: row) rest :=
    stand_append.mpr ⟨fixed_stand alone (.of_absent (stand.absent some)), stand⟩
  refine stand_append.mpr ⟨entry.stand ?_ (Trail.ends fun _ => ?_), separated⟩
  · exact separated.absent (List.cons_ne_nil _ _)
  · rw [textOf_cons, List.append_assoc]
    exact Lexeme.fixed_ends alone _

theorem stand (entry : Entry) (parts : List (Parting × Entry))
    (absent : Fragment.Absent rest) (ends : Text.Ends rest) :
    Stand (laidFrom entry parts) rest := by
  induction parts generalizing entry with
  | nil => exact entry.stand absent ends
  | cons part parts ih =>
    obtain ⟨parting, next⟩ := part
    have later := ih next
    have some := laidFrom_ne_nil next parts
    cases parting with
    | spaces stretch =>
      exact stand_append.mpr
        ⟨entry.stand (later.absent some) (Trail.ends Trail.noConfusion), later⟩
    | lineFeed =>
      exact stand_append.mpr ⟨entry.stand trivial (Trail.ends Trail.noConfusion), later⟩
    | comma => exact stand_separated entry (by decide) some later
    | semicolon => exact stand_separated entry (by decide) some later

end Contents

private theorem text?_of_tokens {element : Element} {front : List Laid} {lexeme : Lexeme}
    {trail : Trail}
    (tokens : element.tokens = tokensOf (front ++ [⟨lexeme, trail⟩]))
    (visible : ∀ laid ∈ front ++ [⟨lexeme, trail⟩], laid.lexeme.text ≠ []) :
    element.text? = some (textOf front ++ lexeme.text) := by
  have wide : ∀ token ∈ tokensOf (front ++ [⟨lexeme, trail⟩]),
      (token.width != 0) = true ∧ token.leadingWidth = 0 := by
    intro token member
    obtain ⟨laid, inside, rfl⟩ := List.mem_map.mp member
    exact ⟨width_token_ne_zero (visible laid inside), rfl⟩
  have leading : element.leadingWidth = 0 := by
    rw [Element.leadingWidth, Element.firstToken?_eq, tokens]
    cases found : (tokensOf (front ++ [⟨lexeme, trail⟩])).find? (·.width != 0) with
    | none => rfl
    | some token => exact (wide token (List.mem_of_find?_eq_some found)).2
  have trailing : element.trailingWidth = Text.byteSize trail.text := by
    have last : (tokensOf (front ++ [⟨lexeme, trail⟩])).reverse =
        token ⟨lexeme, trail⟩ :: (tokensOf front).reverse := by
      simp [tokensOf]
    have lastWide := (wide (token ⟨lexeme, trail⟩) (by simp [tokensOf])).1
    rw [Element.trailingWidth, Element.lastToken?_eq, tokens, last, List.find?_cons]
    simp only [lastWide]
    exact trailingWidth_token _
  have whole : element.fullText = (textOf front ++ lexeme.text) ++ trail.text := by
    calc element.fullText
      _ = textOf (front ++ [⟨lexeme, trail⟩]) := by
        rw [Element.fullText, tokens, tokensOf, List.flatMap_map]
        simp only [text_token]
        rfl
      _ = (textOf front ++ lexeme.text) ++ trail.text := by simp
  have stop : max 0 (0 + element.width - Text.byteSize trail.text) =
      0 + Text.byteSize (textOf front ++ lexeme.text) := by
    rw [Element.width_eq, whole, Text.byteSize_append]
    omega
  rw [Element.text?, Element.span, leading, trailing, Nat.add_zero, stop, whole]
  exact Text.slice?_append [] (textOf front ++ lexeme.text) trail.text

private theorem Operand.tokens_element (operand : Operand) :
    (operand.element trail).tokens = tokensOf (operand.laid trail) := by
  cases operand <;>
    simp [element, laid, enclosed, tokensOf, identifierElement, numberElement, leaf, Element.list,
      Element.tokens]

private theorem Item.tokens_element (item : Item) :
    (item.element trail).tokens = tokensOf (item.laid trail) := by
  obtain ⟨sign, operand⟩ := item
  cases sign with
  | none => exact operand.tokens_element
  | some sign => simp [element, laid, leaf, Element.tokens, operand.tokens_element, tokensOf]

private theorem Entry.tokens_element (entry : Entry) :
    (entry.element trail).tokens = tokensOf (entry.laid trail) := by
  induction entry generalizing trail with
  | item only => exact only.tokens_element
  | joined left operator spacing right ih =>
    simp [element, laid, leaf, Element.tokens, ih, right.tokens_element, tokensOf]

theorem Entry.text?_element (entry : Entry) : (entry.element trail).text? = some entry.text := by
  have stand : Stand (entry.laid trail) [] :=
    entry.stand (.of_absent fun _ => rfl) (Trail.ends fun _ => by simp [Text.Ends])
  obtain ⟨front, lexeme, ends⟩ := entry.laid_ends trail
  have whole : textOf (entry.laid trail) = entry.text ++ trail.text := entry.textOf_laid
  have tokens : (entry.element trail).tokens = tokensOf (entry.laid trail) := entry.tokens_element
  have visible := stand.visible
  rw [ends] at whole tokens visible
  rw [textOf_append, textOf_cons, textOf_nil, List.append_nil, ← List.append_assoc] at whole
  rw [text?_of_tokens tokens visible, List.append_cancel_right whole]

theorem Item.kind_element (item : Item) : (item.element trail).kind = item.kind := by
  obtain ⟨sign, operand⟩ := item
  cases sign <;> rfl

theorem Entry.kind_element (entry : Entry) : (entry.element trail).kind = entry.kind := by
  cases entry with
  | item only => exact only.kind_element
  | joined => rfl

theorem Entry.isA_element (entry : Entry) (trail : Trail) :
    (entry.element trail).isA .expression = true := by
  cases entry with
  | joined => rfl
  | item only =>
    obtain ⟨_ | sign, operand⟩ := only
    · cases operand <;> rfl
    · rfl

namespace Contents

theorem filter_childrenFrom (entry : Entry) (parts : List (Parting × Entry)) :
    (childrenFrom entry parts).filter (·.isA .expression) = elementsFrom entry parts := by
  induction parts generalizing entry with
  | nil => simp [childrenFrom, elementsFrom, entry.isA_element]
  | cons part parts ih =>
    obtain ⟨parting, next⟩ := part
    have separators : parting.leaves.filter (·.isA .expression) = [] := by
      cases parting <;> rfl
    simp [childrenFrom, elementsFrom, entry.isA_element, separators, ih]

theorem map_elementsFrom {α : Type} {read : Element → α} {known : Entry → α}
    (alike : ∀ entry trail, read (entry.element trail) = known entry) (entry : Entry)
    (parts : List (Parting × Entry)) :
    (elementsFrom entry parts).map read = (entry :: parts.map Prod.snd).map known := by
  induction parts generalizing entry with
  | nil => simp [elementsFrom, alike]
  | cons part parts ih =>
    obtain ⟨parting, next⟩ := part
    simp [elementsFrom, alike, ih]

end Contents

namespace Operand

def name? : Operand → Option Identifier
  | .identifier name | .call name _ | .cellAccess name _ => some name
  | .number _ | .parenthesized _ | .cell _ => none

private theorem laid_starts (operand : Operand) (trail : Trail)
    (free : ∀ name ∈ operand.name?, Word.isReserved name.text = false) :
    ∃ first more, operand.laid trail = first :: more ∧
      (first.lexeme.kind = .identifier → Word.isReserved first.lexeme.text = false) := by
  cases operand with
  | number literal => exact ⟨_, _, rfl, by rintro ⟨⟩⟩
  | identifier name => exact ⟨_, _, rfl, fun _ => free name rfl⟩
  | call name argument => exact ⟨_, _, rfl, fun _ => free name rfl⟩
  | cellAccess name index => exact ⟨_, _, rfl, fun _ => free name rfl⟩
  | parenthesized body => exact ⟨_, _, rfl, by rintro ⟨⟩⟩
  | cell content => exact ⟨_, _, rfl, by rintro ⟨⟩⟩

end Operand

namespace Item

/-- Whether the name of an item, if it has one, is not reserved. -/
def IsFree (item : Item) : Prop := ∀ name ∈ item.operand.name?, Word.isReserved name.text = false

theorem laid_starts {item : Item} (free : item.IsFree) (trail : Trail) :
    ∃ first more, item.laid trail = first :: more ∧
      (first.lexeme.kind = .identifier → Word.isReserved first.lexeme.text = false) := by
  obtain ⟨sign, operand⟩ := item
  cases sign with
  | none => exact operand.laid_starts trail free
  | some sign =>
    refine ⟨⟨sign.lexeme, .none⟩, _, rfl, ?_⟩
    cases sign <;> rintro ⟨⟩

end Item

end

end MatrixScript.Grammar
