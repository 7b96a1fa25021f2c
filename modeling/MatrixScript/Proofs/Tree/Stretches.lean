import MatrixScript.Proofs.Lexer.Trivia
import MatrixScript.Proofs.Tree.Preorder

/-!
The text of a tree in stretches: of each token its trivia in front, its significant part, and its
trivia behind.

`Stretch.Cover` says that stretches make up a text and have the ranges at which they stand in it. In
a parsed tree the stretches of the tokens cover the text of the script.
-/

set_option autoImplicit false

namespace MatrixScript

abbrev Stretch := List Char × Range

namespace Stretch

/-- Stretches follow one on the other from an offset on, and make up a text. -/
def Cover : List Stretch → (offset : Nat) → (text : List Char) → Prop
  | [], _, text => text = []
  | stretch :: rest, offset, text =>
    stretch.2 = Range.ofLength offset (Text.byteSize stretch.1) ∧
      ∃ later, text = stretch.1 ++ later ∧ Cover rest (offset + Text.byteSize stretch.1) later

variable {front back stretches : List Stretch} {offset : Nat} {whole more : List Char}

private theorem cover_append (first : Cover front offset whole)
    (next : Cover back (offset + Text.byteSize whole) more) :
    Cover (front ++ back) offset (whole ++ more) := by
  induction front generalizing offset whole with
  | nil =>
    rw [Cover] at first
    subst first
    simpa using next
  | cons stretch rest ih =>
    obtain ⟨range, later, rfl, covers⟩ := first
    refine ⟨range, later ++ more, by rw [List.append_assoc], ih covers ?_⟩
    rwa [Text.byteSize_append, ← Nat.add_assoc] at next

private theorem cover_singleton (text : List Char) (offset : Nat) :
    Cover [(text, Range.ofLength offset (Text.byteSize text))] offset text :=
  ⟨rfl, [], by simp, rfl⟩

namespace Cover

theorem text (covers : Cover stretches offset whole) : stretches.flatMap Prod.fst = whole := by
  induction stretches generalizing offset whole with
  | nil => exact Eq.symm covers
  | cons stretch rest ih =>
    obtain ⟨-, later, rfl, covers⟩ := covers
    rw [List.flatMap_cons, ih covers]

theorem tile (covers : Cover stretches offset whole) :
    Range.Tile (stretches.map Prod.snd) offset (offset + Text.byteSize whole) := by
  induction stretches generalizing offset whole with
  | nil =>
    rw [Cover] at covers
    simp [covers, Range.Tile]
  | cons stretch rest ih =>
    obtain ⟨range, later, rfl, covers⟩ := covers
    have further := ih covers
    rw [Nat.add_assoc, ← Text.byteSize_append] at further
    rw [List.map_cons, range]
    exact ⟨rfl, Nat.le_add_right _ _, further⟩

theorem slice (covers : Cover stretches offset whole) {before : List Char} (after : List Char)
    (start : Text.byteSize before = offset) :
    ∀ stretch ∈ stretches,
      Text.slice? stretch.2.start stretch.2.stop (before ++ (whole ++ after)) = some stretch.1 := by
  induction stretches generalizing offset whole before with
  | nil => simp
  | cons stretch rest ih =>
    obtain ⟨range, later, rfl, covers⟩ := covers
    subst start
    rw [List.forall_mem_cons]
    refine ⟨?_, ?_⟩
    · rw [range, List.append_assoc]
      exact Text.slice?_append before stretch.1 (later ++ after)
    · have further := ih covers (Text.byteSize_append before stretch.1)
      simpa using further

end Cover

end Stretch

open Stretch

private theorem Fragment.cover_texts (fragments : List Fragment) (offset : Nat) :
    Cover ((texts fragments offset).map Prod.snd) offset (textOf fragments) := by
  induction fragments generalizing offset with
  | nil => rfl
  | cons fragment fragments ih => exact ⟨rfl, _, rfl, ih _⟩

namespace Located

/-- The stretches of a token: its trivia in front, its significant part, its trivia behind. -/
def stretches? (token : Located) : Option (List Stretch) := do
  let leading ← token.leadingTrivia?
  let text ← token.text?
  let trailing ← token.trailingTrivia?
  return leading.map Prod.snd ++ (text, token.span) :: trailing.map Prod.snd

theorem trivia?_isSome {token : Located} (found : token.stretches?.isSome = true) :
    token.trivia?.isSome = true := by
  simp only [stretches?, trivia?, Option.bind_eq_bind, Option.isSome_bind, Option.any_eq_true]
    at found ⊢
  obtain ⟨leading, first, text, -, trailing, last, -⟩ := found
  exact ⟨leading, first, trailing, last, rfl⟩

private theorem cover_tokens {stretches : Located → List Stretch} (place : Located)
    (each : ∀ inner ∈ place.preorder, inner.isNode = false →
      Cover (stretches inner) inner.offset inner.element.fullText) :
    Cover (place.descendantTokens.flatMap stretches) place.offset place.element.fullText := by
  have below (parent : Element) (start : Nat) (trail : List Crumb) (slots : List (Option Element))
      (index offset : Nat) (each : ∀ child ∈ row parent start trail slots index offset,
        Cover (child.descendantTokens.flatMap stretches) child.offset child.element.fullText) :
      Cover ((row parent start trail slots index offset).flatMap fun child =>
          child.descendantTokens.flatMap stretches) offset
        ((Element.slotTokens slots).flatMap Token.text) := by
    induction slots generalizing index offset with
    | nil => rfl
    | cons slot slots ih =>
      cases slot with
      | none => exact ih (index + 1) offset each
      | some element =>
        rw [row, List.forall_mem_cons] at each
        rw [row, List.flatMap_cons, Element.slotTokens_some, List.flatMap_append]
        have size : element.width = Text.byteSize (element.tokens.flatMap Token.text) :=
          element.width_eq
        refine cover_append each.1 ?_
        rw [← size]
        exact ih (index + 1) (offset + element.width) each.2
  induction place using induction with
  | step place ih =>
    cases isNode : place.isNode with
    | false =>
      rw [descendantTokens_of_not_isNode isNode, List.flatMap_singleton]
      exact each place place.self_mem_preorder isNode
    | true =>
      have children : ∀ child ∈ place.children,
          Cover (child.descendantTokens.flatMap stretches) child.offset child.element.fullText :=
        fun child member => ih child member fun inner met =>
          each inner (preorder_subset_of_mem_children member met)
      have whole : place.element.fullText =
          (Element.slotTokens place.element.slots).flatMap Token.text := by
        obtain ⟨_ | ⟨kind, slots, diagnostics⟩, offset, trail⟩ := place
        · cases isNode
        · rw [Element.fullText, Element.tokens_node, Element.slots]
      rw [← row_slots] at children
      rw [descendantTokens_of_isNode isNode, List.flatMap_assoc, whole, ← row_slots]
      exact below _ _ _ _ _ _ children

private theorem exists_stretches_of_reading (reading : Reading) (offset : Nat)
    (trail : List Crumb) :
    ∃ found, stretches? ⟨.leaf reading.token, offset, trail⟩ = some found ∧
      Cover found offset reading.token.text := by
  have leading := reading.token_leadingTexts? offset
  have trailing := reading.token_trailingTexts? offset
  obtain ⟨span, text⟩ := Element.leaf_trimmed reading.token_fits
  have range : (Element.leaf reading.token).span offset = Range.ofLength
      (offset + Text.byteSize (Fragment.textOf reading.leading))
      (Text.byteSize reading.lexeme.text) := by
    have behind : reading.token.width - reading.token.trailingWidth =
        Text.byteSize (Fragment.textOf reading.leading) + Text.byteSize reading.lexeme.text := by
      simp only [Reading.token, Token.width, Token.trailingWidth, Reading.text,
        Fragment.total_pieces, Text.byteSize_append]
      omega
    have bound : reading.token.trailingWidth ≤ reading.token.width :=
      Nat.le_trans (Nat.le_add_left _ _) reading.token_fits
    rw [span, Token.span, Nat.add_sub_assoc bound, behind, Range.ofLength, Nat.add_assoc]
    exact congrArg (Range.mk · _) (congrArg (offset + ·) (Fragment.total_pieces reading.leading))
  refine ⟨(Fragment.texts reading.leading offset).map Prod.snd ++
    (reading.lexeme.text, (Element.leaf reading.token).span offset) ::
      (Fragment.texts reading.trailing (offset + Text.byteSize
        (Fragment.textOf reading.leading ++ reading.lexeme.text))).map Prod.snd, ?_, ?_⟩
  · simp only [stretches?, leadingTrivia?, trailingTrivia?, Located.text?, leading, trailing, text,
      reading.token_trimmed?, Option.bind_eq_bind, Option.bind_some]
    rfl
  · have whole : reading.token.text = Fragment.textOf reading.leading ++
        (reading.lexeme.text ++ Fragment.textOf reading.trailing) := List.append_assoc _ _ _
    rw [whole]
    refine cover_append (Fragment.cover_texts _ _) ⟨range, _, rfl, ?_⟩
    rw [Text.byteSize_append, ← Nat.add_assoc]
    exact Fragment.cover_texts _ _

private theorem exists_stretches_of_lacking (kind : Kind) (offset : Nat) (trail : List Crumb) :
    ∃ found, stretches? ⟨.leaf (Grammar.lackingToken kind), offset, trail⟩ = some found ∧
      Cover found offset (Grammar.lackingToken kind).text := by
  have fits : (Grammar.lackingToken kind).Fits := Nat.le_refl 0
  obtain ⟨span, text⟩ := Element.leaf_trimmed fits
  have range : (Element.leaf (Grammar.lackingToken kind)).span offset =
      Range.ofLength offset 0 := span offset
  refine ⟨[([], Range.ofLength offset 0)], ?_, cover_singleton [] offset⟩
  simp only [stretches?, leadingTrivia?, trailingTrivia?, Located.text?, Located.span, text, range]
  rfl

end Located

namespace Tree

variable {text : List Char} {options : Options} {name : Option String} {tree : Tree}

private theorem exists_stretches (parsed : Tree.parse text options name = .ok tree)
    {place : Located}
    (met : place ∈ (Located.root tree.root).preorder) (leaf : place.isNode = false) :
    ∃ found, place.stretches? = some found ∧
      Cover found place.offset place.element.fullText := by
  obtain ⟨stream, t, lexed, read⟩ := script_of_parse parsed
  obtain ⟨-, ends, kinds, -⟩ := Lexer.tokens_ok lexed
  obtain ⟨tokens, -⟩ := (Located.mem_preorder_root.mp met).parted
  obtain ⟨_ | _, offset, trail⟩ := place
  · rename_i token
    have member : token ∈ tree.root.tokens := by simp [tokens]
    have only : (Element.leaf token).fullText = token.text := by simp [Element.fullText]
    rw [only]
    rcases Grammar.script_drawn ends kinds _ _ read token member with real | ⟨kind, rfl⟩
    · obtain ⟨placed, found, rfl⟩ := List.mem_map.mp real
      obtain ⟨source, same⟩ := Lexer.tokens_read lexed placed found
      rw [same]
      exact Located.exists_stretches_of_reading source.reading offset trail
    · exact Located.exists_stretches_of_lacking kind offset trail
  · cases leaf

/-- In a parsed tree the stretches of all tokens together cover the text. -/
theorem parse_covers (parsed : Tree.parse text options name = .ok tree) :
    ∃ stretches, (Located.root tree.root).descendantTokens.mapM Located.stretches? = some stretches ∧
      (∀ token ∈ (Located.root tree.root).descendantTokens, token.stretches?.isSome = true) ∧
      Cover stretches.flatten 0 text := by
  obtain ⟨-, -, -, -, -, -, whole, -⟩ := parse_conserves parsed
  have own (place : Located) (met : place ∈ (Located.root tree.root).preorder)
      (leaf : place.isNode = false) :
      place.stretches? = some (place.stretches?.getD []) ∧
        Cover (place.stretches?.getD []) place.offset place.element.fullText := by
    obtain ⟨found, same, covers⟩ := exists_stretches parsed met leaf
    rw [same, Option.getD_some]
    exact ⟨rfl, covers⟩
  have all (tokens : List Located) (each : ∀ token ∈ tokens,
      token.stretches? = some (token.stretches?.getD [])) :
      tokens.mapM Located.stretches? = some (tokens.map fun token => token.stretches?.getD []) := by
    induction tokens with
    | nil => rfl
    | cons token tokens ih =>
      rw [List.forall_mem_cons] at each
      rw [List.mapM_cons, each.1, ih each.2]
      rfl
  have found (token : Located) (member : token ∈ (Located.root tree.root).descendantTokens) :
      token.stretches? = some (token.stretches?.getD []) := by
    rw [Located.descendantTokens, List.mem_filter, Bool.not_eq_true'] at member
    exact (own token member.1 member.2).1
  refine ⟨_, all _ found, fun token member => Option.isSome_of_eq_some (found token member), ?_⟩
  have covers := (Located.root tree.root).cover_tokens fun place met leaf => (own place met leaf).2
  rw [← List.flatMap_def, ← whole]
  exact covers

end Tree

end MatrixScript
