import Mathlib.Algebra.GroupWithZero.Nat
import MatrixScript.Proofs.Grammar.BlockBuilding
import MatrixScript.Proofs.Grammar.Conservation
import MatrixScript.Proofs.Lexer.Restart
import MatrixScript.Proofs.Tree.Identity

/-!
Where the elements of a tree stand, and what text they have.

The way down from the root parts the tokens of a tree: those left of a place, those of its element,
and those right of it. So an offset is the total width of the tokens left of a place, the children
of a node tile it, and its text is a slice of the text of the tree. Without trivia an element has
what is left between the trivia of its first and of its last token with text.

All this holds of every red node and token that a client reaches, whatever it does.
-/

set_option autoImplicit false

namespace MatrixScript

/-! Tokens, and rows of tokens. -/

namespace Text

theorem byteSize_eq_zero {text : List Char} : byteSize text = 0 ↔ text = [] := by
  cases text with
  | nil => simp
  | cons c rest =>
    have positive := c.utf8Size_pos
    simp only [byteSize_cons, reduceCtorEq, iff_false]
    omega

end Text

namespace Token

/-- The tokens that can be made: those whose trivia fits, and those that are missing, with a value
or with problems. -/
inductive Built : Token → Prop
  | make {kind : Kind} {text : List Char} {leading trailing : List Piece} {token : Token}
    (made : make? kind text leading trailing = some token) : Built token
  | missing (kind : Kind) : Built (missing kind)
  | withValue {token : Token} (value : Value) (built : Built token) : Built (token.withValue value)
  | withDiagnostics {token : Token} (diagnostics : List Diagnostic) (built : Built token) :
    Built (token.withDiagnostics diagnostics)

private theorem Built.fits {token : Token} (built : token.Built) : token.Fits := by
  induction built with
  | make made =>
    obtain ⟨fits, same⟩ := Option.ite_none_right_eq_some.mp made
    rw [← Option.some.inj same]
    exact fits
  | missing kind => exact Nat.le_refl 0
  | withValue value _ ih => exact ih
  | withDiagnostics diagnostics _ ih => exact ih

def leadingText? (token : Token) : Option (List Char) :=
  (Text.splitBytes? token.leadingWidth token.text).map Prod.fst

def trailingText? (token : Token) : Option (List Char) :=
  (Text.splitBytes? (token.width - token.trailingWidth) token.text).map Prod.snd

/-- Trivia ends between characters on both sides of the significant part. -/
structure Cut (token : Token) (lead middle trail : List Char) : Prop where
  text : token.text = lead ++ (middle ++ trail)
  leading : Text.byteSize lead = token.leadingWidth
  trailing : Text.byteSize trail = token.trailingWidth

variable {token : Token}

private theorem exists_cut (fits : token.Fits) (trimmed : token.trimmed?.isSome = true) :
    ∃ lead middle trail, token.Cut lead middle trail := by
  obtain ⟨middle, found⟩ := Option.isSome_iff_exists.mp trimmed
  have bound : token.leadingWidth ≤ token.width - token.trailingWidth := by
    unfold Fits at fits
    omega
  simp only [trimmed?, Text.slice?, Option.bind_eq_bind, Option.bind_eq_some_iff, Prod.exists,
    if_pos bound, Option.some.injEq, pure] at found
  obtain ⟨lead, back, front, inner, trail, rest, -⟩ := found
  obtain ⟨whole, leading⟩ := Text.splitBytes?_eq_some_iff.mp front
  obtain ⟨rfl, size⟩ := Text.splitBytes?_eq_some_iff.mp rest
  refine ⟨lead, inner, trail, whole, leading, ?_⟩
  have total : token.width = Text.byteSize lead + (Text.byteSize inner + Text.byteSize trail) := by
    rw [width, whole, Text.byteSize_append, Text.byteSize_append]
  unfold Fits at fits
  omega

namespace Cut

variable {lead middle trail : List Char}

private theorem leadingText? (cut : token.Cut lead middle trail) :
    token.leadingText? = some lead := by
  rw [Token.leadingText?, cut.text, ← cut.leading, Text.splitBytes?_byteSize]
  rfl

private theorem trailingText? (cut : token.Cut lead middle trail) :
    token.trailingText? = some trail := by
  have stop : token.width - token.trailingWidth = Text.byteSize (lead ++ middle) := by
    rw [width, cut.text, ← cut.trailing, Text.byteSize_append, Text.byteSize_append,
      Text.byteSize_append]
    omega
  rw [Token.trailingText?, stop, cut.text, ← List.append_assoc, Text.splitBytes?_byteSize]
  rfl

end Cut

private theorem byteSize_flatMap_text (tokens : List Token) :
    Text.byteSize (tokens.flatMap text) = (tokens.map width).sum := by
  induction tokens with
  | nil => rfl
  | cons token tokens ih => simp [ih, width]

private theorem flatMap_text_eq_nil {tokens : List Token}
    (empty : ∀ token ∈ tokens, token.width = 0) : tokens.flatMap text = [] := by
  rw [List.flatMap_eq_nil_iff]
  intro token member
  exact Text.byteSize_eq_zero.mp (empty token member)

private theorem first_last {tokens : List Token} {first last : Token}
    (front : tokens.find? (·.width != 0) = some first)
    (back : tokens.reverse.find? (·.width != 0) = some last) :
    (first = last ∧ tokens.flatMap text = first.text) ∨
      ∃ between, tokens.flatMap text = first.text ++ (between ++ last.text) := by
  obtain ⟨wide, before, later, parted, empty⟩ := List.find?_eq_some_iff_append.mp front
  obtain ⟨wide', after, earlier, parted', empty'⟩ := List.find?_eq_some_iff_append.mp back
  have nothing : before.flatMap text = [] :=
    flatMap_text_eq_nil fun token member => by simpa using empty token member
  have nothing' : after.reverse.flatMap text = [] :=
    flatMap_text_eq_nil fun token member => by simpa using empty' token (by simpa using member)
  rw [List.reverse_eq_iff, List.reverse_append, List.reverse_cons, List.append_assoc,
    List.singleton_append] at parted'
  rw [parted'] at parted
  have whole : tokens.flatMap text = (earlier.reverse.flatMap text) ++ last.text := by
    simp [parted', nothing']
  rcases List.append_eq_append_iff.mp parted with ⟨gap, rfl, rest⟩ | ⟨gap, front, rest⟩
  · -- Nothing but tokens without text stand before the first one, so the last is not among them.
    cases gap with
    | nil =>
      rw [List.nil_append, List.cons.injEq] at rest
      obtain ⟨rfl, -⟩ := rest
      rw [List.append_nil] at nothing
      exact Or.inl ⟨rfl, by rw [whole, nothing, List.nil_append]⟩
    | cons token gap =>
      rw [List.cons_append, List.cons.injEq] at rest
      have narrow := empty token (by simp)
      rw [← rest.1, wide'] at narrow
      simp at narrow
  · cases gap with
    | nil =>
      rw [List.nil_append, List.cons.injEq] at rest
      obtain ⟨rfl, -⟩ := rest
      rw [List.append_nil] at front
      exact Or.inl ⟨rfl, by rw [whole, front, nothing, List.nil_append]⟩
    | cons token gap =>
      rw [List.cons_append, List.cons.injEq] at rest
      obtain ⟨rfl, -⟩ := rest
      refine Or.inr ⟨gap.flatMap text, ?_⟩
      rw [whole, front]
      simp [nothing]

end Token

namespace Element

/-- The text of an element is the trivia of its first token with text, the text that it has without
trivia, and the trivia of its last token with text. -/
structure Cut (element : Element) (lead middle trail : List Char) : Prop where
  text : element.fullText = lead ++ (middle ++ trail)
  leading : Text.byteSize lead = element.leadingWidth
  trailing : Text.byteSize trail = element.trailingWidth
  front : element.firstToken?.elim (lead = []) fun first => first.leadingText? = some lead
  back : element.lastToken?.elim (trail = []) fun last => last.trailingText? = some trail

variable {element : Element}

private theorem first_last_cases (element : Element) :
    (element.firstToken? = none ∧ element.lastToken? = none ∧ element.fullText = []) ∨
      ∃ first last, element.firstToken? = some first ∧ element.lastToken? = some last ∧
        first ∈ element.tokens ∧ last ∈ element.tokens ∧
        ((first = last ∧ element.fullText = first.text) ∨
          ∃ between, element.fullText = first.text ++ (between ++ last.text)) := by
  cases front : element.firstToken? with
  | none =>
    rw [firstToken?_eq, List.find?_eq_none] at front
    refine Or.inl ⟨rfl, ?_, ?_⟩
    · rw [lastToken?_eq, List.find?_eq_none]
      exact fun token member => front token (List.mem_reverse.mp member)
    · exact Token.flatMap_text_eq_nil fun token member => by simpa using front token member
  | some first =>
    rw [firstToken?_eq] at front
    have wide := List.find?_some front
    have member := List.mem_of_find?_eq_some front
    have backward : element.lastToken?.isSome = true := by
      rw [lastToken?_eq, List.find?_isSome]
      exact ⟨first, List.mem_reverse.mpr member, wide⟩
    obtain ⟨last, back⟩ := Option.isSome_iff_exists.mp backward
    refine Or.inr ⟨first, last, rfl, back, member, ?_⟩
    rw [lastToken?_eq] at back
    exact ⟨List.mem_reverse.mp (List.mem_of_find?_eq_some back), Token.first_last front back⟩

private theorem trivia_le_width (fits : ∀ token ∈ element.tokens, token.Fits) :
    element.leadingWidth + element.trailingWidth ≤ element.width := by
  rcases element.first_last_cases with ⟨front, back, -⟩ |
    ⟨first, last, front, back, member, member', ⟨rfl, whole⟩ | ⟨between, whole⟩⟩
  · simp [leadingWidth, trailingWidth, front, back]
  · have own : first.leadingWidth + first.trailingWidth ≤ first.width := fits first member
    have total : element.width = first.width := by rw [width_eq, whole, Token.width]
    simpa [leadingWidth, trailingWidth, front, back, total] using own
  · have own : first.leadingWidth + first.trailingWidth ≤ first.width := fits first member
    have own' : last.leadingWidth + last.trailingWidth ≤ last.width := fits last member'
    have total : element.width = first.width + (Text.byteSize between + last.width) := by
      simp [width_eq, whole, Token.width]
    simp only [leadingWidth, trailingWidth, front, back, Option.map_some, Option.getD_some]
    omega

private theorem span_eq (fits : ∀ token ∈ element.tokens, token.Fits) (offset : Nat) :
    element.span offset =
      ⟨offset + element.leadingWidth, offset + element.width - element.trailingWidth⟩ := by
  have bound := element.trivia_le_width fits
  simp only [span, Range.mk.injEq, true_and]
  omega

/-- A token that stands alone has the range and the text of its significant part. -/
theorem leaf_trimmed {token : Token} (fits : token.Fits) :
    (∀ offset, (leaf token).span offset = token.span offset) ∧
      (leaf token).text? = token.trimmed? := by
  have same : (leaf token).leadingWidth = token.leadingWidth ∧
      (leaf token).trailingWidth = token.trailingWidth := by
    by_cases wide : token.width = 0
    · have nothing : token.leadingWidth = 0 ∧ token.trailingWidth = 0 := by
        unfold Token.Fits at fits
        omega
      simp [leadingWidth, trailingWidth, firstToken?, lastToken?, wide, nothing]
    · simp [leadingWidth, trailingWidth, firstToken?, lastToken?, wide]
  have span (offset : Nat) : (leaf token).span offset = token.span offset := by
    rw [span_eq (by simpa using fits), same.1, same.2, width, Token.span]
  refine ⟨span, ?_⟩
  rw [text?, span, Token.trimmed?]
  simp [Token.span, fullText]

private theorem exists_cut (fits : ∀ token ∈ element.tokens, token.Fits)
    (trimmed : ∀ token ∈ element.tokens, token.trimmed?.isSome = true) :
    ∃ lead middle trail, element.Cut lead middle trail := by
  rcases element.first_last_cases with ⟨front, back, whole⟩ |
    ⟨first, last, front, back, member, member', parts⟩
  · exact ⟨[], [], [], by simp [whole], by simp [leadingWidth, front],
      by simp [trailingWidth, back], by simp [front], by simp [back]⟩
  · obtain ⟨lead, middle, inner, cut⟩ := Token.exists_cut (fits first member) (trimmed first member)
    obtain ⟨inner', middle', trail, cut'⟩ :=
      Token.exists_cut (fits last member') (trimmed last member')
    have built {text : List Char} (whole : element.fullText = lead ++ (text ++ trail)) :
        element.Cut lead text trail :=
      ⟨whole, by simp [leadingWidth, front, cut.leading],
        by simp [trailingWidth, back, cut'.trailing], by simp [front, cut.leadingText?],
        by simp [back, cut'.trailingText?]⟩
    rcases parts with ⟨rfl, whole⟩ | ⟨between, whole⟩
    · have same : inner = trail := Option.some.inj (cut.trailingText?.symm.trans cut'.trailingText?)
      subst same
      exact ⟨lead, middle, inner, built (whole.trans cut.text)⟩
    · refine ⟨lead, middle ++ inner ++ between ++ inner' ++ middle', trail, built ?_⟩
      rw [whole, cut.text, cut'.text]
      simp

end Element

namespace Range

/-- Ranges follow one on the other from `start` to `stop`. -/
def Tile : List Range → (start stop : Nat) → Prop
  | [], start, stop => start = stop
  | range :: rest, start, stop =>
    range.start = start ∧ range.start ≤ range.stop ∧ Tile rest range.stop stop

private theorem tile_append {front back : List Range} {start middle stop : Nat}
    (first : Tile front start middle) (next : Tile back middle stop) :
    Tile (front ++ back) start stop := by
  induction front generalizing start with
  | nil =>
    rw [Tile] at first
    rw [first]
    exact next
  | cons range rest ih => exact ⟨first.1, first.2.1, ih first.2.2⟩

end Range

namespace Located

/-- The places that the slots of a tree lead to from its root. -/
inductive Under (root : Element) : Located → Prop
  | root : Under root (.root root)
  | slot {place child : Located} {index : Nat} (above : Under root place)
    (found : place.slot? index = some child) : Under root child

/-- The tokens left of a place: at each level of the way down, those of the slots before the one
taken. -/
def tokensBefore : List Crumb → List Token
  | [] => []
  | crumb :: trail =>
    tokensBefore trail ++ Element.slotTokens (crumb.parent.slots.take crumb.index)

/-- The tokens right of a place: at each level of the way down, those of the slots after the one
taken. -/
def tokensAfter : List Crumb → List Token
  | [] => []
  | crumb :: trail =>
    Element.slotTokens (crumb.parent.slots.drop (crumb.index + 1)) ++ tokensAfter trail

private theorem tokens_of_slot? {element child : Element} {index : Nat}
    (found : element.slot? index = some child) :
    element.tokens = Element.slotTokens (element.slots.take index) ++
      (child.tokens ++ Element.slotTokens (element.slots.drop (index + 1))) := by
  rw [Element.slot?, Option.join_eq_some_iff] at found
  obtain ⟨inside, here⟩ := List.getElem?_eq_some_iff.mp found
  have parted : element.slots =
      element.slots.take index ++ some child :: element.slots.drop (index + 1) := by
    rw [← here, ← List.drop_eq_getElem_cons inside, List.take_append_drop]
  have whole : element.tokens = Element.slotTokens element.slots := by
    cases element with
    | leaf token => simp [Element.slots] at inside
    | node kind slots diagnostics => rw [Element.tokens_node, Element.slots]
  rw [whole]
  conv_lhs => rw [parted]
  simp

theorem Under.parted {root : Element} {place : Located} (under : Under root place) :
    root.tokens = tokensBefore place.trail ++ (place.element.tokens ++ tokensAfter place.trail) ∧
      place.offset = Text.byteSize ((tokensBefore place.trail).flatMap Token.text) := by
  induction under with
  | root => simp [Located.root, tokensBefore, tokensAfter]
  | @slot place child index above found ih =>
    obtain ⟨element, filled, rfl⟩ := Option.map_eq_some_iff.mp found
    obtain ⟨tokens, offset⟩ := ih
    refine ⟨?_, ?_⟩
    · rw [tokens, tokens_of_slot? filled]
      simp [tokensBefore, tokensAfter]
    · simp [tokensBefore, offset, Element.slotOffset, Element.slotsWidth_eq]

theorem slotOffset_succ {element : Element} {index : Nat} :
    element.slotOffset (index + 1) =
      element.slotOffset index + (element.slot? index).elim 0 Element.width := by
  rw [Element.slotOffset, Element.slotOffset, Element.slot?, List.take_add_one]
  cases there : element.slots[index]? with
  | none => simp
  | some slot => cases slot <;> simp [Element.slotsWidth]

private theorem children_tile (place : Located) (count : Nat) :
    Range.Tile (((List.range count).filterMap place.slot?).map fullSpan) place.offset
      (place.offset + place.element.slotOffset count) := by
  induction count with
  | zero => simp [Range.Tile, Element.slotOffset, Element.slotsWidth]
  | succ count ih =>
    rw [List.range_succ, List.filterMap_append, List.map_append, slotOffset_succ]
    refine Range.tile_append ih ?_
    cases there : place.element.slot? count with
    | none => simp [slot?, there, Range.Tile]
    | some child => simp [slot?, there, Range.Tile, fullSpan, Range.ofLength, Nat.add_assoc]

/-- What the offset, the width, the ranges and the texts of a place say about its tree. -/
structure Measured (root : Element) (place : Located) : Prop where
  tokens : root.tokens =
    tokensBefore place.trail ++ (place.element.tokens ++ tokensAfter place.trail)
  offset : place.offset = ((tokensBefore place.trail).map Token.width).sum
  width : place.element.width = Text.byteSize place.element.fullText
  /-- No sum of widths goes beyond the largest offset. -/
  bounded : place.offset + place.element.width ≤ Diagnostic.offsetLimit ∧
    place.element.width? = some place.element.width ∧
    ∀ index, place.slotStart? index = some (place.offset + place.element.slotOffset index)
  children : place.isNode = true →
    Range.Tile (place.children.map fullSpan) place.fullSpan.start place.fullSpan.stop
  fullText : Text.slice? place.fullSpan.start place.fullSpan.stop root.fullText =
    some place.element.fullText
  /-- The trivia at both ends does not overlap. -/
  span : (∀ token ∈ place.element.tokens, token.Built) →
    place.element.leadingWidth + place.element.trailingWidth ≤ place.element.width ∧
      place.span = ⟨place.offset + place.element.leadingWidth,
        place.offset + place.element.width - place.element.trailingWidth⟩ ∧
      place.fullSpan.start ≤ place.span.start ∧ place.span.start ≤ place.span.stop ∧
      place.span.stop ≤ place.fullSpan.stop
  /-- Where trivia ends between characters, there is a text without it. -/
  text : (∀ token ∈ place.element.tokens, token.Built ∧ token.trimmed?.isSome = true) →
    ∃ lead middle trail, place.element.Cut lead middle trail ∧ place.text? = some middle ∧
      Text.slice? place.span.start place.span.stop root.fullText = some middle

private theorem Under.measured {root : Element} {place : Located} (under : Under root place)
    (made : root.width?.isSome = true) : place.Measured root := by
  obtain ⟨tokens, offset⟩ := under.parted
  have whole : root.fullText = (tokensBefore place.trail).flatMap Token.text ++
      (place.element.fullText ++ (tokensAfter place.trail).flatMap Token.text) := by
    simp [Element.fullText, tokens]
  have inside : place.offset + place.element.width ≤ Diagnostic.offsetLimit := by
    have limit := Element.width?_isSome_iff.mp made
    rw [Element.width_eq, whole, Text.byteSize_append, Text.byteSize_append] at limit
    rw [Element.width_eq, offset]
    omega
  refine ⟨tokens, by rw [offset, Token.byteSize_flatMap_text], place.element.width_eq,
    ⟨inside, ?_, fun index => ?_⟩, fun isNode => ?_, ?_, fun built => ?_, fun built => ?_⟩
  · rw [Element.width?_eq, Element.bounded?_of_le (by omega)]
  · have before := place.element.slotOffset_le_width index
    rw [slotStart?, Element.slotOffset?_eq, Element.bounded?_of_le (by omega)]
    exact Element.bounded?_of_le (by omega)
  · have tile := place.children_tile place.element.slots.length
    have all : place.element.slotOffset place.element.slots.length = place.element.width := by
      cases element : place.element with
      | leaf token => simp [Located.isNode, element, Element.isNode] at isNode
      | node kind slots diagnostics =>
        simp [Element.slotOffset, Element.slots, Element.width]
    rw [all] at tile
    exact tile
  · rw [whole]
    simp only [fullSpan, Range.ofLength, offset, Element.width_eq]
    exact Text.slice?_append _ _ _
  · have fits : ∀ token ∈ place.element.tokens, token.Fits :=
      fun token member => (built token member).fits
    have bound := Element.trivia_le_width fits
    refine ⟨bound, Element.span_eq fits _, ?_⟩
    rw [span, Element.span_eq fits]
    simp only [fullSpan, Range.ofLength]
    omega
  · have fits : ∀ token ∈ place.element.tokens, token.Fits :=
      fun token member => (built token member).1.fits
    obtain ⟨lead, middle, trail, cut⟩ :=
      Element.exists_cut fits fun token member => (built token member).2
    have size : place.element.width =
        Text.byteSize lead + (Text.byteSize middle + Text.byteSize trail) := by
      simp [Element.width_eq, cut.text]
    have stop (start : Nat) : start + place.element.width - place.element.trailingWidth =
        start + Text.byteSize lead + Text.byteSize middle := by
      rw [size, ← cut.trailing]
      omega
    refine ⟨lead, middle, trail, cut, ?_, ?_⟩
    · have parts := Text.slice?_append lead middle trail
      rw [Located.text?, Element.text?, Element.span_eq fits, stop, cut.text, ← cut.leading]
      simpa only [Nat.zero_add] using parts
    · rw [span, Element.span_eq fits, stop, whole, cut.text, ← cut.leading, offset]
      have parts := Text.slice?_append
        ((tokensBefore place.trail).flatMap Token.text ++ lead) middle
        (trail ++ (tokensAfter place.trail).flatMap Token.text)
      simpa [Nat.add_assoc] using parts

end Located

/-! Red nodes and tokens stand at places of their tree. -/

@[simp]
theorem RedNode.place_element (node : RedNode) : node.place.element = node.green.element := by
  cases node <;> rfl

@[simp]
theorem RedNode.place_offset (node : RedNode) : node.place.offset = node.offset := by
  cases node <;> rfl

private theorem RedNode.Sound.under {node : RedNode} (sound : node.Sound) :
    Located.Under node.top.green.element node.place := by
  induction node with
  | root address green => exact .root
  | child address green parent index offset ih =>
    obtain ⟨-, slot, -, start, above⟩ := sound
    obtain ⟨element, filled, rfl⟩ := Option.map_eq_some_iff.mp slot
    refine @Located.Under.slot _ _ _ index (ih above) ?_
    simp [Located.slot?, filled, place, start]

private theorem RedToken.Sound.under {token : RedToken} (sound : token.Sound)
    (above : token.parent.Sound) :
    Located.Under token.parent.top.green.element token.place := by
  obtain ⟨filled, start⟩ := sound
  refine @Located.Under.slot _ _ _ token.index above.under ?_
  simp [Located.slot?, filled, place, start]

private theorem RedElement.StandsIn.place {node : RedNode} {index : Nat} {element : RedElement}
    (stands : element.StandsIn node index) (sound : element.holds.Sound) :
    node.place.slot? index = some element.place := by
  cases element with
  | node found =>
    obtain ⟨below, rfl⟩ := stands
    cases found with
    | root => simp [RedNode.parent?] at below
    | child address green parent index offset =>
      rw [RedNode.parent?, Option.some.injEq] at below
      subst below
      obtain ⟨-, slot, -, start, -⟩ := sound
      obtain ⟨element, filled, rfl⟩ := Option.map_eq_some_iff.mp slot
      simp [Located.slot?, RedNode.index, filled, RedElement.place, RedNode.place, start]
  | token found =>
    obtain ⟨rfl, rfl, filled, start⟩ := stands
    simp [Located.slot?, filled, RedElement.place, RedToken.place, start]

namespace Store

variable {store : Store} {outside : List RedNode} {node : RedNode}

private theorem place_slot_of_none {index : Nat} (nothing : (store.slot node index).1 = none) :
    node.place.slot? index = none := by
  unfold slot at nothing
  cases there : node.green.slot? index with
  | none =>
    rw [Green.slot?, Option.map_eq_none_iff] at there
    simp [Located.slot?, there]
  | some green =>
    rw [there] at nothing
    cases content : green.element <;> simp [content] at nothing

private theorem Owned.slots_place (owned : store.Owned outside) (member : node ∈ store.nodes)
    (indices : List Nat) :
    (store.slots node indices).1.map RedElement.place = indices.filterMap node.place.slot? := by
  induction indices generalizing store outside with
  | nil => rfl
  | cons index indices ih =>
    rw [Store.slots]
    obtain nothing | ⟨element, after, found, owned', stands⟩ := owned.slot member index
    · have empty : node.place.slot? index = none :=
        place_slot_of_none (by rw [nothing])
      rw [nothing, List.filterMap_cons_none empty]
      exact ih owned member
    · have held : element.holds ∈ after.nodes :=
        owned'.held _ (List.mem_append_left _ List.mem_cons_self)
      have here := stands.place (owned'.sound _ held)
      have still : node ∈ after.nodes := by
        cases element with
        | node child => exact owned'.parent_mem held stands.1
        | token token => exact stands.1 ▸ held
      rw [found, List.filterMap_cons_some here]
      exact congrArg (element.place :: ·) (ih owned' still)

end Store

/-! The tokens of a parsed tree. -/

private theorem Reading.token_built (reading : Reading) : reading.token.Built := by
  have made := reading.make?_token
  cases found : reading.lexeme.value with
  | none =>
    have built := (Token.Built.make made).withDiagnostics reading.diagnostics
    simpa [Token.withDiagnostics, token, found] using built
  | some value =>
    have built := ((Token.Built.make made).withValue value).withDiagnostics reading.diagnostics
    simpa [Token.withDiagnostics, Token.withValue, token, found] using built

private theorem Tree.parse_cut {text : List Char} {options : Options} {name : Option String}
    {tree : Tree} (parsed : Tree.parse text options name = .ok tree) :
    ∀ token ∈ tree.root.tokens, token.Built ∧ token.trimmed?.isSome = true := by
  obtain ⟨stream, t, lexed, read⟩ := Tree.script_of_parse parsed
  obtain ⟨-, ends, kinds, -⟩ := Lexer.tokens_ok lexed
  intro token member
  rcases Grammar.script_drawn ends kinds _ _ read token member with real | ⟨kind, rfl⟩
  · obtain ⟨placed, found, rfl⟩ := List.mem_map.mp real
    obtain ⟨source, same⟩ := Lexer.tokens_read lexed placed found
    rw [same, Reading.token_trimmed?]
    exact ⟨source.reading.token_built, rfl⟩
  · exact ⟨.withDiagnostics _ (.missing kind), rfl⟩

namespace Session

/-- Whatever a client does, offsets, ranges and texts of the nodes and tokens that it keeps are
those of their places in the trees that it was given, as far as these can be made: their text must
not go beyond the largest offset. In a parsed tree all trivia ends between characters. -/
theorem run_measured (operations : List Operation) :
    (∀ origin node, (run operations).Reached origin node →
      ∃ root, (run operations).roots[origin.call]? = some root ∧
        (root.green.element.width?.isSome = true → node.place.Measured root.green.element) ∧
        ((run operations).store.children node).1.map RedElement.place = node.place.children) ∧
    (∀ held ∈ (run operations).tokens,
      ∃ root, (run operations).roots[held.1.call]? = some root ∧
        (root.green.element.width?.isSome = true → held.2.place.Measured root.green.element) ∧
        (held.2.token.Built → held.2.place.span = held.2.token.span held.2.offset ∧
          held.2.place.text? = held.2.token.trimmed?)) ∧
    (∀ root : Element, root.width?.isSome = true ↔
      Text.byteSize root.fullText ≤ Diagnostic.offsetLimit) ∧
    ∀ text options name tree, Tree.parse text options name = .ok tree →
      ∀ token ∈ tree.root.tokens, token.Built ∧ token.trimmed?.isSome = true := by
  have valid := run_valid operations
  refine ⟨fun origin node reached => ?_, fun held member => ?_,
    fun root => by rw [Element.width?_isSome_iff, Element.width_eq],
    fun text options name tree parsed => Tree.parse_cut parsed⟩
  · obtain ⟨member, top, path⟩ := valid.of_reached reached
    have under := (valid.owned.sound node member).under
    have places := valid.owned.slots_place member (List.range node.place.element.slots.length)
    rw [RedNode.place_element] at places
    exact ⟨node.top, top, under.measured, by
      rw [Store.children, places, Located.children, RedNode.place_element]⟩
  · obtain ⟨above, origin, top, -⟩ := valid.tokens held member
    have sound := valid.sound held member
    have under := sound.under (valid.owned.sound _ (valid.token_mem member))
    refine ⟨_, ?_, under.measured, fun built => ?_⟩
    · rw [origin]
      exact top
    · obtain ⟨span, text⟩ := Element.leaf_trimmed built.fits
      exact ⟨span held.2.offset, text⟩

/-- A node after an empty slot and a token that is missing, with a comment of more than one byte a
character. -/
theorem run_measured_nested :
    let y : Token :=
      ⟨.identifier, " y%é".toList, [⟨.whitespace, 1⟩], [⟨.comment, 3⟩], none, false, []⟩
    let inner : Element := .node .list [some (.leaf y)] []
    let root : Green := ⟨.node .list [some (.leaf y), none, some (.leaf (.missing .semicolon)),
      some inner] [], []⟩
    let node : RedNode := .child 1 ⟨inner, [3]⟩ (.root 0 root) 3 5
    (run [.newRoot root, .slot 0 3]).Reached ⟨0, [3]⟩ node ∧
      node.place.Measured root.element ∧ node.place.span = ⟨6, 7⟩ ∧
      node.place.text? = some ['y'] ∧ Text.slice? 6 7 root.element.fullText = some ['y'] := by
  intro y inner root node
  have reached : (run [.newRoot root, .slot 0 3]).Reached ⟨0, [3]⟩ node := .held (by decide)
  obtain ⟨top, here, measures, -⟩ := (run_measured _).1 _ _ reached
  have first : some (.root 0 root) = some top := here
  obtain rfl := Option.some.inj first
  have measured : node.place.Measured root.element := measures (by decide)
  have built : ∀ token ∈ node.place.element.tokens,
      token.Built ∧ token.trimmed?.isSome = true := by
    intro token member
    rw [show node.place.element.tokens = [y] by decide, List.mem_singleton] at member
    subst member
    have made : Token.make? .identifier " y%é".toList [⟨.whitespace, 1⟩] [⟨.comment, 3⟩] = some y :=
      by decide
    exact ⟨.make made, by decide⟩
  have span : node.place.span = ⟨6, 7⟩ := by decide
  obtain ⟨lead, middle, trail, -, text, slice⟩ := measured.text built
  have letter : node.place.text? = some ['y'] := by decide
  rw [letter] at text
  rw [span, ← text] at slice
  exact ⟨reached, measured, span, letter, slice⟩

end Session

end MatrixScript
