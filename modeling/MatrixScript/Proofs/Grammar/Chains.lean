import MatrixScript.Proofs.Grammar.Conservation
import MatrixScript.Proofs.Lexer.Problems
import MatrixScript.Proofs.Tree.Parts
import MatrixScript.Proofs.Tree.Preorder

/-!
Line breaks end chains of operators.

What a parser has looked at when it joins an operator with what stands around it is kept at the node
(`Linked`): the tokens of the text in front of the operator are those in front of it in the tree.
So no operator stands behind a line break, but a `:` or a sign that begins an expression; and where
the line ends behind an operator, its operand is left out (`Tree.parse_chains`). The name behind a
dot or an `@` is not: it is taken from the next line (`Tree.parse_references`).
-/

set_option autoImplicit false

namespace MatrixScript

namespace Element

mutual

/-- A condition on an element and the tokens in front of it holds of an element behind certain tokens
and of all below it. -/
def AllAfter (holds : List Token → Element → Prop) : List Token → Element → Prop
  | front, .leaf token => holds front (.leaf token)
  | front, .node kind slots diagnostics =>
    holds front (.node kind slots diagnostics) ∧ RowAfter holds front slots

def RowAfter (holds : List Token → Element → Prop) : List Token → List (Option Element) → Prop
  | _, [] => True
  | front, none :: rest => RowAfter holds front rest
  | front, some element :: rest =>
    AllAfter holds front element ∧ RowAfter holds (front ++ element.tokens) rest

end

section

variable {holds : List Token → Element → Prop}

private theorem AllAfter.here {front : List Token} {element : Element}
    (all : AllAfter holds front element) : holds front element := by
  cases element with
  | leaf token => simpa [AllAfter] using all
  | node kind slots diagnostics =>
    rw [AllAfter] at all
    exact all.1

private theorem rowAfter_append {front : List Token} {a b : List (Option Element)} :
    RowAfter holds front (a ++ b) ↔
      RowAfter holds front a ∧ RowAfter holds (front ++ slotTokens a) b := by
  induction a generalizing front with
  | nil => simp [RowAfter]
  | cons slot a ih =>
    cases slot <;> simp [RowAfter, ih, and_assoc]

@[simp]
theorem rowAfter_none (front : List Token) : RowAfter holds front [none] := by
  simp [RowAfter]

@[simp]
theorem rowAfter_singleton {front : List Token} {element : Element} :
    RowAfter holds front [some element] ↔ AllAfter holds front element := by
  simp [RowAfter]

private theorem RowAfter.get {front : List Token} {slots : List (Option Element)}
    (row : RowAfter holds front slots) {index : Nat} {child : Element}
    (found : slots[index]? = some (some child)) :
    AllAfter holds (front ++ slotTokens (slots.take index)) child := by
  obtain ⟨inside, here⟩ := List.getElem?_eq_some_iff.mp found
  have parted : slots = slots.take index ++ some child :: slots.drop (index + 1) := by
    rw [← here, ← List.drop_eq_getElem_cons inside, List.take_append_drop]
  rw [parted, rowAfter_append, RowAfter] at row
  exact row.2.1

end

end Element

private theorem Located.Under.allAfter {holds : List Token → Element → Prop} {root : Element}
    (all : Element.AllAfter holds [] root) {place : Located} (under : Under root place) :
    Element.AllAfter holds (tokensBefore place.trail) place.element := by
  induction under with
  | root => exact all
  | @slot place child index above found ih =>
    obtain ⟨element, filled, rfl⟩ := Option.map_eq_some_iff.mp found
    rw [Element.slot?, Option.join_eq_some_iff] at filled
    obtain ⟨_ | ⟨kind, slots, diagnostics⟩, offset, trail⟩ := place
    · simp [Element.slots] at filled
    · rw [Element.AllAfter] at ih
      exact ih.2.get filled

namespace Grammar

/-- What a parser has used up of the tokens of a text: those that it holds and that are not missing.
The last of them is the one used last. -/
structure State.Past (stream : TokenStream) (held : List Token) (s : State)
    (past : List PlacedToken) : Prop where
  whole : stream.tokens = past ++ s.rest
  held : held.filter (!·.isMissing) = past.map PlacedToken.token
  previous : s.previous = past.getLast?.map PlacedToken.token

namespace State.Past

variable {stream : TokenStream} {held : List Token} {s : State} {past : List PlacedToken}

private theorem used (before : s.Past stream held past) {placed : PlacedToken}
    {rest : List PlacedToken}
    (ahead : s.rest = placed :: rest) (present : placed.token.isMissing = false) :
    (s.afterToken placed rest).Past stream (held ++ [placed.token]) (past ++ [placed]) where
  whole := by
    rw [before.whole, ahead, List.append_assoc]
    rfl
  held := by simp [before.held, present]
  previous := by simp [State.afterToken]

private theorem lacked (before : s.Past stream held past) (kind : Kind) (diagnostic : Diagnostic) :
    (s.afterReport diagnostic).Past stream (held ++ [lackingToken kind]) past where
  whole := before.whole
  held := by simp [before.held]
  previous := before.previous

private theorem reported (before : s.Past stream held past) (diagnostic : Diagnostic) :
    (s.afterReport diagnostic).Past stream held past :=
  ⟨before.whole, before.held, before.previous⟩

private theorem last (before : s.Past stream held past) (sameLine : s.previousEndsLine = false) :
    ∀ last ∈ past.getLast?, last.token.endsLine = false := by
  intro last found
  rw [State.previousEndsLine, before.previous, Option.mem_def.mp found] at sameLine
  exact sameLine

end State.Past

/-- How a node of an operator was made, if `front` are the tokens in front of it. -/
structure Made (stream : TokenStream) (front : List Token) (kind : Kind)
    (left right : List (Option Element)) (operator : PlacedToken) (s : State)
    (past later : List PlacedToken) : Prop where
  past : s.Past stream (front ++ Element.slotTokens left) past
  ahead : s.rest = operator :: later
  links : s.Links operator.token later kind left right

/-- A node that is made neither of an operator nor of an error, or one of an operator that was made
as `Made` says. -/
def Linked (stream : TokenStream) (front : List Token) : Element → Prop
  | .leaf _ => True
  | .node kind slots _ => kind = .error ∨ kind.isPlain = true ∨
    ∃ left right operator s past later, slots = left ++ some (.leaf operator.token) :: right ∧
      Made stream front kind left right operator s past later

section

variable {stream : TokenStream} {init' s s' : State} {held held' : Row}

private theorem Tandem.exists_past
    (present : ∀ placed ∈ stream.tokens, placed.token.isMissing = false)
    (tandem : Tandem (.ofStream stream) init' held s held' s') :
    ∃ past, s.Past stream (Element.slotTokens held) past := by
  have ahead_mem {s : State} {held : List Token} {past : List PlacedToken}
      (before : s.Past stream held past) {placed : PlacedToken} {rest : List PlacedToken}
      (ahead : s.rest = placed :: rest) : placed.token.isMissing = false :=
    present placed (by simp [before.whole, ahead])
  induction tandem with
  | start alike => exact ⟨[], rfl, rfl, rfl⟩
  | use before ahead _ ih =>
    obtain ⟨past, known⟩ := ih
    exact ⟨_, by simpa using known.used ahead (ahead_mem known ahead)⟩
  | lack kind proper before ih =>
    obtain ⟨past, known⟩ := ih
    exact ⟨past, by simpa using known.lacked kind _⟩
  | wrap expected before ahead _ ih =>
    obtain ⟨past, known⟩ := ih
    exact ⟨_, by simpa [errorElement] using (known.reported _).used ahead (ahead_mem known ahead)⟩
  | leave before ih => simpa using ih
  | join kind plain same before ih => simpa using ih
  | link before _ _ same after _ ih => simpa using ih

private theorem Tandem.linked (present : ∀ placed ∈ stream.tokens, placed.token.isMissing = false)
    (tandem : Tandem (.ofStream stream) init' held s held' s') :
    Element.RowAfter (Linked stream) [] held := by
  have leaf (front : List Token) (token : Token) :
      Element.AllAfter (Linked stream) front (.leaf token) := by
    rw [Element.AllAfter, Linked]
    trivial
  induction tandem with
  | start alike => simp [Element.RowAfter]
  | use before ahead _ ih | lack kind proper before ih =>
    exact Element.rowAfter_append.mpr ⟨ih, Element.rowAfter_singleton.mpr (leaf _ _)⟩
  | wrap expected before ahead _ ih =>
    refine Element.rowAfter_append.mpr ⟨ih, Element.rowAfter_singleton.mpr ?_⟩
    rw [errorElement, Element.AllAfter]
    exact ⟨Or.inl rfl, Element.rowAfter_singleton.mpr (leaf _ _)⟩
  | leave before ih => exact Element.rowAfter_append.mpr ⟨ih, Element.rowAfter_none _⟩
  | join kind plain same before ih =>
    obtain ⟨outer, inner⟩ := Element.rowAfter_append.mp ih
    refine Element.rowAfter_append.mpr ⟨outer, Element.rowAfter_singleton.mpr ?_⟩
    rw [Element.AllAfter]
    exact ⟨Or.inr (Or.inl plain), inner⟩
  | @link held _ left _ right _ s _ _ _ placed rest kind before ahead links same after _ ih =>
    obtain ⟨outer, inner⟩ := Element.rowAfter_append.mp ih
    obtain ⟨past, known⟩ := before.exists_past present
    rw [Element.slotTokens_append] at known
    refine Element.rowAfter_append.mpr ⟨outer, Element.rowAfter_singleton.mpr ?_⟩
    rw [Element.AllAfter]
    exact ⟨Or.inr (Or.inr ⟨left, right, placed, s, past, rest, rfl, known, ahead, links⟩), inner⟩

private theorem script_linked {inside : Bool} (ends : stream.eof.kind = .eof)
    (kinds : ∀ placed ∈ stream.tokens, placed.kind ≠ .eof)
    (present : ∀ placed ∈ stream.tokens, placed.token.isMissing = false) :
    Gives (script inside) (.ofStream stream) fun root _ =>
      Element.AllAfter (Linked stream) [] root := by
  refine (script_tandem ends kinds).mono fun root t facts => ?_
  obtain ⟨statements, moves, -, rfl⟩ := facts
  have plain : Kind.file.isPlain = true ∧ Kind.list.isPlain = true := by decide
  simp only [Element.ofChildren, Element.list, Element.AllAfter, Element.RowAfter, List.map_cons,
    List.map_nil, Linked]
  exact ⟨Or.inr (Or.inl plain.1), ⟨Or.inr (Or.inl plain.2), moves.linked present⟩, trivial, trivial⟩

end

end Grammar

private theorem PlacedToken.Consecutive.fullStart_eq {front : List PlacedToken}
    {placed : PlacedToken}
    {back : List PlacedToken} {offset : Nat}
    (consecutive : PlacedToken.Consecutive offset (front ++ placed :: back)) :
    placed.fullStart = offset + Text.byteSize ((front.map token).flatMap Token.text) := by
  induction front generalizing offset with
  | nil => exact consecutive.1
  | cons first front ih =>
    rw [ih consecutive.2, List.map_cons, List.flatMap_cons, Text.byteSize_append, Nat.add_assoc,
      Token.width]

private theorem Grammar.State.Past.fullStart_eq {stream : TokenStream} {held : List Token}
    {s : State}
    {past later : List PlacedToken} {placed : PlacedToken} (before : s.Past stream held past)
    (ahead : s.rest = placed :: later)
    (consecutive : PlacedToken.Consecutive 0 stream.toList)
    (empty : ∀ token ∈ held, token.isMissing = true → token.text = []) :
    placed.fullStart = Text.byteSize (held.flatMap Token.text) := by
  rw [TokenStream.toList, before.whole, ahead, List.append_assoc, List.cons_append] at consecutive
  rw [consecutive.fullStart_eq, ← before.held, flatMap_text_filter empty, Nat.zero_add]

private theorem Lexer.width_ne_zero {lexer : Lexer} {stream : TokenStream}
    (ok : lexer.tokens = .ok stream) :
    ∀ placed ∈ stream.tokens, placed.token.width ≠ 0 := by
  intro placed member
  obtain ⟨-, -, kinds, -⟩ := tokens_ok ok
  obtain ⟨source, same⟩ := tokens_read ok placed (List.mem_append_left _ member)
  have proper := kinds placed member
  rw [PlacedToken.kind, same] at proper
  have visible : source.reading.lexeme.text ≠ [] := Context.read_lexeme_ne_nil proper
  intro nothing
  rw [same, Token.width, Text.byteSize_eq_zero] at nothing
  have parts : Fragment.textOf source.reading.leading ++ source.reading.lexeme.text ++
      Fragment.textOf source.reading.trailing = [] := nothing
  rw [List.append_eq_nil_iff, List.append_eq_nil_iff] at parts
  exact visible parts.1.2

private theorem Element.width_eq_zero_iff {slots : List (Option Element)} :
    (∀ element, some element ∈ slots → element.width = 0) ↔
      ∀ token ∈ slotTokens slots, token.width = 0 := by
  have own (element : Element) : element.width = 0 ↔ ∀ token ∈ element.tokens, token.width = 0 := by
    rw [width_eq, fullText, Text.byteSize_eq_zero, List.flatMap_eq_nil_iff]
    exact forall₂_congr fun token _ => by rw [Token.width, Text.byteSize_eq_zero]
  induction slots with
  | nil => simp
  | cons slot slots ih =>
    cases slot with
    | none => simpa using ih
    | some first => simp [own first, ih, or_imp, forall_and]

private theorem Located.width_behind_iff {place : Located} {left right : List (Option Element)}
    {middle : Option Element} (slots : place.element.slots = left ++ middle :: right) :
    (∀ index child, left.length < index → place.slot? index = some child →
        child.element.width = 0) ↔
      ∀ token ∈ Element.slotTokens right, token.width = 0 := by
  have slot (index : Nat) :
      place.element.slot? (left.length + 1 + index) = (right[index]?).join := by
    rw [Element.slot?, slots, List.getElem?_append_right (by omega),
      show left.length + 1 + index - left.length = index + 1 by omega, List.getElem?_cons_succ]
  rw [← Element.width_eq_zero_iff]
  constructor
  · intro narrow element member
    obtain ⟨index, found⟩ := List.mem_iff_getElem?.mp member
    obtain ⟨child, there, rfl⟩ :=
      Located.slot?_of_element ((slot index).trans (by rw [found, Option.join_some]))
    exact narrow _ child (by omega) there
  · intro narrow index child deeper found
    obtain ⟨index, rfl⟩ := Nat.exists_eq_add_of_le (Nat.succ_le_of_lt deeper)
    have there := (slot index).symm.trans (Located.element_of_slot? found)
    exact narrow _ (List.mem_of_getElem? (Option.join_eq_some_iff.mp there))

/-- A place of a tree holds a token of a text; `past` are the tokens in front of it, and `later` those
behind it. -/
structure TokenStream.Holds (stream : TokenStream) (place : Located) (past : List PlacedToken)
    (placed : PlacedToken) (later : List PlacedToken) : Prop where
  whole : stream.toList = past ++ placed :: later
  element : place.element = .leaf placed.token
  offset : place.offset = placed.fullStart

def Located.isBareRange (place : Located) : Bool :=
  place.kind == .binaryOperationExpression &&
    (place.slot? 0).any (·.kind == .emptyExpression)

/-- How the node at a place of a tree keeps to the lines of a text. -/
structure Located.KeepsLines (stream : TokenStream) (place : Located) : Prop where
  /-- The token in front of an operator, an opening bracket, a dot or an `@` does not end its line, but
  for a `:` without a left side. -/
  sameLine : place.kind.isChain = true → place.isBareRange = false →
    ∃ operator past placed later, place.slot? 1 = some operator ∧
      stream.Holds operator past placed later ∧ ∀ last ∈ past.getLast?, last.token.endsLine = false
  /-- An operator that ends its line has nothing for its operand: a missing name, or behind a `:` or a
  `~` an expression that is left out. -/
  leavesOut (index : Nat) : place.kind.operator? = some index →
    ∃ operator operand past placed later, place.slot? index = some operator ∧
      place.slot? (index + 1) = some operand ∧ stream.Holds operator past placed later ∧
      (placed.token.endsLine = true → operand.element.width = 0 ∧
        (operand.element = Grammar.lackingOperand ∨ operand.element = Grammar.emptyExpression ∧
          (placed.kind = .colon ∨ placed.kind = .tilde)))

/-- What stands behind a dot or an `@` that ends its line is nothing but a missing name just where
the next token of the text is none that a suffix takes: no name, and no parenthesis behind a dot. -/
def Located.RefersOn (stream : TokenStream) (place : Located) : Prop :=
  ∃ operator past placed later, place.slot? 1 = some operator ∧
    stream.Holds operator past placed later ∧
    (placed.token.endsLine = true →
      ((∀ index child, 1 < index → place.slot? index = some child → child.element.width = 0) ↔
        ∀ next ∈ later.head?, place.kind.takes next.kind = false))

namespace Tree

variable {text : List Char} {options : Options} {name : Option String} {tree : Tree}

private theorem exists_made (parsed : Tree.parse text options name = .ok tree) :
    ∃ stream, tokenize text = .ok stream ∧
      ∀ place ∈ (Located.root tree.root).descendants,
        place.kind ≠ .error ∧ place.kind.isPlain = false →
          ∃ left right placed, ∃ s : Grammar.State, ∃ past later operator,
            place.element.slots = left ++ some (.leaf placed.token) :: right ∧
            place.slot? left.length = some operator ∧
            stream.Holds operator past placed (later ++ [stream.eof]) ∧
            s.Links placed.token later place.kind left right ∧
            (s.previousEndsLine = false → ∀ last ∈ past.getLast?, last.token.endsLine = false) := by
  obtain ⟨stream, t, lexed, read⟩ := Tree.script_of_parse parsed
  obtain ⟨-, ends, kinds, present⟩ := Lexer.tokens_ok lexed
  have consecutive : PlacedToken.Consecutive 0 stream.toList := (Lexer.tokens_consecutive lexed).1
  obtain ⟨-, -, -, -, -, empty, -⟩ := Tree.parse_conserves parsed
  have linked := Grammar.script_linked ends kinds
    (fun placed member => present placed (List.mem_append_left _ member)) _ _ read
  refine ⟨stream, lexed, fun place member operated => ?_⟩
  obtain ⟨met, isNode⟩ := List.mem_filter.mp member
  have under := Located.mem_preorder_root.mp met
  obtain ⟨tokens, start⟩ := under.parted
  have here := (under.allAfter linked).here
  obtain ⟨_ | ⟨kind, slots, diagnostics⟩, offset, trail⟩ := place
  · cases isNode
  obtain error | plain | ⟨left, right, placed, s, past, later, rfl, made⟩ := here
  · exact absurd error operated.1
  · cases plain.symm.trans operated.2
  · have whole : stream.toList = past ++ placed :: (later ++ [stream.eof]) := by
      rw [TokenStream.toList, made.past.whole, made.ahead, List.append_assoc, List.cons_append]
    have filled : (left ++ some (.leaf placed.token) :: right)[left.length]? =
        some (some (.leaf placed.token)) := by simp
    have slot : (Element.node kind (left ++ some (.leaf placed.token) :: right)
        diagnostics).slot? left.length = some (.leaf placed.token) := by
      rw [Element.slot?, Element.slots, filled, Option.join_some]
    have front : ∀ token ∈ Located.tokensBefore trail ++ Element.slotTokens left,
        token.isMissing = true → token.text = [] := by
      intro token member
      refine empty token ?_
      rw [tokens, Element.tokens_node, Element.slotTokens_append]
      rcases List.mem_append.mp member with member | member
      · exact List.mem_append_left _ member
      · exact List.mem_append_right _ (List.mem_append_left _ (List.mem_append_left _ member))
    refine ⟨left, right, placed, s, past, later, _, rfl, by rw [Located.slot?, slot, Option.map_some],
      ⟨whole, rfl, ?_⟩, made.links, made.past.last⟩
    have offset : offset = Text.byteSize ((Located.tokensBefore trail).flatMap Token.text) := start
    rw [made.past.fullStart_eq made.ahead consecutive front, List.flatMap_append,
      Text.byteSize_append, offset]
    simp [Element.slotOffset, Element.slotsWidth_eq, Element.slots]

/-- In a parsed tree a line break ends a chain of operators and suffixes. -/
theorem parse_chains (parsed : Tree.parse text options name = .ok tree) :
    ∃ stream, tokenize text = .ok stream ∧
      ∀ place ∈ (Located.root tree.root).descendants, place.KeepsLines stream := by
  obtain ⟨stream, lexed, made⟩ := exists_made parsed
  refine ⟨stream, lexed, fun place member => ⟨fun chain ranged => ?_, fun index operated => ?_⟩⟩
  · obtain ⟨left, right, placed, s, past, later, operator, slots, slot, holds, links, last⟩ :=
      made place member (Kind.isPlain_of_isChain chain)
    obtain ⟨second, sameLine | ⟨isBinary, rfl⟩⟩ := links.of_isChain chain
    · exact ⟨operator, past, placed, _, second ▸ slot, holds, last sameLine⟩
    · have first : place.element.slot? 0 = some Grammar.emptyExpression := by
        rw [Element.slot?, slots]
        rfl
      have bare : place.isBareRange = true := by
        rw [Located.isBareRange, Located.slot?, first, isBinary]
        rfl
      cases bare.symm.trans ranged
  · obtain ⟨left, right, placed, s, past, later, operator, slots, slot, holds, links, -⟩ :=
      made place member (Kind.isPlain_of_operator? operated)
    obtain ⟨rfl, operand, rfl, leavesOut⟩ := links.of_operator? operated
    have next : place.element.slot? (left.length + 1) = some operand := by
      simp [Element.slot?, slots]
    obtain ⟨there, found, same⟩ := Located.slot?_of_element next
    refine ⟨operator, there, past, placed, _, slot, found, holds, fun ends => ?_⟩
    rw [same]
    have left := leavesOut ends
    refine ⟨?_, left⟩
    rcases left with rfl | ⟨rfl, -⟩ <;> rfl

/-- Signs and operators at the end of a line, a range without ends, and suffixes. -/
theorem parse_chains_broken :
    ∃ tree stream, Tree.parse "y = a.b' -\n~\n[c{1}, :];\nx = :\n".toList {} none = .ok tree ∧
      tokenize "y = a.b' -\n~\n[c{1}, :];\nx = :\n".toList = .ok stream ∧
      ((Located.root tree.root).descendants.filter (·.kind.isChain)).length = 8 ∧
      ∀ place ∈ (Located.root tree.root).descendants, place.KeepsLines stream := by
  have ok : (Tree.parse "y = a.b' -\n~\n[c{1}, :];\nx = :\n".toList {} none).toOption.any
      (fun tree => ((Located.root tree.root).descendants.filter (·.kind.isChain)).length == 8) =
        true := by
    decide +kernel
  obtain ⟨tree, parsed, count⟩ := exists_ok_of_any ok
  obtain ⟨stream, lexed, keeps⟩ := parse_chains parsed
  exact ⟨tree, stream, parsed, lexed, by simpa using count, keeps⟩

/-- In a parsed tree the name behind a dot or an `@` is the next token, on whatever line. -/
theorem parse_references (parsed : Tree.parse text options name = .ok tree) :
    ∃ stream, tokenize text = .ok stream ∧
      ∀ place ∈ (Located.root tree.root).descendants, place.kind.isReference = true →
        place.RefersOn stream := by
  obtain ⟨stream, lexed, made⟩ := exists_made parsed
  have wide := Lexer.width_ne_zero lexed
  have last : stream.eof.kind = .eof := (Lexer.tokens_ok lexed).2.1
  refine ⟨stream, lexed, fun place member reference => ?_⟩
  have chain : place.kind.isChain = true := by simp [Kind.isChain, reference]
  obtain ⟨left, right, placed, s, past, later, operator, slots, slot, holds, links, -⟩ :=
    made place member (Kind.isPlain_of_isChain chain)
  obtain ⟨second, names⟩ := links.of_isReference reference
  refine ⟨operator, past, placed, _, second ▸ slot, holds, fun ends => ?_⟩
  have behind := Located.width_behind_iff slots
  rw [second] at behind
  rw [behind]
  obtain ⟨only, other⟩ | ⟨next, more, tokens, rfl, taken, first⟩ := names ends
  · refine iff_of_true (by simp [only]) fun next found => ?_
    cases later with
    | nil =>
      obtain rfl := Option.some.inj (Option.mem_def.mp found)
      simp [Kind.takes, last]
    | cons first later => exact other next found
  · refine iff_of_false (fun narrow => ?_) fun other => ?_
    · have whole := holds.whole
      rw [TokenStream.toList, ← List.cons_append, ← List.append_assoc] at whole
      have member : next ∈ stream.tokens := by
        rw [List.append_cancel_right whole]
        simp
      exact wide next member (narrow next.token (by simp [first]))
    · have none := other next (by simp)
      cases taken.symm.trans none

/-- A dot that ends its line in front of a name, one in front of a number, and an `@` in front of a
base class on the next line. -/
theorem parse_references_across :
    ∃ tree stream, Tree.parse "a.\nb\nc.\n1\nd@\nE.f".toList {} none = .ok tree ∧
      tokenize "a.\nb\nc.\n1\nd@\nE.f".toList = .ok stream ∧
      ((Located.root tree.root).descendants.filter (·.kind.isReference)).length = 4 ∧
      ∀ place ∈ (Located.root tree.root).descendants, place.kind.isReference = true →
        place.RefersOn stream := by
  have ok : (Tree.parse "a.\nb\nc.\n1\nd@\nE.f".toList {} none).toOption.any (fun tree =>
      ((Located.root tree.root).descendants.filter (·.kind.isReference)).length == 4) = true := by
    decide +kernel
  obtain ⟨tree, parsed, count⟩ := exists_ok_of_any ok
  obtain ⟨stream, lexed, refers⟩ := parse_references parsed
  exact ⟨tree, stream, parsed, lexed, by simpa using count, refers⟩

/-- A dot at the end of a line takes the name on the next one. -/
theorem reference_takes_next_line :
    ∃ tree, Tree.parse "a.\nb".toList {} none = .ok tree ∧
      ∃ place ∈ (Located.root tree.root).descendants, place.kind = .memberAccessExpression ∧
        (∃ dot token, place.slot? 1 = some dot ∧ dot.element.token? = some token ∧
          token.endsLine = true) ∧
        ∃ name, place.slot? 2 = some name ∧ name.element.width ≠ 0 := by
  have ok : (Tree.parse "a.\nb".toList {} none).toOption.any (fun tree =>
      (Located.root tree.root).descendants.any fun place =>
        place.kind == .memberAccessExpression &&
        ((place.slot? 1).any (fun dot => dot.element.token?.any Token.endsLine) &&
          (place.slot? 2).any (fun name => name.element.width != 0))) = true := by
    decide +kernel
  obtain ⟨tree, parsed, found⟩ := exists_ok_of_any ok
  obtain ⟨place, member, found⟩ := List.any_eq_true.mp found
  rw [Bool.and_eq_true, Bool.and_eq_true, Option.any_eq_true, Option.any_eq_true] at found
  obtain ⟨kind, ⟨dot, there, ends⟩, name, behind, wide⟩ := found
  obtain ⟨token, own, ends⟩ := (Option.any_eq_true _ _).mp ends
  exact ⟨tree, parsed, place, member, by simpa using kind, ⟨dot, token, there, own, ends⟩, name,
    behind, by simpa using wide⟩

end Tree

end MatrixScript
