import MatrixScript.Proofs.Grammar.Enclosing
import MatrixScript.Proofs.Tree.Layout

/-!
What the rules of the grammar build.

A condition on elements is heritable when every token has it, and every node that follows the layout
of its kind has it once all below it do; operations with a binary operator or a sign are left
aside, since more can be asked of them than of the others. Every rule of the grammar builds elements
with such a condition, if the rule for inner expressions does.

A list in brackets stops at its closing bracket, so only parentheses around one expression can lack
theirs.
-/

set_option autoImplicit false

namespace MatrixScript

/-- Nodes made of operators and operands: binary operations, assignments, and signs. -/
def Kind.isOperation : Kind → Bool
  | .assignmentExpression | .binaryOperationExpression | .unaryPrefixOperationExpression => true
  | _ => false

def Kind.isParenthesized : Kind → Bool
  | .parenthesizedExpression | .indirectMemberAccessExpression => true
  | _ => false

/-- Where the closing bracket of a list in brackets stands, and its kind. -/
def Kind.closingSlot? : Kind → Option (Nat × Kind)
  | .arrayLiteralExpression => some (2, .closeSquareBracket)
  | .cellArrayLiteralExpression => some (2, .closeBrace)
  | .functionCallExpression => some (3, .closeParenthesis)
  | .cellArrayElementAccessExpression => some (3, .closeBrace)
  | .enumerationItemValue | .attributeList | .functionInputDescription =>
    some (2, .closeParenthesis)
  | .functionOutputDescription => some (2, .closeSquareBracket)
  | _ => none

/-- Whether a token is a closing bracket that the text lacks. -/
def Token.lacksClosing (token : Token) : Bool := token.isMissing && token.kind.isClosing

def Element.isReal (kind : Kind) : Element → Bool
  | .leaf token => token.kind == kind && !token.isMissing
  | .node .. => false

/-- Whether a list in brackets has its closing bracket; a single result has no brackets. -/
def Element.isClosed : Element → Bool
  | .leaf _ => true
  | .node kind slots _ => kind.closingSlot?.all fun (index, close) =>
    kind == .functionOutputDescription && (slots[0]?).join.isNone ||
      (slots[index]?).join.any (isReal close)

theorem Element.isClosed_of_isReal {kind close : Kind} {slots : List (Option Element)}
    {diagnostics : List Diagnostic} {index : Nat} {last : Element}
    (slot : kind.closingSlot? = some (index, close)) (found : (slots[index]?).join = some last)
    (real : last.isReal close = true) : (node kind slots diagnostics).isClosed = true := by
  simp [isClosed, slot, found, real]

theorem Element.isClosed_of_none {kind : Kind} {slots : List (Option Element)}
    {diagnostics : List Diagnostic} (slot : kind.closingSlot? = none) :
    (node kind slots diagnostics).isClosed = true := by
  simp [isClosed, slot]

/-- A condition that tokens have, and that passes from the slots of a node to the node. -/
class Heritable (good : Element → Prop) : Prop where
  leaf (token : Token) (significant : token.isSignificant = true)
    (there : token.lacksClosing = false) : good (.leaf token)
  node (kind : Kind) (slots : List (Option Element)) (diagnostics : List Diagnostic)
    (plain : kind.isOperation = false) (fits : (Element.node kind slots diagnostics).fits = true)
    (closed : (Element.node kind slots diagnostics).isClosed = true)
    (below : ∀ slot ∈ slots, ∀ element, slot = some element → good element) :
    good (.node kind slots diagnostics)
  parenthesized (kind : Kind) (slots : List (Option Element)) (around : kind.isParenthesized = true)
    (fits : (Element.node kind slots []).fits = true)
    (below : ∀ slot ∈ slots, ∀ element, slot = some element →
      good element ∨ ∃ token, element = .leaf token ∧ token.isSignificant = true) :
    good (.node kind slots [])

namespace Grammar

/-- The tokens ahead are those of a text. -/
structure State.Lexed (s : State) : Prop where
  significant : ∀ placed ∈ s.rest, placed.token.isSignificant = true
  present : ∀ placed ∈ s.rest, placed.token.isMissing = false
  enclosed : s.Enclosed []

theorem State.Lexed.ends {s : State} (lexed : s.Lexed) : s.eof.kind = .eof := lexed.enclosed.ends

theorem State.Moves.lexed {s t : State} (moves : s.Moves t) (lexed : s.Lexed) : t.Lexed := by
  obtain ⟨used, rest, -⟩ := moves.used
  constructor
  · intro placed member
    exact lexed.significant placed (by simp [rest, member])
  · intro placed member
    exact lexed.present placed (by simp [rest, member])
  · exact lexed.enclosed.of_moves moves

section

variable {m : Type → Type} [Monad m] [MonadStateOf State m] [Outcome m] {α β : Type} {bound : Nat}

/-- Where fewer than `bound` tokens of a text are ahead, what a parser yields satisfies a
condition. -/
structure Yields (bound : Nat) (f : m α) (post : α → Prop) : Prop where
  gives : ∀ s : State, s.Lexed → s.rest.length < bound → Gives f s fun a _ => post a

/-- `Yields` for a parser that is called where an opening bracket comes next. -/
structure YieldsFrom (opening : Kind) (bound : Nat) (f : m α) (post : α → Prop) : Prop where
  gives : ∀ s : State, s.Lexed → s.currentKind = opening → s.rest.length ≤ bound →
    Gives f s fun a _ => post a

namespace YieldsFrom

variable {opening : Kind} {mid : α → Prop} {post : β → Prop}

private theorem map {f : m α} {h : α → β} (first : YieldsFrom opening bound f mid)
    (weaker : ∀ a, mid a → post (h a)) : YieldsFrom opening bound (h <$> f) post := by
  constructor
  intro s lexed here short
  exact Gives.map ((first.gives s lexed here short).mono fun a _ holds => weaker a holds)

theorem lift {f : Read α} (first : YieldsFrom opening bound f mid) :
    YieldsFrom opening bound (liftM f : Parse α) mid := ⟨first.gives⟩

end YieldsFrom

namespace Yields

variable {mid : α → Prop} {post : β → Prop}

theorem pure {a : α} (holds : mid a) : Yields bound (Pure.pure a : m α) mid := by
  constructor
  intro s _ _
  exact Gives.pure holds

theorem andThen {f : m α} {g : α → m β} [Forward f] (first : Yields bound f mid)
    (next : ∀ a, mid a → Yields bound (g a) post) : Yields bound (f >>= g) post := by
  constructor
  intro s lexed short
  refine ((first.gives s lexed short).and (Forward.moves s)).andThen fun a t facts => ?_
  obtain ⟨holds, moves⟩ := facts
  have shorter := moves.length_le
  exact (next a holds).gives t (moves.lexed lexed) (by omega)

theorem get {g : State → m β} (next : ∀ s, Yields bound (g s) post) :
    Yields bound (MonadState.get >>= g) post := by
  constructor
  intro s lexed short
  exact Gives.get ((next s).gives s lexed short)

theorem ite {c : Prop} [Decidable c] {f g : m α} (yes : Yields bound f mid)
    (no : Yields bound g mid) : Yields bound (if c then f else g) mid := by
  split
  · exact yes
  · exact no

theorem map {f : m α} {h : α → β} (first : Yields bound f fun a => post (h a)) :
    Yields bound (h <$> f) post := by
  constructor
  intro s lexed short
  exact Gives.map (first.gives s lexed short)

theorem mono {f : m α} {weak : α → Prop} (first : Yields bound f mid)
    (weaker : ∀ a, mid a → weak a) : Yields bound f weak := by
  constructor
  intro s lexed short
  exact (first.gives s lexed short).mono fun a _ holds => weaker a holds

theorem iteThen (mid : α → Prop) {c : Prop} [Decidable c] {f g : m α} {join : α → m β}
    [Forward f] [Forward g] (yes : c → Yields bound f mid) (no : ¬c → Yields bound g mid)
    (next : ∀ a, mid a → Yields bound (join a) post) :
    Yields bound (if c then f >>= join else g >>= join) post := by
  split
  · exact (yes ‹c›).andThen next
  · exact (no ‹¬c›).andThen next

theorem optional {c : Prop} [Decidable c] {f : m α} {g : Option α → m β} [Forward f]
    (first : Yields bound f mid)
    (next : ∀ slot, (∀ a, slot = some a → mid a) → Yields bound (g slot) post) :
    Yields bound (if c then (some <$> f) >>= g else Pure.pure none >>= g) post := by
  apply iteThen fun slot => ∀ a, slot = some a → mid a
  · intro _
    apply map
    apply first.mono
    rintro a holds other ⟨⟩
    exact holds
  · intro _
    exact pure (by simp)
  · exact next

theorem lift {f : Read α} (first : Yields bound f mid) :
    Yields bound (liftM f : Parse α) mid := ⟨first.gives⟩

private theorem whenAt {opening : Kind} {test : State → Bool} {f : m α} {g : α → m β}
    {otherwise : m β}
    [Forward f] (here : ∀ s : State, test s = true → s.isAt opening = true)
    (first : YieldsFrom opening bound f mid) (next : ∀ a, mid a → Yields bound (g a) post)
    (no : Yields bound otherwise post) :
    Yields bound (MonadState.get >>= fun s : State => if test s then f >>= g else otherwise)
      post := by
  constructor
  intro s lexed short
  refine Gives.get (Gives.ite (fun passes => ?_) fun _ => no.gives s lexed short)
  have at_bracket : s.currentKind = opening := by simpa [State.isAt] using here s passes
  refine ((first.gives s lexed at_bracket (Nat.le_of_lt short)).and
    (Forward.moves s)).andThen fun a t facts => ?_
  have shorter := facts.2.length_le
  exact (next a facts.1).gives t (facts.2.lexed lexed) (by omega)

theorem optionalFrom {opening : Kind} {test : State → Bool} {f : m α} {g : Option α → m β}
    [Forward f] (here : ∀ s : State, test s = true → s.isAt opening = true)
    (first : YieldsFrom opening bound f mid)
    (next : ∀ slot, (∀ a, slot = some a → mid a) → Yields bound (g slot) post) :
    Yields bound (MonadState.get >>= fun s : State =>
      if test s then (some <$> f) >>= g else Pure.pure none >>= g) post := by
  have filled : YieldsFrom opening bound (some <$> f) fun slot => ∀ a, slot = some a → mid a := by
    refine first.map fun a holds => ?_
    rintro other ⟨⟩
    exact holds
  exact whenAt here filled next ((pure (by simp)).andThen next)

theorem failing (failure : Failure) : Yields bound (throw failure : Parse α) mid := by
  constructor
  intro s _ _
  exact Gives.failing failure

theorem repeated {step : α → m (Option α)} [∀ value, Forward (step value)] {value : α}
    (holds : mid value)
    (round : ∀ value, mid value → Yields bound (step value) fun further =>
      mid (further.getD value)) :
    Yields bound (MonadState.get >>= fun state : State =>
      Grammar.iterate step state.rest.length value) mid := by
  constructor
  intro s lexed short
  -- Every round starts from a state that follows from the first one.
  have loop : Gives (MonadState.get >>= fun state : State =>
      Grammar.iterate step state.rest.length value) s fun value t => mid value ∧ s.Moves t := by
    refine Gives.repeated ⟨holds, State.Moves.refl s⟩ fun value t kept => ?_
    obtain ⟨holds, before⟩ := kept
    have shorter := before.length_le
    have next := (round value holds).gives t (before.lexed lexed) (by omega)
    exact (next.and (Forward.moves t)).mono fun _ _ facts => ⟨facts.1, before.trans facts.2⟩
  exact loop.mono fun value t kept => kept.1

end Yields

end

/-! Tokens, and the pieces of which rules are made. -/

theorem advance_lexed {s : State} (lexed : s.Lexed) :
    Gives advance s fun token _ => token = s.current.token ∧ token.isSignificant = true ∧
      token.lacksClosing = false := by
  intro token t yields
  cases ahead : s.rest with
  | nil =>
    simp only [outcome_read, advance, ahead, Except.ok.injEq, Prod.mk.injEq] at yields
    have kind : s.eof.token.kind = .eof := lexed.ends
    rw [← yields.1]
    refine ⟨by simp [State.current, ahead], ?_, ?_⟩
    · rw [Token.isSignificant, kind]
      rfl
    · rw [Token.lacksClosing, kind]
      exact Bool.and_false _
  | cons placed rest =>
    rw [outcome_advance ahead, Except.ok.injEq, Prod.mk.injEq] at yields
    rw [← yields.1]
    refine ⟨by simp [State.current, ahead], ?_, ?_⟩
    · exact lexed.significant placed (by simp [ahead])
    · rw [Token.lacksClosing, lexed.present placed (by simp [ahead]), Bool.false_and]

private theorem expect_lexed {s : State} (lexed : s.Lexed) {close : Kind}
    (here : s.isAt close = true)
    (other : close ≠ .eof) :
    Gives (expect close) s fun token _ => token.isSignificant = true ∧
      token.kind = close ∧ token.isMissing = false := by
  intro token t yields
  rw [outcome_expect_of_true here] at yields
  obtain ⟨placed, rest, ahead⟩ :=
    List.exists_cons_of_ne_nil (State.more_of_isAt lexed.ends here other)
  rw [outcome_advance ahead, Except.ok.injEq, Prod.mk.injEq] at yields
  rw [← yields.1]
  refine ⟨lexed.significant placed (by simp [ahead]), ?_,
    lexed.present placed (by simp [ahead])⟩
  simpa [State.isAt, State.currentKind, State.current, ahead, PlacedToken.kind] using here

section

variable (good : Element → Prop) [Heritable good] {bound : Nat}

theorem advance_yields : Yields bound advance fun token => good (.leaf token) := by
  constructor
  intro s lexed _
  exact (advance_lexed lexed).mono fun token t used => Heritable.leaf token used.2.1 used.2.2

theorem eatIf_yields (test : State → Bool) :
    Yields bound (eatIf test) fun found => ∀ token, found = some token → good (.leaf token) := by
  apply Yields.get
  intro s
  apply Yields.ite
  · apply (advance_yields good).andThen
    intro token holds
    apply Yields.pure
    rintro other ⟨⟩
    exact holds
  · exact Yields.pure (by simp)

theorem eat_yields (kind : Kind) :
    Yields bound (eat kind) fun found =>
      ∀ token, found = some token → good (.leaf token) ∧ token.kind = kind := by
  constructor
  intro s lexed _
  refine Gives.eatIf (fun here => ?_) (by simp)
  refine (advance_lexed lexed).mono fun token t used => ?_
  rintro other ⟨⟩
  have same : s.current.token.kind = kind := by
    simpa [State.isAt, State.currentKind, PlacedToken.kind] using here
  exact ⟨Heritable.leaf token used.2.1 used.2.2, by rw [used.1, same]⟩

private theorem missing_yields (kind : Kind)
    (proper : (kind.isSignificant && !kind.isClosing) = true) :
    Yields bound (missing kind) fun token => good (.leaf token) := by
  constructor
  intro s _ _ token t yields
  rw [outcome_missing, Except.ok.injEq, Prod.mk.injEq] at yields
  rw [← yields.1]
  rw [Bool.and_eq_true, Bool.not_eq_true'] at proper
  exact Heritable.leaf _ proper.1 (show (true && kind.isClosing) = false from proper.2)

theorem expect_yields (kind : Kind) (proper : (kind.isSignificant && !kind.isClosing) = true) :
    Yields bound (expect kind) fun token => good (.leaf token) := by
  apply (eat_yields good kind).andThen
  intro found holds
  cases found with
  | none => exact missing_yields good kind proper
  | some token => exact Yields.pure (holds token rfl).1

theorem expectWord_yields (word : String) :
    Yields bound (expectWord word) fun token => good (.leaf token) := by
  apply (eatIf_yields good _).andThen
  intro found holds
  cases found with
  | none => exact missing_yields good .identifier rfl
  | some token => exact Yields.pure (holds token rfl)

theorem errorNode_yields (expected : Kind) :
    Yields bound (errorNode expected) fun element =>
      good element ∧ element.isA .statement = true := by
  have told (diagnostic : Diagnostic) : Yields bound (report diagnostic) fun _ => True :=
    ⟨fun _ _ _ _ _ _ => trivial⟩
  apply Yields.get
  intro s
  apply (told _).andThen
  intro _ _
  apply (advance_yields good).andThen
  intro token holds
  apply Yields.pure
  constructor
  · exact Heritable.node .error [some (.leaf token)] _ rfl rfl rfl (by simpa using holds)
  · rfl

private theorem progressing_yields {holds : Element → Prop} {read : Read Element} [Forward read]
    (expected : Kind) (first : Yields bound read holds)
    (error : ∀ element, good element ∧ element.isA .statement = true → holds element) :
    Yields bound (progressing expected read) fun elements =>
      ∀ element ∈ elements, holds element := by
  apply Yields.get
  intro s
  apply first.andThen
  intro element here
  apply Yields.get
  intro t
  apply Yields.ite
  · apply (errorNode_yields good expected).andThen
    intro wrapped found
    exact Yields.pure (by simpa using ⟨here, error wrapped found⟩)
  · exact Yields.pure (by simpa using here)

theorem progressingParse_yields {holds : Element → Prop} {parse : Parse Element} [Forward parse]
    (expected : Kind) (first : Yields bound parse holds)
    (error : ∀ element, good element ∧ element.isA .statement = true → holds element) :
    Yields bound (progressingParse expected parse) fun elements =>
      ∀ element ∈ elements, holds element := by
  apply Yields.get
  intro s
  apply first.andThen
  intro element here
  apply Yields.get
  intro t
  apply Yields.ite
  · apply (errorNode_yields good expected).lift.andThen
    intro wrapped found
    exact Yields.pure (by simpa using ⟨here, error wrapped found⟩)
  · exact Yields.pure (by simpa using here)

variable {good} in
theorem good_list {elements : List Element} (below : ∀ element ∈ elements, good element) :
    good (.list elements) := by
  apply Heritable.node .list (elements.map some) [] rfl rfl rfl
  intro slot member element filled
  obtain ⟨inner, found, rfl⟩ := List.mem_map.mp member
  cases filled
  exact below element found

private theorem listUntil_yields {close : Kind} {item : List Element → Read (List Element)}
    [∀ elements, Forward (item elements)]
    (items : ∀ elements, Yields bound (item elements) fun added =>
      ∀ element ∈ added, good element) :
    Yields bound (listUntil close item) fun element =>
      good element ∧ element.isA (.exactly .list) = true := by
  have loop : Yields bound (repeatRead (listStep close item) []) fun elements =>
      ∀ element ∈ elements, good element := by
    apply Yields.repeated (by simp)
    intro elements holds
    apply Yields.get
    intro s
    apply Yields.ite
    · exact Yields.pure holds
    · apply (items elements).andThen
      intro added more
      apply Yields.pure
      exact List.forall_mem_append.mpr ⟨holds, more⟩
  apply loop.andThen
  intro elements holds
  exact Yields.pure ⟨good_list holds, rfl⟩

/-- What a slot holds is of the right kind, and has the condition. -/
structure Fills (slot : Slot) (filled : Option Element) : Prop where
  good : ∀ element, filled = some element → good element
  holds : slot.holds filled = true

@[reducible]
def AllFill : List Slot → List (Option Element) → Prop
  | [], [] => True
  | slot :: layout, filled :: slots => Fills good slot filled ∧ AllFill layout slots
  | _, _ => False

variable {good}

namespace Fills

omit [Heritable good]

theorem needed {content : Content} {element : Element}
    (read : good element ∧ content.accepts element = true) :
    Fills good (.needed content) (some element) := by
  constructor
  · rintro _ ⟨⟩
    exact read.1
  · exact read.2

theorem token {token : Token} (holds : good (.leaf token)) :
    Fills good (.needed .token) (some (.leaf token)) :=
  needed ⟨holds, rfl⟩

theorem optional {content : Content} {filled : Option Element}
    (read : ∀ element, filled = some element → good element ∧ content.accepts element = true) :
    Fills good (.optional content) filled := by
  constructor
  · intro element here
    exact (read element here).1
  · exact Slot.holds_optional fun element here => (read element here).2

private theorem absent {content : Content} : Fills good (.optional content) none :=
  optional (by simp)

private theorem present {token : Token} (holds : good (.leaf token)) :
    Fills good (.optional .token) (some (.leaf token)) := by
  apply optional
  rintro _ ⟨⟩
  exact ⟨holds, rfl⟩

theorem optionalToken {found : Option Token}
    (holds : ∀ token, found = some token → good (.leaf token)) :
    Fills good (.optional .token) (found.map .leaf) := by
  apply optional
  intro element filled
  obtain ⟨token, here, rfl⟩ := Option.map_eq_some_iff.mp filled
  exact ⟨holds token here, rfl⟩

end Fills

namespace AllFill

omit [Heritable good]

theorem allHold {layout : List Slot} {slots : List (Option Element)}
    (fill : AllFill good layout slots) : Slot.allHold layout slots = true := by
  fun_induction AllFill good layout slots with
  | case1 => rfl
  | case2 slot layout filled slots ih =>
    rw [Slot.allHold_cons, Bool.and_eq_true]
    exact ⟨fill.1.holds, ih fill.2⟩
  | case3 => exact fill.elim

theorem below {layout : List Slot} {slots : List (Option Element)}
    (fill : AllFill good layout slots) :
    ∀ slot ∈ slots, ∀ element, slot = some element → good element := by
  fun_induction AllFill good layout slots with
  | case1 => simp
  | case2 slot layout filled slots ih =>
    intro other member
    rcases List.mem_cons.mp member with rfl | member
    · exact fill.1.good
    · exact ih fill.2 other member
  | case3 => exact fill.elim

theorem append {first second : List Slot} {slots others : List (Option Element)}
    (fill : AllFill good first slots) (more : AllFill good second others) :
    AllFill good (first ++ second) (slots ++ others) := by
  fun_induction AllFill good first slots with
  | case1 => exact more
  | case2 slot first filled slots ih => exact ⟨fill.1, ih fill.2⟩
  | case3 => exact fill.elim

end AllFill

theorem good_node {kind : Kind} {layout : List Slot} {slots : List (Option Element)}
    (plain : kind.isOperation = false) (known : kind.layout? = some layout)
    (branch : (kind != .switchCase || Element.labelled slots) = true)
    (closed : (Element.node kind slots []).isClosed = true) (fill : AllFill good layout slots) :
    good (.node kind slots []) :=
  Heritable.node kind slots [] plain (Element.fits_of_layout known branch fill.allHold []) closed
    fill.below

/-- An element with the condition, or a token that the text may lack. -/
def OrToken (good : Element → Prop) (element : Element) : Prop :=
  good element ∨ ∃ token, element = .leaf token ∧ token.isSignificant = true

private theorem good_parenthesized {kind : Kind} {layout : List Slot}
    {slots : List (Option Element)}
    (around : kind.isParenthesized = true) (known : kind.layout? = some layout)
    (fill : AllFill (OrToken good) layout slots) : good (.node kind slots []) := by
  have other : (kind != .switchCase) = true := by
    rw [bne_iff_ne]
    rintro rfl
    cases around
  exact Heritable.parenthesized kind slots around
    (Element.fits_of_layout known (by simp [other]) fill.allHold []) fill.below

variable (good)

/-! Names and the heads of functions. -/

theorem compoundName_yields :
    Yields bound compoundName fun element =>
      good element ∧ element.isA (.exactly .compoundName) = true := by
  apply (expect_yields good .identifier rfl).andThen
  intro first holds
  have loop : Yields bound (repeatRead (dottedStep fun tokens dot name => tokens ++ [dot, name])
      [first]) fun tokens => ∀ token ∈ tokens, good (.leaf token) := by
    apply Yields.repeated (by simpa using holds)
    intro tokens holds
    apply Yields.get
    intro s
    apply Yields.ite
    · apply (advance_yields good).andThen
      intro dot dotted
      apply (advance_yields good).andThen
      intro name named
      apply Yields.pure
      exact List.forall_mem_append.mpr ⟨holds, by simp [dotted, named]⟩
    · exact Yields.pure holds
  apply loop.andThen
  intro tokens holds
  apply Yields.pure
  constructor
  · apply Heritable.node .compoundName ((tokens.map .leaf).map some) [] rfl rfl rfl
    intro slot member element filled
    rw [filled, List.map_map] at member
    obtain ⟨token, found, same⟩ := List.mem_map.mp member
    cases same
    exact holds token found
  · rfl

theorem bracketed_yields {α : Type} {opening close : Kind}
    {item : List Element → Read (List Element)} (enlists : Enlists opening close item)
    (items : ∀ elements, Yields bound (item elements) fun added =>
      ∀ element ∈ added, good element)
    {g : Token → Element → Token → Read α} {post : α → Prop}
    (next : ∀ first list last, good (.leaf first) →
      good list ∧ list.isA (.exactly .list) = true →
      good (.leaf last) ∧ (Element.leaf last).isReal close = true →
      Yields bound (g first list last) post) :
    YieldsFrom opening bound (advance >>= fun first => listUntil close item >>= fun list =>
      expect close >>= fun last => g first list last) post := by
  obtain ⟨opens, closes⟩ := Kind.isOpening_of_closing? enlists.pair
  have := enlists.forward
  constructor
  intro s lexed here short
  have more := State.more_of_currentKind lexed.ends here (by rintro rfl; cases opens)
  have first := (((advance_yields good).gives s lexed (Nat.lt_succ_self _)).and
    (lexed.enclosed.enter here opens)).and ((Forward.moves s).and (Uses.advance more))
  refine first.andThen fun token t facts => ?_
  obtain ⟨⟨leads, inside⟩, moves, shorter⟩ := facts
  have list := (((listUntil_yields good items).gives t (moves.lexed lexed) (by omega)).and
    (enlists.stops inside)).and (Forward.moves t)
  refine list.andThen fun elements u facts => ?_
  obtain ⟨⟨listed, stopped, -⟩, moves'⟩ := facts
  have lexed' := moves'.lexed (moves.lexed lexed)
  refine ((expect_lexed lexed' stopped (by rintro rfl; cases closes)).and
    (Forward.moves u)).andThen fun last v facts => ?_
  obtain ⟨⟨significant, kind, present⟩, moves''⟩ := facts
  have length := moves'.length_le
  have length' := moves''.length_le
  refine (next token elements last leads listed ⟨?_, ?_⟩).gives v (moves''.lexed lexed') (by omega)
  · exact Heritable.leaf last significant (by rw [Token.lacksClosing, present, Bool.false_and])
  · rw [Element.isReal, kind, present, beq_self_eq_true, Bool.not_false, Bool.and_true]

private theorem nameItem_yields (close : Kind) :
    Yields bound (nameItem close) fun elements => ∀ element ∈ elements, good element := by
  apply Yields.get
  intro s
  apply Yields.ite
  · apply (advance_yields good).andThen
    intro token holds
    exact Yields.pure (by simpa using holds)
  · apply (errorNode_yields good close).andThen
    intro element found
    exact Yields.pure (by simpa using found.1)

private theorem inputDescription_yields :
    YieldsFrom .openParenthesis bound inputDescription fun element =>
      good element ∧ element.isA (.exactly .functionInputDescription) = true := by
  apply bracketed_yields good (enlists_nameItem rfl) fun _ => nameItem_yields good _
  intro opening parameters closing opens listed closes
  apply Yields.pure
  constructor
  · exact good_node rfl rfl rfl (Element.isClosed_of_isReal rfl rfl closes.2)
      ⟨.token opens, .needed listed, .token closes.1, trivial⟩
  · rfl

private theorem outputDescription_yields :
    Yields bound outputDescription fun element =>
      good element ∧ element.isA (.exactly .functionOutputDescription) = true := by
  have several : YieldsFrom .openSquareBracket bound (advance >>= fun opening =>
      listUntil .closeSquareBracket (fun _ => nameItem .closeSquareBracket) >>= fun outputs =>
      expect .closeSquareBracket >>= fun closing => expect .equals >>= fun equals =>
      pure (Element.ofChildren .functionOutputDescription
        [.leaf opening, outputs, .leaf closing, .leaf equals])) fun element =>
        good element ∧ element.isA (.exactly .functionOutputDescription) = true := by
    apply bracketed_yields good (enlists_nameItem rfl) fun _ => nameItem_yields good _
    intro opening outputs closing opens listed closes
    apply (expect_yields good .equals rfl).andThen
    intro equals assigns
    apply Yields.pure
    constructor
    · exact good_node rfl rfl rfl (Element.isClosed_of_isReal rfl rfl closes.2)
        ⟨.present opens, .needed listed, .present closes.1, .token assigns, trivial⟩
    · rfl
  constructor
  intro s lexed short
  refine Gives.get (Gives.ite (fun here => ?_) fun _ => ?_)
  · exact several.gives s lexed (by simpa [State.isAt] using here) (Nat.le_of_lt short)
  · refine Yields.gives ?_ s lexed short
    apply (advance_yields good).andThen
    intro output holds
    apply (expect_yields good .equals rfl).andThen
    intro equals assigns
    apply Yields.pure
    have listed : good (.list [.leaf output]) := good_list (by simpa using holds)
    constructor
    · exact good_node rfl rfl rfl rfl
        ⟨.absent, .needed ⟨listed, rfl⟩, .absent, .token assigns, trivial⟩
    · rfl

def IsSignature (slots : List (Option Element)) : Prop :=
  ∃ output name input, slots = [output, some name, input] ∧
    (∀ element, output = some element →
      good element ∧ element.isA (.exactly .functionOutputDescription) = true) ∧
    (good name ∧ name.isA (.exactly .compoundName) = true) ∧
    ∀ element, input = some element →
      good element ∧ element.isA (.exactly .functionInputDescription) = true

theorem signature_yields : Yields bound signature (IsSignature good) := by
  apply Yields.get
  intro s
  apply (outputDescription_yields good).optional
  intro output results
  apply (compoundName_yields good).andThen
  intro name named
  apply Yields.optionalFrom (fun t here => (Bool.and_eq_true_iff.mp here).1)
    (inputDescription_yields good)
  intro input parameters
  exact Yields.pure ⟨output, name, input, rfl, results, named, parameters⟩

end

/-! Expressions, for any reader of the expressions inside. -/

/-- An expression that is not an operation. -/
structure IsTerm (good : Element → Prop) (element : Element) : Prop where
  good : good element
  expression : element.isA .expression = true
  plain : element.kind.isOperation = false

section

variable (good : Element → Prop) [Heritable good] {bound : Nat}

variable {good} in
omit [Heritable good] in
private theorem IsTerm.operand {element : Element} (term : IsTerm good element) :
    Fills good (.needed (.node .expression)) (some element) :=
  .needed ⟨term.good, term.expression⟩

variable {good} in
theorem isTerm_node {kind : Kind} {layout : List Slot} {slots : List (Option Element)}
    (plain : kind.isOperation = false) (expression : kind.isExpression = true)
    (known : kind.layout? = some layout)
    (closed : (Element.node kind slots []).isClosed = true) (fill : AllFill good layout slots) :
    IsTerm good (.node kind slots []) := by
  have other : (kind != .switchCase) = true := by
    rw [bne_iff_ne]
    rintro rfl
    cases expression
  exact ⟨good_node plain known (by simp [other]) closed fill, expression, plain⟩

variable {good} in
private theorem isTerm_parenthesized {kind : Kind} {layout : List Slot}
    {slots : List (Option Element)}
    (around : kind.isParenthesized = true) (known : kind.layout? = some layout)
    (fill : AllFill (OrToken good) layout slots) : IsTerm good (.node kind slots []) := by
  refine ⟨good_parenthesized around known fill, ?_, ?_⟩
  all_goals cases kind <;> first | rfl | cases around

omit [Heritable good] in
private theorem expectClosing_yields :
    Yields bound (expect .closeParenthesis) fun token => OrToken good (.leaf token) := by
  constructor
  intro s lexed short
  cases here : s.isAt .closeParenthesis with
  | true =>
    exact (expect_lexed lexed here (by decide)).mono fun token t facts =>
      Or.inr ⟨token, rfl, facts.1⟩
  | false =>
    intro token t yields
    rw [outcome_expect_of_false here, outcome_missing, Except.ok.injEq, Prod.mk.injEq] at yields
    rw [← yields.1]
    exact Or.inr ⟨_, rfl, rfl⟩

theorem missingOperand_yields : Yields bound missingOperand (IsTerm good) := by
  apply (missing_yields good .identifier rfl).andThen
  intro token holds
  apply Yields.pure
  exact isTerm_node rfl rfl rfl rfl ⟨.token holds, trivial⟩

private theorem single_yields {kind : Kind} (plain : kind.isOperation = false)
    (expression : kind.isExpression = true) (known : kind.layout? = some [.needed .token])
    (unbracketed : kind.closingSlot? = none) : Yields bound (single kind) (IsTerm good) := by
  apply (advance_yields good).andThen
  intro token holds
  apply Yields.pure
  exact isTerm_node plain expression known (Element.isClosed_of_none unbracketed)
    ⟨.token holds, trivial⟩

/-- `Yields` for a parser that starts with a token of the text, and so has one more ahead. -/
structure YieldsAt {m : Type → Type} [Monad m] [MonadStateOf State m] [Outcome m] {α : Type}
    (bound : Nat) (f : m α) (post : α → Prop) : Prop where
  gives : ∀ s : State, s.Lexed → s.rest ≠ [] → s.rest.length ≤ bound →
    Gives f s fun a _ => post a

theorem Yields.afterToken {β : Type} {g : Token → Read β} {post : β → Prop}
    (next : ∀ token, good (.leaf token) → Yields bound (g token) post) :
    YieldsAt bound (advance >>= g) post := by
  constructor
  intro s lexed more short
  have token := (advance_yields good).gives s lexed (Nat.lt_succ_self _)
  refine ((token.and (Forward.moves s)).and (Uses.advance more)).andThen fun token t facts => ?_
  obtain ⟨⟨holds, moves⟩, shorter⟩ := facts
  exact (next token holds).gives t (moves.lexed lexed) (by omega)

section

variable {inner : Inner} [∀ inside floor, Forward (inner inside floor)]
  (inner_yields : ∀ inside, Yields bound (inner inside .expression) fun element =>
    good element ∧ element.isA .expression = true)

include inner_yields

private theorem matrixItem_yields (close : Kind) :
    Yields bound (matrixItem inner close) fun elements => ∀ element ∈ elements, good element := by
  apply Yields.get
  intro s
  apply Yields.ite
  · apply (advance_yields good).andThen
    intro token holds
    exact Yields.pure (by simpa using holds)
  · apply Yields.ite
    · apply progressing_yields good close ((inner_yields true).mono fun _ found => found.1)
      intro element found
      exact found.1
    · apply (errorNode_yields good close).andThen
      intro element found
      exact Yields.pure (by simpa using found.1)

private theorem argumentItem_yields (close : Kind) (before : List Element) :
    Yields bound (argumentItem inner close before) fun elements =>
      ∀ element ∈ elements, good element := by
  -- The comma that is missing in front, if any, and the argument.
  have value (comma : List Element) (holds : ∀ element ∈ comma, good element) :
      Yields bound (progressing close (inner false .expression) >>= fun value =>
        pure (comma ++ value)) fun elements => ∀ element ∈ elements, good element := by
    have read := progressing_yields good close
      ((inner_yields false).mono fun _ found => found.1) fun element found => found.1
    apply read.andThen
    intro elements added
    apply Yields.pure
    exact List.forall_mem_append.mpr ⟨holds, added⟩
  apply Yields.get
  intro s
  apply Yields.ite
  · apply (advance_yields good).andThen
    intro token holds
    exact Yields.pure (by simpa using holds)
  · apply Yields.ite
    · apply Yields.ite
      · apply (missing_yields good .comma rfl).andThen
        intro comma holds
        exact value [.leaf comma] (by simpa using holds)
      · exact value [] (by simp)
    · apply (errorNode_yields good close).andThen
      intro element found
      exact Yields.pure (by simpa using found.1)

private theorem functionHandle_yields (inside : Bool) :
    YieldsAt bound (functionHandle inner inside) (IsTerm good) := by
  apply Yields.afterToken good
  intro sign signs
  refine Yields.whenAt (fun _ here => here) (inputDescription_yields good) ?_ ?_
  · intro parameters described
    apply (inner_yields inside).andThen
    intro body read
    apply Yields.pure
    exact isTerm_node rfl rfl rfl rfl ⟨.token signs, .needed described, .needed read, trivial⟩
  · apply (compoundName_yields good).andThen
    intro name named
    apply Yields.pure
    exact isTerm_node rfl rfl rfl rfl ⟨.token signs, .needed named, trivial⟩

private theorem parenthesized_yields : YieldsAt bound (parenthesized inner) (IsTerm good) := by
  apply Yields.afterToken good
  intro opening opens
  apply (inner_yields false).andThen
  intro body read
  apply (expectClosing_yields good).andThen
  intro closing closes
  apply Yields.pure
  exact isTerm_parenthesized rfl rfl
    ⟨.token (.inl opens), .needed ⟨.inl read.1, read.2⟩, .token closes, trivial⟩

private theorem memberAccess_yields {subject : Element} (before : IsTerm good subject) :
    YieldsAt bound (memberAccess inner subject) (IsTerm good) := by
  apply Yields.afterToken good
  intro dot dotted
  apply Yields.get
  intro s
  apply Yields.ite
  · apply (advance_yields good).andThen
    intro opening opens
    apply (inner_yields false).andThen
    intro member read
    apply (expectClosing_yields good).andThen
    intro closing closes
    apply Yields.pure
    exact isTerm_parenthesized rfl rfl ⟨.needed ⟨.inl before.good, before.expression⟩,
      .token (.inl dotted), .token (.inl opens), .needed ⟨.inl read.1, read.2⟩, .token closes,
      trivial⟩
  · apply (expect_yields good .identifier rfl).andThen
    intro name named
    apply Yields.pure
    exact isTerm_node rfl rfl rfl rfl ⟨before.operand, .token dotted, .token named, trivial⟩

omit inner_yields in
private theorem baseClassInvocation_yields {method : Element} (before : IsTerm good method) :
    Yields bound (baseClassInvocation method) (IsTerm good) := by
  apply (advance_yields good).andThen
  intro sign signs
  apply (expect_yields good .identifier rfl).andThen
  intro name named
  have first : IsTerm good (.ofChildren .identifierNameExpression [.leaf name]) :=
    isTerm_node rfl rfl rfl rfl ⟨.token named, trivial⟩
  have loop : Yields bound (repeatRead (dottedStep fun base dot name =>
      .ofChildren .memberAccessExpression [base, .leaf dot, .leaf name])
      (.ofChildren .identifierNameExpression [.leaf name])) (IsTerm good) := by
    apply Yields.repeated first
    intro base here
    apply Yields.get
    intro s
    apply Yields.ite
    · apply (advance_yields good).andThen
      intro dot dotted
      apply (advance_yields good).andThen
      intro name named
      apply Yields.pure
      exact isTerm_node rfl rfl rfl rfl ⟨here.operand, .token dotted, .token named, trivial⟩
    · exact Yields.pure here
  apply loop.andThen
  intro base here
  apply Yields.pure
  exact isTerm_node rfl rfl rfl rfl ⟨before.operand, .token signs, here.operand, trivial⟩

omit inner_yields in
private theorem command_yields {name : Element} (before : good name)
    (named : name.isA (.exactly .identifierNameExpression) = true) :
    Yields bound (command name) (IsTerm good) := by
  have loop : Yields bound (repeatRead commandStep []) fun words =>
      ∀ word ∈ words, good (.leaf word) ∧ word.kind = .unquotedStringLiteral := by
    apply Yields.repeated (by simp)
    intro words holds
    apply (eat_yields good .unquotedStringLiteral).andThen
    intro found read
    cases found with
    | none => exact Yields.pure holds
    | some word =>
      apply Yields.pure
      exact List.forall_mem_append.mpr ⟨holds, by simpa using read word rfl⟩
  apply loop.andThen
  intro words holds
  apply Yields.pure
  have list : good (.list (words.map .leaf)) := by
    apply good_list
    intro element member
    obtain ⟨word, found, rfl⟩ := List.mem_map.mp member
    exact (holds word found).1
  have unquoted := Content.accepts_words fun word member => (holds word member).2
  exact isTerm_node rfl rfl rfl rfl ⟨.needed ⟨before, named⟩, .needed ⟨list, unquoted⟩, trivial⟩

variable [∀ inside floor, Encloses (inner inside floor)]

private theorem matrix_yields (kind : Kind) {opening close : Kind}
    (plain : kind.isOperation = false)
    (expression : kind.isExpression = true)
    (known : kind.layout? = some [.needed .token, .needed .list, .needed .token])
    (pair : opening.closing? = some close) (slot : kind.closingSlot? = some (2, close)) :
    YieldsFrom opening bound (matrix inner kind close) (IsTerm good) := by
  apply bracketed_yields good (enlists_matrixItem inner pair)
    fun _ => matrixItem_yields good inner_yields close
  intro first elements last opens listed closes
  apply Yields.pure
  exact isTerm_node plain expression known (Element.isClosed_of_isReal slot rfl closes.2)
    ⟨.token opens, .needed listed, .token closes.1, trivial⟩

def IsBracketed (close : Kind) (elements : List Element) : Prop :=
  ∃ opening list closing, elements = [.leaf opening, list, .leaf closing] ∧
    good (.leaf opening) ∧ (good list ∧ list.isA (.exactly .list) = true) ∧
    good (.leaf closing) ∧ (Element.leaf closing).isReal close = true

theorem arguments_yields {opening close : Kind} (pair : opening.closing? = some close) :
    YieldsFrom opening bound (arguments inner close) (IsBracketed good close) := by
  apply bracketed_yields good (enlists_argumentItem inner pair)
    fun before => argumentItem_yields good inner_yields close before
  intro first elements last opens listed closes
  exact Yields.pure ⟨first, elements, last, rfl, opens, listed, closes⟩

private theorem term_yields (inside : Bool) :
    Yields (bound + 1) (term inner inside) (IsTerm good) := by
  constructor
  intro s lexed short
  have fewer : s.rest.length ≤ bound := Nat.le_of_lt_succ short
  have ahead {kind : Kind} (here : s.currentKind = kind) (other : kind ≠ .eof) : s.rest ≠ [] :=
    State.more_of_currentKind lexed.ends here other
  refine Gives.get ?_
  split
  case h_1 => exact (single_yields good rfl rfl rfl rfl).gives s lexed short
  case h_2 => exact (single_yields good rfl rfl rfl rfl).gives s lexed short
  case h_3 => exact (single_yields good rfl rfl rfl rfl).gives s lexed short
  case h_4 => exact (single_yields good rfl rfl rfl rfl).gives s lexed short
  case h_5 => exact (single_yields good rfl rfl rfl rfl).gives s lexed short
  case h_6 here =>
    have pair : Kind.openSquareBracket.closing? = some .closeSquareBracket := rfl
    have list := matrix_yields good inner_yields .arrayLiteralExpression rfl rfl rfl pair rfl
    exact list.gives s lexed here fewer
  case h_7 here =>
    have pair : Kind.openBrace.closing? = some .closeBrace := rfl
    have list := matrix_yields good inner_yields .cellArrayLiteralExpression rfl rfl rfl pair rfl
    exact list.gives s lexed here fewer
  case h_8 here =>
    exact (parenthesized_yields good inner_yields).gives s lexed (ahead here (by decide)) fewer
  case h_9 here =>
    exact (functionHandle_yields good inner_yields inside).gives s lexed
      (ahead here (by decide)) fewer
  case h_10 => exact (missingOperand_yields good).gives s lexed short

private theorem suffixStep_yields (inside : Bool) {subject : Element}
    (before : IsTerm good subject) :
    Yields (bound + 1) (suffixStep inner inside subject) fun further =>
      IsTerm good (further.getD subject) := by
  constructor
  intro s lexed short
  have fewer : s.rest.length ≤ bound := Nat.le_of_lt_succ short
  have ahead {kind : Kind} (here : s.currentKind = kind) (other : kind ≠ .eof) : s.rest ≠ [] :=
    State.more_of_currentKind lexed.ends here other
  have stay : Gives (pure none : Read (Option Element)) s fun further _ =>
      IsTerm good (further.getD subject) := Gives.pure before
  -- A call and an index differ in their brackets and in the kind of the node.
  have bracketed {kind opening close : Kind} (here : s.currentKind = opening)
      (plain : kind.isOperation = false) (expression : kind.isExpression = true)
      (known : kind.layout? =
        some [.needed (.node .expression), .needed .token, .needed .list, .needed .token])
      (pair : opening.closing? = some close) (slot : kind.closingSlot? = some (3, close)) :
      Gives (arguments inner close >>= fun list =>
        pure (some (Element.ofChildren kind (subject :: list)))) s fun further _ =>
          IsTerm good (further.getD subject) := by
    have list := (arguments_yields good inner_yields pair).gives s lexed here fewer
    refine list.andThen fun elements t found => ?_
    obtain ⟨first, list, last, rfl, opens, listed, closes, real⟩ := found
    apply Gives.pure
    exact isTerm_node plain expression known (Element.isClosed_of_isReal slot rfl real)
      ⟨before.operand, .token opens, .needed listed, .token closes, trivial⟩
  refine Gives.get (Gives.ite (fun _ => stay) fun _ => ?_)
  split
  case h_1 here => exact Gives.ite (fun _ => stay) fun _ => bracketed here rfl rfl rfl rfl rfl
  case h_2 here => exact Gives.ite (fun _ => stay) fun _ => bracketed here rfl rfl rfl rfl rfl
  case h_3 here =>
    exact ((memberAccess_yields good inner_yields before).gives s lexed
      (ahead here (by decide)) fewer).map
  case h_4 =>
    refine ((advance_yields good).gives s lexed short).andThen fun token t holds => ?_
    apply Gives.pure
    exact isTerm_node rfl rfl rfl rfl ⟨before.operand, .token holds, trivial⟩
  case h_5 =>
    refine ((advance_yields good).gives s lexed short).andThen fun token t holds => ?_
    apply Gives.pure
    exact isTerm_node rfl rfl rfl rfl ⟨before.operand, .token holds, trivial⟩
  case h_6 =>
    refine Gives.ite (fun _ => ?_) fun _ => stay
    exact ((baseClassInvocation_yields good before).gives s lexed short).map
  case h_7 => exact stay

theorem suffixed_yields (inside : Bool) :
    Yields (bound + 1) (suffixed inner inside) (IsTerm good) := by
  apply (term_yields good inner_yields inside).andThen
  intro subject here
  apply Yields.get
  intro s
  split
  · rename_i named
    rw [Bool.and_eq_true] at named
    apply command_yields good here.good
    rw [Element.isA, Bool.and_eq_true]
    constructor
    · exact (Bool.and_eq_true_iff.mp here.expression).1
    · exact named.1
  · exact Yields.repeated here fun subject here => suffixStep_yields good inner_yields inside here

end

end

end Grammar

end MatrixScript
