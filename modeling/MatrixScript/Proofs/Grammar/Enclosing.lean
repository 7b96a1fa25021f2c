import MatrixScript.Proofs.Grammar.Progress
import MatrixScript.Proofs.Lexer.Brackets

/-!
No rule reads past a bracket that encloses it.

Rules need not pair brackets as the text does: an error node can take a closing bracket of another
kind, and parentheses can stay open. But the brackets in which a rule is called are among those that
are open in the text (`State.Enclosed`), and stay so, since a rule uses up a closing bracket only in
an error node of a list with another bracket, or to close what it has opened itself. So a list stops
at its own closing bracket, and the end of the text is never reached inside it.
-/

set_option autoImplicit false

namespace MatrixScript

namespace Kind

private theorem exists_closeAll_of_append {used rest opened : List Kind}
    (closes : CloseAll (used ++ rest) opened) : ∃ after, CloseAll rest after := by
  induction used generalizing opened with
  | nil => exact ⟨opened, closes⟩
  | cons kind used ih =>
    obtain ⟨after, -, later⟩ := closeAll_cons.mp closes
    exact ih later

private theorem sublist_openAfter? {kind : Kind} {outer opened after : List Kind}
    (among : outer.Sublist opened) (step : kind.openAfter? opened = some after)
    (keeps : ∀ opening ∈ outer.head?, opening.closing? ≠ some kind) : outer.Sublist after := by
  by_cases opens : kind.isOpening = true
  · rw [openAfter?_of_opening opens, Option.some.injEq] at step
    rw [← step]
    exact among.cons kind
  · by_cases closes : kind.isClosing = true
    · obtain ⟨opening, rfl, pair⟩ := (openAfter?_of_closing closes).mp step
      cases among with
      | cons _ inner => exact inner
      | cons_cons _ inner => exact absurd pair (keeps opening rfl)
    · rw [openAfter?_of_other (by simpa using opens) (by simpa using closes),
        Option.some.injEq] at step
      rw [← step]
      exact among

end Kind

namespace Grammar

/-- The tokens ahead close all brackets that are open before them; those in `outer` are among
them. -/
structure State.Enclosed (s : State) (outer : List Kind) : Prop where
  closes : ∃ opened, outer.Sublist opened ∧ Kind.CloseAll (s.rest.map PlacedToken.kind) opened
  kinds : ∀ placed ∈ s.rest, placed.kind ≠ .eof
  ends : s.eof.kind = .eof

namespace State.Enclosed

variable {s t : State} {opening close : Kind} {outer : List Kind}

private theorem of_rest (enclosed : s.Enclosed outer) (rest : t.rest = s.rest)
    (eof : t.eof = s.eof) :
    t.Enclosed outer := by
  obtain ⟨closes, kinds, ends⟩ := enclosed
  exact ⟨by rwa [rest], by rwa [rest], by rwa [eof]⟩

private theorem weaken (enclosed : s.Enclosed (opening :: outer)) : s.Enclosed outer := by
  obtain ⟨⟨opened, among, closes⟩, kinds, ends⟩ := enclosed
  exact ⟨⟨opened, (List.sublist_cons_self opening outer).trans among, closes⟩, kinds, ends⟩

private theorem more (enclosed : s.Enclosed (opening :: outer)) : s.rest ≠ [] := by
  intro done
  obtain ⟨opened, among, closes⟩ := enclosed.closes
  rw [done, List.map_nil, Kind.closeAll_nil] at closes
  rw [closes] at among
  exact List.cons_ne_nil _ _ (List.sublist_nil.mp among)

theorem not_isAtEnd (enclosed : s.Enclosed (opening :: outer)) : s.isAtEnd = false := by
  obtain ⟨placed, rest, ahead⟩ := List.exists_cons_of_ne_nil enclosed.more
  have other := enclosed.kinds placed (by simp [ahead])
  simpa [isAtEnd, isAt, currentKind, current, ahead] using other

/-- What is left of the tokens closes the brackets that are still open. -/
theorem of_suffix (enclosed : s.Enclosed outer) (suffix : t.rest <:+ s.rest)
    (eof : t.eof = s.eof) : t.Enclosed [] := by
  obtain ⟨used, rest⟩ := suffix
  obtain ⟨⟨opened, -, closes⟩, kinds, ends⟩ := enclosed
  rw [← rest, List.map_append] at closes
  obtain ⟨after, closes⟩ := Kind.exists_closeAll_of_append closes
  refine ⟨⟨after, List.nil_sublist after, closes⟩, fun placed member => ?_, by rwa [eof]⟩
  exact kinds placed (by simp [← rest, member])

theorem of_moves (enclosed : s.Enclosed outer) (moves : s.Moves t) : t.Enclosed [] := by
  obtain ⟨used, rest, -⟩ := moves.used
  exact enclosed.of_suffix ⟨used, rest.symm⟩ moves.eof

private theorem advance (enclosed : s.Enclosed outer) (more : s.rest ≠ []) :
    Gives Grammar.advance s fun _ t => ∃ opened after, outer.Sublist opened ∧
      s.currentKind.openAfter? opened = some after ∧
      Kind.CloseAll (t.rest.map PlacedToken.kind) after ∧
      (∀ placed ∈ t.rest, placed.kind ≠ .eof) ∧ t.eof.kind = .eof := by
  intro token t yields
  obtain ⟨placed, rest, ahead⟩ := List.exists_cons_of_ne_nil more
  rw [outcome_advance ahead, Except.ok.injEq, Prod.mk.injEq] at yields
  obtain ⟨⟨opened, among, closes⟩, kinds, ends⟩ := enclosed
  rw [ahead, List.map_cons, Kind.closeAll_cons] at closes
  obtain ⟨after, step, closes⟩ := closes
  rw [ahead, List.forall_mem_cons] at kinds
  rw [← yields.2]
  have here : s.currentKind = placed.kind := by simp [currentKind, current, ahead]
  exact ⟨opened, after, among, by rwa [here], closes, kinds.2, ends⟩

private theorem past (enclosed : s.Enclosed outer)
    (keeps : ∀ opening ∈ outer.head?, opening.closing? ≠ some s.currentKind) :
    Gives Grammar.advance s fun _ t => t.Enclosed outer := by
  by_cases more : s.rest = []
  · intro token t yields
    simp only [outcome_read, Grammar.advance, more, Except.ok.injEq, Prod.mk.injEq] at yields
    rw [← yields.2]
    exact enclosed
  · refine (enclosed.advance more).mono fun token t facts => ?_
    obtain ⟨opened, after, among, step, closes, kinds, ends⟩ := facts
    exact ⟨⟨after, Kind.sublist_openAfter? among step keeps, closes⟩, kinds, ends⟩

private theorem pastOther (enclosed : s.Enclosed outer) (other : s.currentKind.isClosing = false) :
    Gives Grammar.advance s fun _ t => t.Enclosed outer := by
  refine enclosed.past fun opening _ pair => ?_
  rw [(Kind.isOpening_of_closing? pair).2] at other
  cases other

/-- An opening bracket is used up. -/
theorem enter (enclosed : s.Enclosed outer) (here : s.currentKind = opening)
    (opens : opening.isOpening = true) :
    Gives Grammar.advance s fun _ t => t.Enclosed (opening :: outer) := by
  have more : s.rest ≠ [] := more_of_currentKind enclosed.ends here (by rintro rfl; cases opens)
  refine (enclosed.advance more).mono fun token t facts => ?_
  obtain ⟨opened, after, among, step, closes, kinds, ends⟩ := facts
  rw [here, Kind.openAfter?_of_opening opens, Option.some.injEq] at step
  subst step
  exact ⟨⟨_, among.cons_cons opening, closes⟩, kinds, ends⟩

private theorem leave (enclosed : s.Enclosed (opening :: outer))
    (pair : opening.closing? = some s.currentKind) :
    Gives Grammar.advance s fun _ t => t.Enclosed outer := by
  refine (enclosed.advance enclosed.more).mono fun token t facts => ?_
  obtain ⟨opened, after, among, step, closes, kinds, ends⟩ := facts
  obtain ⟨other, rfl, pair'⟩ :=
    (Kind.openAfter?_of_closing (Kind.isOpening_of_closing? pair).2).mp step
  rw [Kind.closing?_inj pair' pair, List.cons_sublist_cons] at among
  exact ⟨⟨after, among, closes⟩, kinds, ends⟩

end State.Enclosed

/-- At the start of a text no bracket is open. -/
theorem State.Enclosed.ofStream {text : List Char} {stream : TokenStream}
    (ok : tokenize text = .ok stream) : (State.ofStream stream).Enclosed [] := by
  obtain ⟨-, ends, kinds, -⟩ := Lexer.tokens_ok ok
  exact ⟨⟨[], List.nil_sublist [], tokenize_close ok⟩, kinds, ends⟩

/-- A rule that leaves open whatever brackets enclose it. -/
class Encloses {α : Type} (f : Read α) : Prop where
  keeps : ∀ {s : State} {outer : List Kind}, s.Enclosed outer →
    Gives f s fun _ t => t.Enclosed outer

namespace Encloses

variable {α β : Type}

instance (a : α) : Encloses (pure a) where
  keeps enclosed := Gives.pure enclosed

instance (f : Read α) (g : α → Read β) [Encloses f] [∀ a, Encloses (g a)] : Encloses (f >>= g) where
  keeps enclosed := (keeps enclosed).andThen fun _ _ later => keeps later

instance : Encloses (get : Read State) where
  keeps enclosed := by
    intro a t yields
    rw [outcome_get, Except.ok.injEq, Prod.mk.injEq] at yields
    rw [← yields.2]
    exact enclosed

instance (h : α → β) (f : Read α) [Encloses f] : Encloses (h <$> f) where
  keeps enclosed := Gives.map (keeps (f := f) enclosed)

instance (c : Prop) [Decidable c] (f g : Read α) [Encloses f] [Encloses g] :
    Encloses (if c then f else g) where
  keeps enclosed := .ite (fun _ => keeps enclosed) fun _ => keeps enclosed

instance (diagnostic : Diagnostic) : Encloses (report diagnostic) where
  keeps enclosed := by
    intro _ t yields
    rw [outcome_report, Except.ok.injEq, Prod.mk.injEq] at yields
    rw [← yields.2]
    exact enclosed.of_rest rfl rfl

instance (kind : Kind) : Encloses (missing kind) := by
  unfold missing
  infer_instance

instance (step : α → Read (Option α)) [∀ value, Encloses (step value)] (value : α) :
    Encloses (repeatRead step value) where
  keeps enclosed := by
    unfold repeatRead
    exact Gives.repeated enclosed fun value t kept => keeps kept

private theorem get {g : State → Read α}
    (next : ∀ {s : State} {outer : List Kind}, s.Enclosed outer →
      Gives (g s) s fun _ t => t.Enclosed outer) : Encloses (MonadState.get >>= g) where
  keeps enclosed := Gives.get (next enclosed)

private theorem eat {kind : Kind} (other : kind.isClosing = false) :
    Encloses (Grammar.eat kind) where
  keeps {s outer} enclosed := by
    refine Gives.eatIf (fun here => enclosed.pastOther ?_) fun _ => enclosed
    rw [State.isAt, beq_iff_eq] at here
    rw [here, other]

instance : Encloses (Grammar.eat .unquotedStringLiteral) := eat rfl

instance : Encloses (Grammar.eat .tilde) := eat rfl

instance : Encloses (Grammar.eat .equals) := eat rfl

instance : Encloses (expect .identifier) where
  keeps enclosed := by
    have name : Encloses (Grammar.eat .identifier) := eat rfl
    refine (name.keeps enclosed).andThen fun found t later => ?_
    cases found with
    | none => exact keeps later
    | some token => exact Gives.pure later

end Encloses

section

variable {α β : Type} {s : State} {opening close : Kind} {outer : List Kind}

private theorem State.Enclosed.expect (enclosed : s.Enclosed (opening :: outer))
    (pair : opening.closing? = some close) :
    Gives (Grammar.expect close) s fun _ t => t.Enclosed outer := by
  cases here : s.isAt close with
  | true =>
    intro token t yields
    rw [outcome_expect_of_true here] at yields
    rw [State.isAt, beq_iff_eq] at here
    exact enclosed.leave (here ▸ pair) token t yields
  | false =>
    intro token t yields
    rw [outcome_expect_of_false here] at yields
    exact Encloses.keeps (f := missing close) enclosed.weaken token t yields

private theorem State.Enclosed.errorNode (enclosed : s.Enclosed outer) (expected : Kind)
    (keeps : ∀ opening ∈ outer.head?, opening.closing? ≠ some s.currentKind) :
    Gives (Grammar.errorNode expected) s fun _ t => t.Enclosed outer := by
  refine Gives.get ?_
  have told (diagnostic : Diagnostic) : Gives (report diagnostic) s fun _ t =>
      t.Enclosed outer ∧ t.currentKind = s.currentKind := by
    intro _ t yields
    rw [outcome_report, Except.ok.injEq, Prod.mk.injEq] at yields
    rw [← yields.2]
    exact ⟨enclosed.of_rest rfl rfl, rfl⟩
  refine (told _).andThen fun _ t facts => ?_
  refine (facts.1.past (facts.2 ▸ keeps)).andThen fun token u later => ?_
  exact Gives.pure later

private theorem State.Enclosed.progressing (enclosed : s.Enclosed outer) (expected : Kind)
    (read : Read Element) [Forward read] [Encloses read]
    (keeps : ∀ opening ∈ outer.head?, opening.closing? ≠ some s.currentKind) :
    Gives (Grammar.progressing expected read) s fun _ t => t.Enclosed outer := by
  refine Gives.get ?_
  have read_keeps := Encloses.keeps (f := read) enclosed
  refine (read_keeps.and (Forward.moves s)).andThen fun element t facts => ?_
  obtain ⟨later, moves⟩ := facts
  refine Gives.get (Gives.ite (fun same => ?_) fun _ => Gives.pure later)
  obtain ⟨used, rest, -⟩ := moves.used
  have none_used : used = [] := by
    rw [rest, List.length_append] at same
    exact List.length_eq_zero_iff.mp (by omega)
  have here : t.currentKind = s.currentKind := by
    simp [State.currentKind, State.current, rest, none_used, moves.eof]
  refine (later.errorNode expected (here ▸ keeps)).andThen fun node u last => ?_
  exact Gives.pure last

/-- The items of a list in brackets: each uses up a token, and keeps the bracket of the list open
unless it starts at the closing one. -/
structure Enlists (opening close : Kind) (item : List Element → Read (List Element)) : Prop where
  pair : opening.closing? = some close
  forward : ∀ elements, Forward (item elements)
  uses : ∀ elements s, s.eof.kind = .eof → s.rest ≠ [] → Uses (item elements) s
  keeps : ∀ elements {s : State} {outer : List Kind}, s.Enclosed (opening :: outer) →
    s.isAt close = false → Gives (item elements) s fun _ t => t.Enclosed (opening :: outer)

namespace Enlists

variable {item : List Element → Read (List Element)}

/-- A list stops at its closing bracket. -/
theorem stops (enlists : Enlists opening close item) (enclosed : s.Enclosed (opening :: outer)) :
    Gives (listUntil close item) s fun _ t =>
      t.isAt close = true ∧ t.Enclosed (opening :: outer) := by
  have := enlists.forward
  refine Gives.andThen ?_ fun elements t stopped => Gives.pure stopped
  refine Gives.settled (Steady.listStep enlists.uses)
    (fun _ (t : State) => t.Enclosed (opening :: outer)) ?_ enclosed.ends enclosed
  intro elements t _ kept
  refine Gives.get (Gives.ite (fun stop => Gives.pure ?_) fun more => ?_)
  · -- Inside the list the end of the text is not reached.
    rw [kept.not_isAtEnd, Bool.or_false] at stop
    exact ⟨stop, kept⟩
  · rw [kept.not_isAtEnd, Bool.or_false, Bool.not_eq_true] at more
    exact (enlists.keeps elements kept more).andThen fun added u later => Gives.pure later

private theorem bracketed (enlists : Enlists opening close item) (enclosed : s.Enclosed outer)
    (here : s.currentKind = opening) {g : Token → Element → Token → Read α}
    [∀ first list last, Encloses (g first list last)] :
    Gives (advance >>= fun first => listUntil close item >>= fun list =>
      expect close >>= fun last => g first list last) s fun _ t => t.Enclosed outer := by
  have opens := (Kind.isOpening_of_closing? enlists.pair).1
  refine (enclosed.enter here opens).andThen fun first t inside => ?_
  refine (enlists.stops inside).andThen fun list u stopped => ?_
  exact (stopped.2.expect enlists.pair).andThen fun last v later => Encloses.keeps later

end Enlists

private theorem not_closing_of_not_isAt (pair : opening.closing? = some close)
    (other : s.isAt close = false) :
    ∀ first ∈ (opening :: outer).head?, first.closing? ≠ some s.currentKind := by
  rintro first ⟨⟩ same
  rw [pair, Option.some.injEq] at same
  simp [State.isAt, same] at other

private theorem State.Enclosed.after (enclosed : s.Enclosed outer)
    (other : s.currentKind.isClosing = false) {g : Token → Read α} [∀ token, Encloses (g token)] :
    Gives (Grammar.advance >>= g) s fun _ t => t.Enclosed outer :=
  (enclosed.pastOther other).andThen fun _ _ later => Encloses.keeps later

private theorem State.Enclosed.loose (enclosed : s.Enclosed outer)
    (here : s.currentKind = .openParenthesis) {f : Read β} {g : Token → β → Token → Read α}
    [Encloses f] [∀ first inner last, Encloses (g first inner last)] :
    Gives (Grammar.advance >>= fun first => f >>= fun inner => Grammar.expect .closeParenthesis >>=
      fun last => g first inner last) s fun _ t => t.Enclosed outer := by
  refine (enclosed.enter here rfl).andThen fun first t inside => ?_
  refine (Encloses.keeps (f := f) inside).andThen fun inner u later => ?_
  exact (later.expect rfl).andThen fun last v left => Encloses.keeps left

end

private theorem State.isClosing_of_isAt {s : State} {kind : Kind} (here : s.isAt kind = true)
    (other : kind.isClosing = false) : s.currentKind.isClosing = false := by
  rw [isAt, beq_iff_eq] at here
  rw [here, other]

private theorem State.isClosing_of_isAtSeparator {s : State} (here : s.isAtSeparator = true) :
    s.currentKind.isClosing = false := by
  rw [isAtSeparator, Bool.or_eq_true] at here
  rcases here with here | here
  · exact isClosing_of_isAt here rfl
  · exact isClosing_of_isAt here rfl

/-! Names and lists of names. -/

instance {α : Type} (extend : α → Token → Token → α) (value : α) :
    Encloses (dottedStep extend value) := Encloses.get fun {s outer} enclosed => by
  refine Gives.ite (fun here => ?_) fun _ => Gives.pure enclosed
  obtain ⟨dot, name, rest, ahead⟩ := State.two_of_isAtDottedName enclosed.ends here
  simp only [State.isAtDottedName, Bool.and_eq_true, beq_iff_eq] at here
  obtain ⟨⟨dotted, named⟩, -⟩ := here
  have atName : Gives advance s fun _ t => t.currentKind = .identifier := by
    intro token t yields
    rw [outcome_advance ahead, Except.ok.injEq, Prod.mk.injEq] at yields
    rw [← yields.2, ← named]
    simp [State.currentKind, State.current, State.nextKind, ahead]
  have first := (enclosed.pastOther (State.isClosing_of_isAt dotted rfl)).and atName
  refine first.andThen fun token t facts => ?_
  exact facts.1.after (by rw [facts.2]; rfl)

instance : Encloses compoundName := by
  unfold compoundName
  infer_instance

theorem enlists_nameItem {opening close : Kind} (pair : opening.closing? = some close) :
    Enlists opening close fun _ => nameItem close where
  pair := pair
  forward _ := inferInstance
  uses _ s _ more := Uses.nameItem more close
  keeps _ {s outer} enclosed other := by
    refine Gives.get (Gives.ite (fun here => ?_) fun _ => ?_)
    · simp only [Bool.or_eq_true] at here
      rcases here with (here | here) | here
      all_goals exact enclosed.after (State.isClosing_of_isAt here rfl)
    · have node := enclosed.errorNode close (not_closing_of_not_isAt pair other)
      exact node.andThen fun element t later => Gives.pure later

private theorem State.Enclosed.inputDescription {s : State} {outer : List Kind}
    (enclosed : s.Enclosed outer) (here : s.isAt .openParenthesis = true) :
    Gives Grammar.inputDescription s fun _ t => t.Enclosed outer :=
  (enlists_nameItem rfl).bracketed enclosed (by simpa [State.isAt] using here)

/-! Expressions, for any reader of the expressions inside. -/

instance : Encloses missingOperand := by
  unfold missingOperand
  infer_instance

instance (words : List Token) : Encloses (commandStep words) where
  keeps enclosed := by
    have first := Encloses.keeps (f := eat .unquotedStringLiteral) enclosed
    refine first.andThen fun found t later => ?_
    cases found with
    | none => exact Gives.pure later
    | some word => exact Gives.pure later

instance (name : Element) : Encloses (command name) := by
  unfold command
  infer_instance

section

variable (inner : Inner) [∀ inside floor, Forward (inner inside floor)]
  [∀ inside floor, Encloses (inner inside floor)] {s : State} {outer : List Kind}

instance (inside : Bool) (floor : Precedence) : Encloses (operand inner inside floor) := by
  unfold operand
  infer_instance

instance (inside : Bool) : Encloses (rangeEnd inner inside) := by
  unfold rangeEnd
  infer_instance

theorem enlists_matrixItem {opening close : Kind} (pair : opening.closing? = some close) :
    Enlists opening close fun _ => matrixItem inner close where
  pair := pair
  forward _ := inferInstance
  uses _ s _ more := Uses.matrixItem inner more close
  keeps _ {s outer} enclosed other := by
    have keeps : ∀ first ∈ (opening :: outer).head?, first.closing? ≠ some s.currentKind :=
      not_closing_of_not_isAt pair other
    refine Gives.get (Gives.ite (fun here => ?_) fun _ => Gives.ite (fun _ => ?_) fun _ => ?_)
    · exact enclosed.after (State.isClosing_of_isAtSeparator here)
    · exact enclosed.progressing close _ keeps
    · exact (enclosed.errorNode close keeps).andThen fun element t later => Gives.pure later

theorem enlists_argumentItem {opening close : Kind} (pair : opening.closing? = some close) :
    Enlists opening close (argumentItem inner close) where
  pair := pair
  forward _ := inferInstance
  uses before s _ more := Uses.argumentItem inner more close before
  keeps before {s outer} enclosed other := by
    -- An argument, after a comma that is missing or not.
    have value {t : State} (later : t.Enclosed (opening :: outer)) (rest : t.rest = s.rest)
        (eof : t.eof = s.eof) (comma : List Element) :
        Gives (progressing close (inner false .expression) >>= fun value => pure (comma ++ value))
          t fun _ u => u.Enclosed (opening :: outer) := by
      have here : t.isAt close = false := by
        rw [← other, State.isAt, State.isAt, State.currentKind, State.currentKind, State.current,
          State.current, rest, eof]
      have read := later.progressing close (inner false .expression)
        (not_closing_of_not_isAt pair here)
      exact read.andThen fun elements u last => Gives.pure last
    refine Gives.get (Gives.ite (fun here => ?_) fun _ => Gives.ite (fun _ => ?_) fun _ => ?_)
    · exact enclosed.after (State.isClosing_of_isAt here rfl)
    · refine Gives.ite (fun _ => ?_) fun _ => value enclosed rfl rfl []
      have comma := ((Encloses.keeps (f := missing .comma) enclosed).and
        (missing_rest .comma s)).and (Forward.moves s)
      refine comma.andThen fun token t facts => ?_
      exact value facts.1.1 facts.1.2 facts.2.eof [.leaf token]
    · have node := enclosed.errorNode close (not_closing_of_not_isAt pair other)
      exact node.andThen fun element t later => Gives.pure later

omit [∀ inside floor, Forward (inner inside floor)] in
private theorem State.Enclosed.functionHandle (enclosed : s.Enclosed outer) (inside : Bool)
    (here : s.currentKind = .at) :
    Gives (Grammar.functionHandle inner inside) s fun _ t => t.Enclosed outer := by
  refine (enclosed.pastOther (by rw [here]; rfl)).andThen fun sign t later => ?_
  refine Gives.get (Gives.ite (fun opens => ?_) fun _ => Encloses.keeps later)
  exact (later.inputDescription opens).andThen fun parameters u last => Encloses.keeps last

instance (inside : Bool) : Encloses (term inner inside) := Encloses.get fun {s outer} enclosed => by
  have one {kind : Kind} (here : s.currentKind.isClosing = false) :
      Gives (single kind) s fun _ t => t.Enclosed outer := enclosed.after here
  split
  case h_1 here => exact one (by rw [here]; rfl)
  case h_2 here => exact one (by rw [here]; rfl)
  case h_3 here => exact one (by rw [here]; rfl)
  case h_4 here => exact one (by rw [here]; rfl)
  case h_5 here => exact one (by rw [here]; rfl)
  case h_6 here => exact (enlists_matrixItem inner rfl).bracketed enclosed here
  case h_7 here => exact (enlists_matrixItem inner rfl).bracketed enclosed here
  case h_8 here => exact enclosed.loose here
  case h_9 here => exact enclosed.functionHandle inner inside here
  case h_10 => exact Encloses.keeps enclosed

omit [∀ inside floor, Forward (inner inside floor)] in
private theorem State.Enclosed.memberAccess (enclosed : s.Enclosed outer) (subject : Element)
    (here : s.currentKind = .dot) :
    Gives (Grammar.memberAccess inner subject) s fun _ t => t.Enclosed outer := by
  refine (enclosed.pastOther (by rw [here]; rfl)).andThen fun dot t later => ?_
  refine Gives.get (Gives.ite (fun opens => ?_) fun _ => Encloses.keeps later)
  exact later.loose (by simpa [State.isAt] using opens)

instance (inside : Bool) (subject : Element) : Encloses (suffixStep inner inside subject) :=
  Encloses.get fun {s outer} enclosed => by
    have stay : Gives (pure none : Read (Option Element)) s fun _ t => t.Enclosed outer :=
      Gives.pure enclosed
    have call {opening close : Kind} (pair : opening.closing? = some close)
        (here : s.currentKind = opening) (kind : Kind) :
        Gives (arguments inner close >>= fun list =>
          pure (some (Element.ofChildren kind (subject :: list)))) s
            fun _ t => t.Enclosed outer := by
      have list : Gives (arguments inner close) s fun _ t => t.Enclosed outer :=
        (enlists_argumentItem inner pair).bracketed enclosed here
      exact list.andThen fun elements t later => Gives.pure later
    refine Gives.ite (fun _ => stay) fun _ => ?_
    split
    case h_1 here => exact Gives.ite (fun _ => stay) fun _ => call rfl here _
    case h_2 here => exact Gives.ite (fun _ => stay) fun _ => call rfl here _
    case h_3 here => exact (enclosed.memberAccess inner subject here).map
    case h_4 here => exact enclosed.after (by rw [here]; rfl)
    case h_5 here => exact enclosed.after (by rw [here]; rfl)
    case h_6 here =>
      have sign : s.currentKind.isClosing = false := by rw [here]; rfl
      exact Gives.ite (fun _ => Gives.map (enclosed.after sign)) fun _ => stay
    case h_7 => exact stay

instance (inside : Bool) : Encloses (suffixed inner inside) := by
  unfold suffixed
  infer_instance

instance (inside : Bool) (floor : Precedence) : Encloses (signed inner inside floor) :=
  Encloses.get fun {s outer} enclosed => by
    split
    case h_1 here => exact enclosed.after (by rw [here]; rfl)
    case h_2 here => exact enclosed.after (by rw [here]; rfl)
    case h_3 here => exact enclosed.after (by rw [here]; rfl)
    case h_4 here => exact enclosed.after (by rw [here]; rfl)
    case h_5 => exact Encloses.keeps enclosed

private theorem isClosing_of_ofBinary? {kind : Kind} {precedence : Precedence}
    (binary : Precedence.ofBinary? kind = some precedence) : kind.isClosing = false := by
  cases kind <;> first | rfl | cases binary

instance (inside : Bool) (floor : Precedence) (left : Element) :
    Encloses (binaryStep inner inside floor left) := Encloses.get fun {s outer} enclosed => by
  refine Gives.ite (fun _ => Gives.pure enclosed) fun _ => ?_
  split
  case h_1 => exact Gives.pure enclosed
  case h_2 precedence binary =>
    refine Gives.ite (fun _ => Gives.pure enclosed) fun _ => ?_
    exact enclosed.after (isClosing_of_ofBinary? binary)

instance (inside : Bool) (floor : Precedence) : Encloses (climb inner inside floor) := by
  unfold climb
  infer_instance

end

instance (depth : Nat) (inside : Bool) (floor : Precedence) :
    Encloses (expressionWithin depth inside floor) := by
  induction depth generalizing inside floor with
  | zero => exact inferInstanceAs (Encloses missingOperand)
  | succ depth ih =>
    exact inferInstanceAs (Encloses (climb (expressionWithin depth) inside floor))

instance (inside : Bool) : Encloses (expression inside) := by
  unfold expression
  infer_instance

/-! Attributes. -/

instance : Encloses attributeValue where
  keeps enclosed := by
    refine (Encloses.keeps (f := eat .equals) enclosed).andThen fun found t later => ?_
    cases found with
    | none => exact Gives.pure later
    | some equals =>
      refine Gives.map ?_
      exact (Encloses.keeps (f := expression false) later).andThen fun _ _ last => Gives.pure last

instance : Encloses classAttribute := by
  unfold classAttribute
  infer_instance

theorem enlists_attributeItem :
    Enlists .openParenthesis .closeParenthesis fun _ => attributeItem where
  pair := rfl
  forward _ := inferInstance
  uses _ s _ more := Uses.attributeItem more
  keeps _ {s outer} enclosed other := by
    refine Gives.get (Gives.ite (fun here => ?_) fun _ => Gives.ite (fun _ => ?_) fun _ => ?_)
    · exact enclosed.after (State.isClosing_of_isAt here rfl)
    · exact (Encloses.keeps enclosed).andThen fun element t later => Gives.pure later
    · have node := enclosed.errorNode .closeParenthesis (not_closing_of_not_isAt rfl other)
      exact node.andThen fun element t later => Gives.pure later

end Grammar

end MatrixScript
