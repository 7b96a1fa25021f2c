import MatrixScript.Proofs.Grammar.Tandem

/-!
Names and expressions of two runs that make the same moves.

Each rule adds to both runs what it yields. A rule chooses its way by kinds, words and line ends,
and those are the same on both sides.
-/

set_option autoImplicit false

namespace MatrixScript.Grammar

section

variable {init init' s s' : State} {held held' : Row}

private theorem dotted_agrees {α : Type} {extend : α → Token → Token → α} (row : α → Row)
    (extended : ∀ a a' t t', AddsSlots init init' held held' (row a) (row a') t t' →
      t.isAtDottedName = true → ∀ dot name rest, t.rest = dot :: name :: rest →
      ∀ dot' name' u u',
      Tandem init init' (held ++ row a ++ [some (.leaf dot.token), some (.leaf name.token)]) u
        (held' ++ row a' ++ [some (.leaf dot'), some (.leaf name')]) u' →
      AddsSlots init init' held held' (row (extend a dot.token name.token))
        (row (extend a' dot' name')) u u')
    {a a' : α} (holds : AddsSlots init init' held held' (row a) (row a') s s') :
    Agrees (repeatRead (dottedStep extend) a) (repeatRead (dottedStep extend) a') s s'
      fun a a' => AddsSlots init init' held held' (row a) (row a') := by
  refine Agrees.repeated holds.2.alike holds fun a a' t t' before => ?_
  have tandem := before.2
  unfold dottedStep
  refine Agrees.get (Agrees.ite (by rw [tandem.alike.isAtDottedName_eq]) (fun here => ?_)
    fun _ => Agrees.pure before)
  obtain ⟨dot, name, rest, ahead⟩ := State.two_of_isAtDottedName tandem.ends here
  refine (use_agrees tandem ahead).andThen fun _ dot' u u' used => ?_
  obtain ⟨⟨rfl, rfl⟩, tandem⟩ := used
  refine (use_agrees tandem (State.afterToken_rest ..)).andThen fun _ name' v v' used => ?_
  obtain ⟨⟨rfl, rfl⟩, tandem⟩ := used
  exact Agrees.pure (extended a a' t t' before here dot name rest ahead dot' name' _ v'
    (by simpa using tandem))

theorem compoundName_agrees (tandem : Tandem init init' held s held' s') :
    Agrees compoundName compoundName s s' (AddsElement init init' held held') := by
  unfold compoundName
  refine (expect_agrees tandem (by decide) (by decide)).andThen fun first first' t t' tandem => ?_
  refine (dotted_agrees (List.map fun token => some (.leaf token)) ?_
    ⟨by rfl, tandem⟩).andThen fun tokens tokens' u u' after => ?_
  · intro tokens tokens' t t' before _ dot name rest _ dot' name' u u' tandem
    exact ⟨by simpa using before.1, by simpa using tandem⟩
  · refine Agrees.pure (Tandem.ofChildren (by decide) (by simpa using after.1) ?_)
    simpa [Function.comp_def] using after.2

private theorem names_agrees (tandem : Tandem init init' held s held' s') (close : Kind) :
    Agrees (names close) (names close) s s' (AddsElement init init' held held') := by
  refine listUntil_agrees tandem fun _ _ t t' before more => ?_
  have alike := before.2.alike
  unfold nameItem
  refine Agrees.get (Agrees.ite ?_ (fun _ => tokens_agree before.2 more)
    fun _ => errorNodes_agree before.2 more close)
  rw [alike.isAt_eq, alike.isAt_eq, alike.isAt_eq]

private theorem inputDescription_agrees (tandem : Tandem init init' held s held' s')
    (more : s.rest ≠ []) :
    Agrees inputDescription inputDescription s s' (AddsElement init init' held held') := by
  unfold inputDescription
  refine (advance_agrees tandem more).andThen fun opening opening' t t' tandem => ?_
  refine (names_agrees tandem _).andThen fun parameters parameters' t t' tandem => ?_
  refine (expect_agrees tandem (by decide) (by decide)).andThen fun _ _ t t' tandem => ?_
  exact Agrees.pure (Tandem.ofChildren (by decide) rfl (by simpa using tandem))

private theorem outputDescription_agrees (tandem : Tandem init init' held s held' s')
    (more : s.rest ≠ []) :
    Agrees outputDescription outputDescription s s' (AddsElement init init' held held') := by
  unfold outputDescription
  refine Agrees.get (Agrees.ite (by rw [tandem.alike.isAt_eq]) (fun _ => ?_) fun _ => ?_)
  · refine (advance_agrees tandem more).andThen fun opening opening' t t' tandem => ?_
    refine (names_agrees tandem _).andThen fun outputs outputs' t t' tandem => ?_
    refine (expect_agrees tandem (by decide) (by decide)).andThen fun _ _ t t' tandem => ?_
    refine (expect_agrees tandem (by decide) (by decide)).andThen fun _ _ t t' tandem => ?_
    exact Agrees.pure (Tandem.ofChildren (by decide) rfl (by simpa using tandem))
  · refine (advance_agrees tandem.leave more).andThen fun output output' t t' tandem => ?_
    have listed : Tandem init init' (held ++ [none] ++ [some (.list [.leaf output])]) t
        (held' ++ [none] ++ [some (.list [.leaf output'])]) t' := Tandem.list rfl tandem
    refine (expect_agrees listed.leave (by decide) (by decide)).andThen fun _ _ t t' tandem => ?_
    exact Agrees.pure (Tandem.join _ (by decide) rfl (by simpa using tandem))

theorem signature_agrees (tandem : Tandem init init' held s held' s') :
    Agrees signature signature s s' (AddsSlots init init' held held') := by
  unfold signature
  refine Agrees.get (Agrees.iteThen ?_ (fun here => ?_) (fun _ => absent_agrees tandem)
    fun output output' t t' tandem => ?_)
  · rw [tandem.alike.isAt_eq, tandem.alike.isAt_eq, tandem.alike.nextKind_eq]
  · refine optional_agrees (outputDescription_agrees tandem ?_)
    rw [Bool.or_eq_true, Bool.and_eq_true] at here
    rcases here with here | here
    · exact State.more_of_isAt tandem.ends here (by decide)
    · exact State.more_of_isAt tandem.ends here.1 (by decide)
  refine (compoundName_agrees tandem).andThen fun name name' t t' tandem => Agrees.get ?_
  refine Agrees.iteThen ?_ (fun here => ?_) (fun _ => absent_agrees tandem)
    fun input input' t t' tandem => ?_
  · rw [tandem.alike.isAt_eq, tandem.alike.previousEndsLine_eq]
  · rw [Bool.and_eq_true] at here
    exact optional_agrees (inputDescription_agrees tandem
      (State.more_of_isAt tandem.ends here.1 (by decide)))
  exact Agrees.pure ⟨rfl, by simpa using tandem⟩

private theorem missingOperand_agrees (tandem : Tandem init init' held s held' s') :
    Agrees missingOperand missingOperand s s' (AddsElement init init' held held') := by
  unfold missingOperand
  refine (missing_agrees tandem (by decide)).andThen fun _ _ t t' tandem => ?_
  exact Agrees.pure (Tandem.ofChildren (by decide) rfl tandem)

private theorem emptyExpression_adds (tandem : Tandem init init' held s held' s') :
    AddsElement init init' held held' emptyExpression emptyExpression s s' :=
  Tandem.ofChildren (by decide) rfl (by simpa using tandem)

private theorem single_agrees (tandem : Tandem init init' held s held' s') (more : s.rest ≠ [])
    {kind : Kind} (plain : kind.isPlain = true) :
    Agrees (single kind) (single kind) s s' (AddsElement init init' held held') := by
  unfold single
  refine (advance_agrees tandem more).andThen fun _ _ t t' tandem => ?_
  exact Agrees.pure (Tandem.ofChildren plain rfl tandem)

private theorem baseClassInvocation_agrees {method method' : Element}
    (tandem : Tandem init init' (held ++ [some method]) s (held' ++ [some method']) s')
    (more : s.rest ≠ []) (sameLine : s.previousEndsLine = false) :
    Agrees (baseClassInvocation method) (baseClassInvocation method') s s'
      (AddsElement init init' held held') := by
  obtain ⟨sign, rest, ahead⟩ := List.exists_cons_of_ne_nil more
  have before := tandem
  unfold baseClassInvocation
  refine (use_agrees tandem ahead).andThen fun _ sign' t t' used => ?_
  obtain ⟨⟨rfl, rfl⟩, tandem⟩ := used
  have read := expect_gives tandem.ends (show Kind.identifier ≠ .eof by decide)
  refine (Agrees.given read (expect_agrees tandem (by decide) (by decide))).andThen
    fun first first' t t' named => ?_
  obtain ⟨named, tandem⟩ := named
  have start : Tandem init init'
      (held ++ [some method] ++ [some (.leaf sign.token)] ++
        [some (.ofChildren .identifierNameExpression [.leaf first])]) t
      (held' ++ [some method'] ++ [some (.leaf sign')] ++
        [some (.ofChildren .identifierNameExpression [.leaf first'])]) t' :=
    Tandem.ofChildren (by decide) rfl tandem
  have dotted := dottedBase_gives (s := t) (.ofChildren .identifierNameExpression [.leaf first])
  refine (Agrees.given dotted (dotted_agrees (fun base => [some base]) ?_
    ⟨by rfl, start⟩)).andThen fun base base' u u' after => ?_
  · intro base base' t t' before here dot name rest ahead dot' name' u u' tandem
    obtain ⟨sameLine, named⟩ := State.facts_of_isAtDottedName here ahead
    have names : Names .memberAccessExpression dot.token (name :: rest)
        [some (.leaf name.token)] :=
      fun _ => Or.inr ⟨name, rest, [], rfl, by simp [Kind.takes, named], rfl⟩
    exact ⟨rfl, Tandem.ofOperator [base] [.leaf name.token] rfl rfl before.2 ahead
      (.reference rfl sameLine names) (by simpa using tandem)⟩
  · obtain ⟨⟨touches, more, tokens⟩, -, tandem⟩ := after
    have names : Names .baseClassInvokationExpression sign.token rest [some base] := by
      intro ends
      rcases named with ⟨next, later, following, kind, rfl⟩ | ⟨other, rfl, last⟩
      · refine Or.inr ⟨next, later, more, following, by simp [Kind.takes, kind], ?_⟩
        simpa [Element.slotTokens, Element.tokens] using tokens
      · -- No dot touches an `@` that ends its line.
        have apart : t.previousHasTrailing = true := by
          rw [State.previousHasTrailing, last]
          exact Token.trailing_of_endsLine ends
        rw [touches apart]
        exact Or.inl ⟨rfl, State.takes_of_not_isAt rfl other (Or.inl rfl)⟩
    exact Agrees.pure (Tandem.ofOperator [method] [base] rfl rfl before ahead
      (.reference rfl sameLine names) (by simpa using tandem))

private theorem command_agrees {name name' : Element}
    (tandem : Tandem init init' (held ++ [some name]) s (held' ++ [some name']) s') :
    Agrees (command name) (command name') s s' (AddsElement init init' held held') := by
  have loop : Agrees (repeatRead commandStep []) (repeatRead commandStep []) s s'
      fun words words' => AddsElements init init' (held ++ [some name]) (held' ++ [some name'])
        (words.map .leaf) (words'.map .leaf) := by
    refine Agrees.repeated tandem.alike ⟨rfl, by simpa using tandem⟩
      fun words words' t t' before => ?_
    unfold commandStep
    refine foundThen_agrees (eat_agrees before.2 (by decide)) (fun u u' tandem => ?_)
      fun word word' u u' tandem => ?_
    · exact Agrees.pure ⟨before.1, tandem⟩
    · exact Agrees.pure ⟨by simpa using before.1, by simpa using tandem⟩
  unfold command
  refine loop.andThen fun words words' t t' after => ?_
  have listed := after.2.list after.1
  exact Agrees.pure (Tandem.ofChildren (by decide) rfl (by simpa using listed))

end

/-! Expressions, for any reader of the expressions inside that adds what it yields. -/

section

variable {init init' : State} {inner : Inner}
  (inner_agrees : ∀ inside floor held held' s s', Tandem init init' held s held' s' →
    Agrees (inner inside floor) (inner inside floor) s s' (AddsElement init init' held held'))
  {held held' : Row} {s s' : State}

include inner_agrees

private theorem operand_agrees (tandem : Tandem init init' held s held' s') (inside : Bool)
    (floor : Precedence) :
    Agrees (operand inner inside floor) (operand inner inside floor) s s'
      (AddsElement init init' held held') := by
  unfold operand
  exact Agrees.get (Agrees.ite (by rw [tandem.alike.previousEndsLine_eq])
    (fun _ => missingOperand_agrees tandem) fun _ => inner_agrees inside floor _ _ s s' tandem)

private theorem rangeEnd_agrees (tandem : Tandem init init' held s held' s') (inside : Bool) :
    Agrees (rangeEnd inner inside) (rangeEnd inner inside) s s'
      (AddsElement init init' held held') := by
  unfold rangeEnd
  refine Agrees.get (Agrees.ite ?_ (fun _ => Agrees.pure (emptyExpression_adds tandem))
    fun _ => inner_agrees inside _ _ _ s s' tandem)
  rw [tandem.alike.previousEndsLine_eq, tandem.alike.isAtAny_eq]

private theorem matrixItem_agrees (tandem : Tandem init init' held s held' s') (more : s.rest ≠ [])
    (close : Kind) :
    Agrees (matrixItem inner close) (matrixItem inner close) s s'
      (AddsElements init init' held held') := by
  unfold matrixItem
  refine Agrees.get (Agrees.ite (by rw [tandem.alike.isAtSeparator_eq])
    (fun _ => tokens_agree tandem more) fun _ => Agrees.ite (by rw [tandem.alike.isAtAny_eq])
    (fun _ => ?_) fun _ => errorNodes_agree tandem more close)
  exact progressing_agrees tandem.alike more (inner_agrees true _ _ _ s s' tandem)

private theorem matrix_agrees (tandem : Tandem init init' held s held' s') (more : s.rest ≠ [])
    {kind close : Kind} (plain : kind.isPlain = true) (other : close ≠ .eof)
    (proper : close ≠ .badToken) :
    Agrees (matrix inner kind close) (matrix inner kind close) s s'
      (AddsElement init init' held held') := by
  unfold matrix
  refine (advance_agrees tandem more).andThen fun _ _ t t' tandem => ?_
  refine (listUntil_agrees tandem fun _ _ _ _ before more =>
    matrixItem_agrees inner_agrees before.2 more close).andThen fun _ _ t t' tandem => ?_
  refine (expect_agrees tandem other proper).andThen fun _ _ t t' tandem => ?_
  exact Agrees.pure (Tandem.ofChildren plain rfl (by simpa using tandem))

private theorem argumentItem_agrees (close : Kind) (before before' : List Element)
    (sofar : AddsElements init init' held held' before before' s s') (more : s.rest ≠ []) :
    Agrees (argumentItem inner close before) (argumentItem inner close before') s s'
      (AddsElements init init' (held ++ before.map some) (held' ++ before'.map some)) := by
  have tandem := sofar.2
  have value (comma comma' : List Element) (t t' : State)
      (kept : t.rest = s.rest ∧ AddsElements init init' (held ++ before.map some)
        (held' ++ before'.map some) comma comma' t t') :
      Agrees (progressing close (inner false .expression) >>= fun value => pure (comma ++ value))
        (progressing close (inner false .expression) >>= fun value => pure (comma' ++ value)) t t'
        (AddsElements init init' (held ++ before.map some) (held' ++ before'.map some)) := by
    have read := inner_agrees false .expression _ _ t t' kept.2.2
    refine (progressing_agrees kept.2.2.alike (by rw [kept.1]; exact more) read).andThen
      fun value value' u u' after => ?_
    exact Agrees.pure ⟨by simp [kept.2.1, after.1], by simpa using after.2⟩
  -- The kinds of the elements before are the same, and so is whether the last one is a comma.
  have same : before'.getLast?.any (·.kind != .comma) = before.getLast?.any (·.kind != .comma) := by
    have kinds := congrArg (fun kinds => kinds.getLast?.any (· != Kind.comma))
      (Tandem.kinds_eq sofar.1 tandem)
    simpa [List.getLast?_map, Option.any_map] using kinds
  unfold argumentItem
  refine Agrees.get (Agrees.ite (by rw [tandem.alike.isAt_eq]) (fun _ => tokens_agree tandem more)
    fun _ => Agrees.ite (by rw [tandem.alike.isAtAny_eq]) (fun _ => ?_)
    fun _ => errorNodes_agree tandem more close)
  refine Agrees.ite (by rw [same]) (fun _ => ?_) fun _ => ?_
  · refine (Agrees.given (missing_rest .comma s) (missing_agrees tandem (by decide))).andThen
      fun comma comma' t t' kept => ?_
    exact Agrees.andThen (Agrees.pure ⟨kept.1, rfl, kept.2⟩) value
  · exact Agrees.andThen (Agrees.pure ⟨rfl, rfl, by simpa using tandem⟩) value

theorem arguments_agrees (tandem : Tandem init init' held s held' s') (more : s.rest ≠ [])
    {close : Kind} (other : close ≠ .eof) (proper : close ≠ .badToken) :
    Agrees (arguments inner close) (arguments inner close) s s'
      (AddsElements init init' held held') := by
  unfold arguments
  refine (advance_agrees tandem more).andThen fun _ _ t t' tandem => ?_
  refine (listUntil_agrees tandem fun before before' _ _ sofar more =>
    argumentItem_agrees inner_agrees close before before' sofar more).andThen
      fun _ _ t t' tandem => ?_
  refine (expect_agrees tandem other proper).andThen fun _ _ t t' tandem => ?_
  exact Agrees.pure ⟨rfl, by simpa using tandem⟩

private theorem functionHandle_agrees (tandem : Tandem init init' held s held' s')
    (more : s.rest ≠ [])
    (inside : Bool) :
    Agrees (functionHandle inner inside) (functionHandle inner inside) s s'
      (AddsElement init init' held held') := by
  unfold functionHandle
  refine (advance_agrees tandem more).andThen fun _ _ t t' tandem => Agrees.get ?_
  refine Agrees.ite (by rw [tandem.alike.isAt_eq]) (fun here => ?_) fun _ => ?_
  · have more := State.more_of_isAt tandem.ends here (by decide)
    refine (inputDescription_agrees tandem more).andThen fun _ _ t t' tandem => ?_
    refine (inner_agrees inside _ _ _ t t' tandem).andThen fun _ _ t t' tandem => ?_
    exact Agrees.pure (Tandem.ofChildren (by decide) rfl (by simpa using tandem))
  · refine (compoundName_agrees tandem).andThen fun _ _ t t' tandem => ?_
    exact Agrees.pure (Tandem.ofChildren (by decide) rfl (by simpa using tandem))

private theorem parenthesized_agrees (tandem : Tandem init init' held s held' s')
    (more : s.rest ≠ []) :
    Agrees (parenthesized inner) (parenthesized inner) s s'
      (AddsElement init init' held held') := by
  unfold parenthesized
  refine (advance_agrees tandem more).andThen fun _ _ t t' tandem => ?_
  refine (inner_agrees false _ _ _ t t' tandem).andThen fun _ _ t t' tandem => ?_
  refine (expect_agrees tandem (by decide) (by decide)).andThen fun _ _ t t' tandem => ?_
  exact Agrees.pure (Tandem.ofChildren (by decide) rfl (by simpa using tandem))

private theorem term_agrees (tandem : Tandem init init' held s held' s') (inside : Bool) :
    Agrees (term inner inside) (term inner inside) s s' (AddsElement init init' held held') := by
  unfold term
  refine Agrees.get ?_
  rw [tandem.alike.currentKind_eq]
  split
  case h_1 here =>
    exact single_agrees tandem (State.more_of_currentKind tandem.ends here (by decide)) (by decide)
  case h_2 here =>
    exact single_agrees tandem (State.more_of_currentKind tandem.ends here (by decide)) (by decide)
  case h_3 here =>
    exact single_agrees tandem (State.more_of_currentKind tandem.ends here (by decide)) (by decide)
  case h_4 here =>
    exact single_agrees tandem (State.more_of_currentKind tandem.ends here (by decide)) (by decide)
  case h_5 here =>
    exact single_agrees tandem (State.more_of_currentKind tandem.ends here (by decide)) (by decide)
  case h_6 here =>
    have more := State.more_of_currentKind tandem.ends here (by decide)
    exact matrix_agrees inner_agrees tandem more (by decide) (by decide) (by decide)
  case h_7 here =>
    have more := State.more_of_currentKind tandem.ends here (by decide)
    exact matrix_agrees inner_agrees tandem more (by decide) (by decide) (by decide)
  case h_8 here =>
    have more := State.more_of_currentKind tandem.ends here (by decide)
    exact parenthesized_agrees inner_agrees tandem more
  case h_9 here =>
    have more := State.more_of_currentKind tandem.ends here (by decide)
    exact functionHandle_agrees inner_agrees tandem more inside
  case h_10 => exact missingOperand_agrees tandem

private theorem memberAccess_agrees {subject subject' : Element}
    (tandem : Tandem init init' (held ++ [some subject]) s (held' ++ [some subject']) s')
    (more : s.rest ≠ []) (sameLine : s.previousEndsLine = false) :
    Agrees (memberAccess inner subject) (memberAccess inner subject') s s'
      (AddsElement init init' held held') := by
  obtain ⟨dot, rest, ahead⟩ := List.exists_cons_of_ne_nil more
  have before := tandem
  unfold memberAccess
  refine (use_agrees tandem ahead).andThen fun _ dot' t t' used => Agrees.get ?_
  obtain ⟨⟨rfl, rfl⟩, tandem⟩ := used
  refine Agrees.ite (by rw [tandem.alike.isAt_eq]) (fun here => ?_) fun unopened => ?_
  · obtain ⟨opening, later, following⟩ :=
      List.exists_cons_of_ne_nil (State.more_of_isAt tandem.ends here (by decide))
    have kind : opening.kind = .openParenthesis := by
      simpa [State.isAt, State.currentKind_of_ahead following] using here
    refine (use_agrees tandem following).andThen fun _ opening' u u' used => ?_
    obtain ⟨⟨rfl, rfl⟩, tandem⟩ := used
    refine (inner_agrees false _ _ _ _ u' tandem).andThen fun member _ u u' tandem => ?_
    refine (expect_agrees tandem (by decide) (by decide)).andThen fun closing _ u u' tandem => ?_
    have names : Names .indirectMemberAccessExpression dot.token rest
        ([.leaf opening.token, member, .leaf closing].map some) :=
      fun _ => Or.inr ⟨opening, later, _, following, by simp [Kind.takes, kind], rfl⟩
    exact Agrees.pure (Tandem.ofOperator [subject] [.leaf opening.token, member, .leaf closing] rfl
      rfl before ahead (.reference rfl sameLine names) (by simpa using tandem))
  · have read := expect_gives tandem.ends (show Kind.identifier ≠ .eof by decide)
    refine (Agrees.given read (expect_agrees tandem (by decide) (by decide))).andThen
      fun name _ u u' named => ?_
    obtain ⟨named, tandem⟩ := named
    have names : Names .memberAccessExpression dot.token rest ([.leaf name].map some) := by
      intro _
      rcases named with ⟨next, later, following, kind, rfl⟩ | ⟨other, rfl, -⟩
      · exact Or.inr ⟨next, later, [], following, by simp [Kind.takes, kind], rfl⟩
      · exact Or.inl ⟨rfl, State.takes_of_not_isAt rfl other (Or.inr (by simpa using unopened))⟩
    exact Agrees.pure (Tandem.ofOperator [subject] [.leaf name] rfl rfl before ahead
      (.reference rfl sameLine names) (by simpa using tandem))

private theorem suffixStep_agrees {subject subject' : Element}
    (tandem : Tandem init init' (held ++ [some subject]) s (held' ++ [some subject']) s')
    (inside : Bool) :
    Agrees (suffixStep inner inside subject) (suffixStep inner inside subject') s s'
      (BothGo (AddsElement init init' held held') subject subject') := by
  have call {kind close : Kind} (isSuffix : kind.isSuffix = true)
      (sameLine : s.previousEndsLine = false) (more : s.rest ≠ []) (other : close ≠ .eof)
      (proper : close ≠ .badToken) :
      Agrees (arguments inner close >>= fun parts =>
          pure (some (Element.ofChildren kind (subject :: parts))))
        (arguments inner close >>= fun parts =>
          pure (some (Element.ofChildren kind (subject' :: parts)))) s s'
        (BothGo (AddsElement init init' held held') subject subject') := by
    obtain ⟨opening, rest, ahead⟩ := List.exists_cons_of_ne_nil more
    refine (Agrees.given (arguments_gives ahead close)
      (arguments_agrees inner_agrees tandem more other proper)).andThen
        fun parts parts' t t' after => ?_
    obtain ⟨⟨back, rfl⟩, same, after⟩ := after
    exact Agrees.pure (Tandem.ofOperator [subject] back rfl (by simp [same]) tandem ahead
      (.suffix isSuffix sameLine) (by simpa using after))
  have transposed (sameLine : s.previousEndsLine = false) (more : s.rest ≠ []) :
      Agrees (advance >>= fun token => pure
          (some (Element.ofChildren .unaryPostfixOperationExpression [subject, .leaf token])))
        (advance >>= fun token => pure
          (some (Element.ofChildren .unaryPostfixOperationExpression [subject', .leaf token]))) s s'
        (BothGo (AddsElement init init' held held') subject subject') := by
    obtain ⟨quote, rest, ahead⟩ := List.exists_cons_of_ne_nil more
    refine (use_agrees tandem ahead).andThen fun _ quote' t t' used => ?_
    obtain ⟨⟨rfl, rfl⟩, after⟩ := used
    exact Agrees.pure (Tandem.ofOperator [subject] [] rfl rfl tandem ahead
      (.suffix rfl sameLine) (by simpa using after))
  have separated : (inside && s'.previousHasTrailing) = (inside && s.previousHasTrailing) := by
    rw [tandem.alike.previousHasTrailing_eq]
  unfold suffixStep
  refine Agrees.get (Agrees.ite (by rw [tandem.alike.previousEndsLine_eq])
    (fun _ => Agrees.pure tandem) fun goesOn => ?_)
  have sameLine : s.previousEndsLine = false := by simpa using goesOn
  rw [tandem.alike.currentKind_eq]
  split
  case h_1 here =>
    refine Agrees.ite (by rw [separated]) (fun _ => Agrees.pure tandem) fun _ => ?_
    exact call rfl sameLine (State.more_of_currentKind tandem.ends here (by decide)) (by decide)
      (by decide)
  case h_2 here =>
    refine Agrees.ite (by rw [separated]) (fun _ => Agrees.pure tandem) fun _ => ?_
    exact call rfl sameLine (State.more_of_currentKind tandem.ends here (by decide)) (by decide)
      (by decide)
  case h_3 here =>
    have more := State.more_of_currentKind tandem.ends here (by decide)
    exact Agrees.map (memberAccess_agrees inner_agrees tandem more sameLine)
  case h_4 here =>
    exact transposed sameLine (State.more_of_currentKind tandem.ends here (by decide))
  case h_5 here =>
    exact transposed sameLine (State.more_of_currentKind tandem.ends here (by decide))
  case h_6 here =>
    refine Agrees.ite ?_ (fun _ => ?_) fun _ => Agrees.pure tandem
    · rw [tandem.kind_eq, tandem.alike.previousHasTrailing_eq]
    · have more := State.more_of_currentKind tandem.ends here (by decide)
      exact Agrees.map (baseClassInvocation_agrees tandem more sameLine)
  case h_7 => exact Agrees.pure tandem

private theorem suffixed_agrees (tandem : Tandem init init' held s held' s') (inside : Bool) :
    Agrees (suffixed inner inside) (suffixed inner inside) s s'
      (AddsElement init init' held held') := by
  unfold suffixed
  refine (term_agrees inner_agrees tandem inside).andThen fun subject subject' t t' tandem =>
    Agrees.get ?_
  refine Agrees.ite ?_ (fun _ => command_agrees tandem) fun _ => ?_
  · rw [tandem.kind_eq, tandem.alike.isAt_eq]
  · exact Agrees.repeated tandem.alike tandem fun subject subject' u u' tandem =>
      suffixStep_agrees inner_agrees tandem inside

private theorem prefixed_agrees (tandem : Tandem init init' held s held' s') (more : s.rest ≠ [])
    (inside : Bool) (floor : Precedence) :
    Agrees (prefixed inner inside floor) (prefixed inner inside floor) s s'
      (AddsElement init init' held held') := by
  obtain ⟨sign, rest, ahead⟩ := List.exists_cons_of_ne_nil more
  have before : Tandem init init' (held ++ [].map some) s (held' ++ []) s' := by simpa using tandem
  unfold prefixed
  refine (use_agrees tandem ahead).andThen fun _ sign' t t' used => Agrees.get ?_
  obtain ⟨⟨rfl, rfl⟩, after⟩ := used
  refine Agrees.iteThen ?_ (fun leftOut => ?_)
    (fun _ => Agrees.given (operand_leavesOut rfl _) (operand_agrees inner_agrees after _ _))
    fun body _ t t' read => ?_
  · have kind : sign'.kind = sign.token.kind := after.kind_eq
    rw [kind, after.alike.isAtAny_eq]
  · rw [Bool.and_eq_true, beq_iff_eq] at leftOut
    exact Agrees.pure ⟨fun _ => Or.inr ⟨rfl, Or.inr leftOut.1⟩, emptyExpression_adds after⟩
  · exact Agrees.pure (Tandem.ofOperator [] [body] rfl rfl before ahead
      (.sign read.1) (by simpa using read.2))

private theorem signed_agrees (tandem : Tandem init init' held s held' s') (inside : Bool)
    (floor : Precedence) :
    Agrees (signed inner inside floor) (signed inner inside floor) s s'
      (AddsElement init init' held held') := by
  unfold signed
  refine Agrees.get ?_
  rw [tandem.alike.currentKind_eq]
  split
  case h_1 here =>
    have more := State.more_of_currentKind tandem.ends here (by decide)
    exact prefixed_agrees inner_agrees tandem more inside floor
  case h_2 here =>
    have more := State.more_of_currentKind tandem.ends here (by decide)
    exact prefixed_agrees inner_agrees tandem more inside floor
  case h_3 here =>
    have more := State.more_of_currentKind tandem.ends here (by decide)
    exact prefixed_agrees inner_agrees tandem more inside floor
  case h_4 here =>
    obtain ⟨colon, rest, ahead⟩ :=
      List.exists_cons_of_ne_nil (State.more_of_currentKind tandem.ends here (by decide))
    have kind : colon.kind = .colon := by rw [← State.currentKind_of_ahead ahead, here]
    have before := emptyExpression_adds tandem
    refine (use_agrees before ahead).andThen fun _ colon' t t' used => ?_
    obtain ⟨⟨rfl, rfl⟩, after⟩ := used
    refine (Agrees.given (rangeEnd_leavesOut rfl kind)
      (rangeEnd_agrees inner_agrees after _)).andThen fun stop _ t t' read => ?_
    exact Agrees.pure (Tandem.ofOperator [emptyExpression] [stop] rfl rfl before ahead
      (.range read.1) (by simpa using read.2))
  case h_5 => exact suffixed_agrees inner_agrees tandem inside

private theorem binaryStep_agrees {left left' : Element}
    (tandem : Tandem init init' (held ++ [some left]) s (held' ++ [some left']) s')
    (inside : Bool) (floor : Precedence) :
    Agrees (binaryStep inner inside floor left) (binaryStep inner inside floor left') s s'
      (BothGo (AddsElement init init' held held') left left') := by
  unfold binaryStep
  refine Agrees.get (Agrees.ite (by rw [tandem.alike.previousEndsLine_eq])
    (fun _ => Agrees.pure tandem) fun goesOn => ?_)
  have sameLine : s.previousEndsLine = false := by simpa using goesOn
  rw [tandem.alike.currentKind_eq]
  split
  case h_1 => exact Agrees.pure tandem
  case h_2 precedence found =>
    have more : s.rest ≠ [] := by
      intro done
      rw [State.currentKind_of_done tandem.ends done] at found
      simp [Precedence.ofBinary?] at found
    obtain ⟨operator, rest, ahead⟩ := List.exists_cons_of_ne_nil more
    refine Agrees.ite (by rw [tandem.alike.startsSignedElement_eq]) (fun _ => Agrees.pure tandem)
      fun _ => ?_
    refine (use_agrees tandem ahead).andThen fun _ operator' t t' used => ?_
    obtain ⟨⟨rfl, rfl⟩, after⟩ := used
    have kind : operator'.kind = operator.token.kind := after.kind_eq
    refine Agrees.iteThen (by rw [kind])
      (fun colon => Agrees.given (rangeEnd_leavesOut rfl (by simpa using colon))
        (rangeEnd_agrees inner_agrees after _))
      (fun _ => Agrees.given (operand_leavesOut rfl _) (operand_agrees inner_agrees after _ _))
      fun right _ t t' read => ?_
    rw [kind]
    refine Agrees.pure (Tandem.ofOperator [left] [right] rfl rfl tandem ahead
      (.operation ?_ sameLine read.1) (by simpa using read.2))
    split <;> rfl

private theorem climb_agrees (tandem : Tandem init init' held s held' s') (inside : Bool)
    (floor : Precedence) :
    Agrees (climb inner inside floor) (climb inner inside floor) s s'
      (AddsElement init init' held held') := by
  unfold climb
  refine (signed_agrees inner_agrees tandem inside floor).andThen fun left left' t t' tandem => ?_
  exact Agrees.repeated tandem.alike tandem fun left left' u u' tandem =>
    binaryStep_agrees inner_agrees tandem inside floor

end

section

variable {init init' s s' : State} {held held' : Row}

theorem expressionWithin_agrees (depth : Nat) (inside : Bool) (floor : Precedence)
    (tandem : Tandem init init' held s held' s') :
    Agrees (expressionWithin depth inside floor) (expressionWithin depth inside floor) s s'
      (AddsElement init init' held held') := by
  induction depth generalizing inside floor held held' s s' with
  | zero => exact missingOperand_agrees tandem
  | succ depth ih =>
    exact climb_agrees (fun inside floor _ _ _ _ => ih inside floor) tandem inside floor

theorem expression_agrees (tandem : Tandem init init' held s held' s') (inside : Bool) :
    Agrees (expression inside) (expression inside) s s' (AddsElement init init' held held') := by
  refine Agrees.get ?_
  rw [tandem.alike.length_eq]
  exact expressionWithin_agrees _ inside _ tandem

end

end MatrixScript.Grammar
