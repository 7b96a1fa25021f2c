import MatrixScript.Proofs.Grammar.ExpressionTandem
import MatrixScript.Proofs.Grammar.Sequence

/-!
Classes, statements and scripts of two runs that make the same moves.

Two scripts whose tokens are alike both have a tree, and the trees come of the same moves, or they
fail with one problem.
-/

set_option autoImplicit false

namespace MatrixScript.Grammar

section

variable {init init' s s' : State} {held held' : Row}

private theorem attributeValue_agrees (tandem : Tandem init init' held s held' s') :
    Agrees attributeValue attributeValue s s' (AddsSlot init init' held held') := by
  unfold attributeValue
  refine foundThen_agrees (eat_agrees tandem (by decide)) (fun _ _ => absent_agrees)
    fun equals equals' t t' tandem => optional_agrees ?_
  unfold attributeAssignment
  refine (expression_agrees tandem false).andThen fun _ _ u u' tandem => ?_
  exact Agrees.pure (Tandem.ofChildren (by decide) rfl (by simpa using tandem))

private theorem classAttribute_agrees (tandem : Tandem init init' held s held' s') :
    Agrees classAttribute classAttribute s s' (AddsElement init init' held held') := by
  unfold classAttribute
  refine (eat_agrees tandem (by decide)).andThen fun negation negation' t t' found => ?_
  have tandem := Tandem.slot found
  refine (expect_agrees tandem (by decide) (by decide)).andThen fun _ _ t t' tandem => ?_
  refine (attributeValue_agrees tandem).andThen fun _ _ t t' tandem => ?_
  exact Agrees.pure (Tandem.join _ (by decide) rfl (by simpa using tandem))

private theorem attributeItem_agrees (tandem : Tandem init init' held s held' s')
    (more : s.rest ≠ []) :
    Agrees attributeItem attributeItem s s' (AddsElements init init' held held') := by
  unfold attributeItem
  refine Agrees.get (Agrees.ite (by rw [tandem.alike.isAt_eq])
    (fun _ => tokens_agree tandem more) fun _ => Agrees.ite ?_ (fun _ => ?_)
    fun _ => errorNodes_agree tandem more _)
  · rw [tandem.alike.isAt_eq, tandem.alike.isAt_eq]
  · exact (classAttribute_agrees tandem).andThen fun _ _ t t' tandem => Agrees.pure ⟨rfl, tandem⟩

theorem attributeList_agrees (tandem : Tandem init init' held s held' s') (more : s.rest ≠ []) :
    Agrees attributeList attributeList s s' (AddsElement init init' held held') := by
  unfold attributeList
  refine (advance_agrees tandem more).andThen fun _ _ t t' tandem => ?_
  refine (listUntil_agrees tandem fun _ _ _ _ before more =>
    attributeItem_agrees before.2 more).andThen fun _ _ t t' tandem => ?_
  refine (expect_agrees tandem (by decide) (by decide)).andThen fun _ _ t t' tandem => ?_
  exact Agrees.pure (Tandem.ofChildren (by decide) rfl (by simpa using tandem))

theorem baseClassList_agrees (tandem : Tandem init init' held s held' s') (more : s.rest ≠ []) :
    Agrees baseClassList baseClassList s s' (AddsElement init init' held held') := by
  unfold baseClassList
  refine (advance_agrees tandem more).andThen fun less less' t t' tandem => ?_
  refine (compoundName_agrees tandem).andThen fun first first' t t' tandem => ?_
  have loop : Agrees (repeatRead baseClassStep [first]) (repeatRead baseClassStep [first']) t t'
      (AddsElements init init' (held ++ [some (.leaf less)]) (held' ++ [some (.leaf less')])) := by
    refine Agrees.repeated tandem.alike ⟨rfl, tandem⟩ fun bases bases' u u' before => ?_
    unfold baseClassStep
    refine foundThen_agrees (eat_agrees before.2 (by decide)) (fun u u' tandem => ?_)
      fun ampersand ampersand' u u' tandem => ?_
    · exact Agrees.pure ⟨before.1, tandem⟩
    · refine (compoundName_agrees tandem).andThen fun _ _ u u' tandem => ?_
      exact Agrees.pure ⟨by simpa using before.1, by simpa using tandem⟩
  refine loop.andThen fun bases bases' u u' after => ?_
  exact Agrees.pure (Tandem.ofChildren (by decide) rfl (by simpa using after.2.list after.1))

private theorem members_agrees (tandem : Tandem init init' held s held' s') {member : Parse Element}
    (adds : ∀ held held' t t', Tandem init init' held t held' t' → t.rest ≠ [] →
      Agrees member member t t' (AddsElement init init' held held')) :
    Agrees (members member) (members member) s s' (AddsElement init init' held held') := by
  have loop : Agrees (repeatParse (memberStep member) []) (repeatParse (memberStep member) []) s s'
      (AddsElements init init' held held') := by
    refine Agrees.repeated tandem.alike ⟨rfl, by simpa using tandem⟩
      fun elements elements' t t' before => ?_
    have alike := before.2.alike
    unfold memberStep
    refine Agrees.get (Agrees.ite ?_ (fun _ => Agrees.pure before) fun here => ?_)
    · rw [alike.isAtEnd_eq, alike.isAtWord_eq]
    · rw [Bool.or_eq_true, not_or] at here
      have more := State.more_of_not_isAtEnd alike.ends here.1
      refine (adds _ _ t t' before.2 more).andThen fun _ _ u u' tandem => ?_
      exact Agrees.pure ⟨by simp [before.1], by simpa using tandem⟩
  exact loop.andThen fun elements elements' t t' after => Agrees.pure (after.2.list after.1)

private theorem separatorOr_agrees (tandem : Tandem init init' held s held' s')
    {other : Parse Element}
    (agrees : Agrees other other s s' (AddsElement init init' held held')) :
    Agrees (separatorOr other) (separatorOr other) s s' (AddsElement init init' held held') := by
  unfold separatorOr
  refine Agrees.get (Agrees.ite (by rw [tandem.alike.isAtSeparator_eq]) (fun here => ?_)
    fun _ => agrees)
  have more := State.more_of_isAtSeparator tandem.ends here
  exact (advance_agrees tandem more).lift.andThen fun _ _ t t' tandem => Agrees.pure tandem

private theorem unexpectedMember_agrees (tandem : Tandem init init' held s held' s') :
    Agrees (throw s.unexpectedMember : Parse Element) (throw s'.unexpectedMember) s s'
      (AddsElement init init' held held') := by
  refine Agrees.failing ?_
  simp only [State.unexpectedMember, tandem.alike.current.trimmed]

theorem event_agrees (tandem : Tandem init init' held s held' s') (more : s.rest ≠ []) :
    Agrees event event s s' (AddsElement init init' held held') := by
  refine separatorOr_agrees tandem (Agrees.get (Agrees.ite (by rw [tandem.alike.isAt_eq])
    (fun _ => ?_) fun _ => unexpectedMember_agrees tandem))
  exact (advance_agrees tandem more).lift.andThen fun _ _ t t' tandem => Agrees.pure tandem

private theorem enumerationValue_agrees (tandem : Tandem init init' held s held' s')
    (more : s.rest ≠ []) :
    Agrees enumerationValue enumerationValue s s' (AddsElement init init' held held') := by
  unfold enumerationValue
  refine Agrees.get ?_
  rw [tandem.alike.length_eq]
  have inner (inside : Bool) (floor : Precedence) (held held' : Row) (t t' : State)
      (tandem : Tandem init init' held t held' t') :=
    expressionWithin_agrees (s.rest.length + 1) inside floor tandem
  refine (arguments_agrees inner tandem more (by decide) (by decide)).andThen
    fun parts parts' t t' after => ?_
  exact Agrees.pure (after.2.ofChildren (by decide) after.1)

private theorem enumerationItem_agrees (tandem : Tandem init init' held s held' s')
    (more : s.rest ≠ []) :
    Agrees enumerationItem enumerationItem s s' (AddsElement init init' held held') := by
  unfold enumerationItem
  refine (advance_agrees tandem more).andThen fun _ _ t t' tandem => Agrees.get ?_
  refine Agrees.iteThen ?_ (fun here => ?_) (fun _ => absent_agrees tandem)
    fun _ _ u u' tandem => ?_
  · rw [tandem.alike.isAt_eq, tandem.alike.previousEndsLine_eq]
  · rw [Bool.and_eq_true] at here
    have more := State.more_of_isAt tandem.ends here.1 (by decide)
    exact optional_agrees (enumerationValue_agrees tandem more)
  · exact Agrees.pure (Tandem.join _ (by decide) rfl (by simpa using tandem))

theorem enumerator_agrees (tandem : Tandem init init' held s held' s') (more : s.rest ≠ []) :
    Agrees enumerator enumerator s s' (AddsElement init init' held held') :=
  separatorOr_agrees tandem (Agrees.get (Agrees.ite (by rw [tandem.alike.isAt_eq])
    (fun _ => (enumerationItem_agrees tandem more).lift) fun _ => unexpectedMember_agrees tandem))

private theorem memberBlock_agrees (tandem : Tandem init init' held s held' s') (more : s.rest ≠ [])
    {kind : Kind} (plain : kind.isPlain = true) {items : Parse Element}
    (adds : ∀ held held' t t', Tandem init init' held t held' t' →
      Agrees items items t t' (AddsElement init init' held held')) :
    Agrees (memberBlock kind items) (memberBlock kind items) s s'
      (AddsElement init init' held held') := by
  unfold memberBlock
  refine (advance_agrees tandem more).lift.andThen fun _ _ t t' tandem => Agrees.get ?_
  refine Agrees.iteThen ?_ (fun here => ?_) (fun _ => absent_agrees tandem)
    fun _ _ t t' tandem => ?_
  · rw [tandem.alike.isAt_eq, tandem.alike.previousEndsLine_eq]
  · rw [Bool.and_eq_true] at here
    have more := State.more_of_isAt tandem.ends here.1 (by decide)
    exact optional_agrees (attributeList_agrees tandem more).lift
  refine (adds _ _ t t' tandem).andThen fun _ _ t t' tandem => ?_
  refine (expectWord_agrees tandem "end").lift.andThen fun _ _ t t' tandem => ?_
  exact Agrees.pure (Tandem.join _ plain rfl (by simpa using tandem))

end

/-! Classes and statements, for any reader of the statements inside that adds what it yields. -/

section

variable {init init' : State} {block : Parse Element}
  (block_agrees : ∀ held held' s s', Tandem init init' held s held' s' →
    Agrees block block s s' (AddsElement init init' held held'))
  {held held' : Row} {s s' : State}

include block_agrees

private theorem functionDeclaration_agrees (tandem : Tandem init init' held s held' s')
    (more : s.rest ≠ []) {kind : Kind} (plain : kind.isPlain = true) :
    Agrees (functionDeclaration block kind) (functionDeclaration block kind) s s'
      (AddsElement init init' held held') := by
  unfold functionDeclaration
  refine (advance_agrees tandem more).lift.andThen fun _ _ t t' tandem => ?_
  refine (signature_agrees tandem).lift.andThen fun head head' t t' after => ?_
  refine (block_agrees _ _ t t' after.2).andThen fun _ _ t t' tandem => ?_
  refine Agrees.iteThen Iff.rfl (fun _ => ?_) (fun _ => (eatWord_agrees tandem "end").lift)
    fun _ _ t t' found => ?_
  · refine Agrees.map ((expectWord_agrees tandem "end").lift.mono fun _ _ _ _ tandem => ?_)
    exact ⟨rfl, tandem⟩
  · have tandem := Tandem.slot found
    exact Agrees.pure (Tandem.join _ plain (by simp [after.1]) (by simpa using tandem))

theorem method_agrees (tandem : Tandem init init' held s held' s') (more : s.rest ≠ []) :
    Agrees (method block) (method block) s s' (AddsElement init init' held held') := by
  have declared : Agrees abstractMethodDeclaration abstractMethodDeclaration s s'
      (AddsElement init init' held held') := by
    unfold abstractMethodDeclaration
    refine (signature_agrees tandem).andThen fun slots slots' t t' after => ?_
    exact Agrees.pure (Tandem.join _ (by decide) after.1 after.2)
  refine separatorOr_agrees tandem (Agrees.get (Agrees.ite (by rw [tandem.alike.isAtWord_eq])
    (fun _ => functionDeclaration_agrees block_agrees tandem more (by decide)) fun _ =>
    Agrees.ite ?_ (fun _ => declared.lift) fun _ => unexpectedMember_agrees tandem))
  rw [tandem.alike.isAt_eq, tandem.alike.isAt_eq]

theorem classMember_agrees (tandem : Tandem init init' held s held' s') (more : s.rest ≠ []) :
    Agrees (classMember block) (classMember block) s s' (AddsElement init init' held held') := by
  have word := tandem.alike.isAtWord_eq
  refine separatorOr_agrees tandem (Agrees.get ?_)
  refine Agrees.ite (by rw [word]) (fun _ => ?_) fun _ => Agrees.ite (by rw [word]) (fun _ => ?_)
    fun _ => Agrees.ite (by rw [word]) (fun _ => ?_) fun _ => Agrees.ite (by rw [word])
    (fun _ => ?_) fun _ => unexpectedMember_agrees tandem
  · exact memberBlock_agrees tandem more (by decide) block_agrees
  · exact memberBlock_agrees tandem more (by decide) fun _ _ _ _ tandem =>
      members_agrees tandem fun _ _ _ _ => method_agrees block_agrees
  · exact memberBlock_agrees tandem more (by decide) fun _ _ _ _ tandem =>
      members_agrees tandem fun _ _ _ _ => event_agrees
  · exact memberBlock_agrees tandem more (by decide) fun _ _ _ _ tandem =>
      members_agrees tandem fun _ _ _ _ => enumerator_agrees

private theorem classDeclaration_agrees (tandem : Tandem init init' held s held' s')
    (more : s.rest ≠ []) :
    Agrees (classDeclaration block) (classDeclaration block) s s'
      (AddsElement init init' held held') := by
  unfold classDeclaration
  refine (advance_agrees tandem more).lift.andThen fun _ _ t t' tandem => Agrees.get ?_
  refine Agrees.iteThen (by rw [tandem.alike.isAt_eq]) (fun here => ?_)
    (fun _ => absent_agrees tandem) fun _ _ t t' tandem => ?_
  · have more := State.more_of_isAt tandem.ends here (by decide)
    exact optional_agrees (attributeList_agrees tandem more).lift
  refine (expect_agrees tandem (by decide) (by decide)).lift.andThen fun _ _ t t' tandem =>
    Agrees.get ?_
  refine Agrees.iteThen (by rw [tandem.alike.isAt_eq]) (fun here => ?_)
    (fun _ => absent_agrees tandem) fun _ _ t t' tandem => ?_
  · have more := State.more_of_isAt tandem.ends here (by decide)
    exact optional_agrees (baseClassList_agrees tandem more).lift
  refine (members_agrees tandem fun _ _ _ _ => classMember_agrees block_agrees).andThen
    fun _ _ t t' tandem => ?_
  refine (expectWord_agrees tandem "end").lift.andThen fun _ _ t t' tandem => ?_
  exact Agrees.pure (Tandem.join _ (by decide) rfl (by simpa using tandem))

theorem clause_agrees (tandem : Tandem init init' held s held' s') (more : s.rest ≠ [])
    (inside : Bool) :
    Agrees (clause block inside) (clause block inside) s s'
      (AddsSlots init init' held held') := by
  unfold clause
  refine (advance_agrees tandem more).lift.andThen fun _ _ t t' tandem => ?_
  refine (expression_agrees tandem inside).lift.andThen fun _ _ t t' tandem => ?_
  refine (eatSeparator_agrees tandem).lift.andThen fun _ _ t t' tandem => ?_
  refine (block_agrees _ _ t t' tandem).andThen fun _ _ t t' tandem => ?_
  exact Agrees.pure ⟨rfl, by simpa using tandem⟩

private theorem elseClause_agrees (tandem : Tandem init init' held s held' s') :
    Agrees (elseClause block) (elseClause block) s s' (AddsSlot init init' held held') := by
  unfold elseClause
  refine foundThen_agrees (eatWord_agrees tandem "else").lift (fun _ _ => absent_agrees)
    fun keyword keyword' t t' tandem => ?_
  refine (block_agrees _ _ t t' tandem).andThen fun _ _ t t' tandem => ?_
  exact Agrees.pure (Tandem.ofChildren (by decide) rfl (by simpa using tandem))

private theorem ifStatement_agrees (tandem : Tandem init init' held s held' s') (more : s.rest ≠ [])
    (inside : Bool) :
    Agrees (ifStatement block inside) (ifStatement block inside) s s'
      (AddsElement init init' held held') := by
  unfold ifStatement
  refine (clause_agrees block_agrees tandem more inside).andThen fun head head' t t' after => ?_
  have loop : Agrees (repeatParse (elseifStep block inside) [])
      (repeatParse (elseifStep block inside) []) t t'
      (AddsElements init init' (held ++ head) (held' ++ head')) := by
    refine Agrees.repeated after.2.alike ⟨rfl, by simpa using after.2⟩
      fun alternatives alternatives' u u' before => ?_
    have tandem := before.2
    unfold elseifStep
    refine Agrees.get (Agrees.ite (by rw [tandem.alike.isAtWord_eq]) (fun here => ?_)
      fun _ => Agrees.pure before)
    have more := State.more_of_isAtWord tandem.ends here
    refine (clause_agrees block_agrees tandem more inside).andThen fun slots slots' u u' after => ?_
    exact Agrees.pure ⟨by simpa using before.1,
      by simpa using Tandem.join .elseifClause (by decide) after.1 after.2⟩
  refine loop.andThen fun alternatives alternatives' t t' others => ?_
  refine (elseClause_agrees block_agrees (others.2.list others.1)).andThen fun _ _ t t' tandem => ?_
  refine (expectWord_agrees tandem "end").lift.andThen fun _ _ t t' tandem => ?_
  exact Agrees.pure (Tandem.join _ (by decide) (by simp [after.1]) (by simpa using tandem))

private theorem loopStatement_agrees (tandem : Tandem init init' held s held' s')
    (more : s.rest ≠ [])
    (inside : Bool) {kind : Kind} (plain : kind.isPlain = true) :
    Agrees (loopStatement block inside kind) (loopStatement block inside kind) s s'
      (AddsElement init init' held held') := by
  unfold loopStatement
  refine (clause_agrees block_agrees tandem more inside).andThen fun head head' t t' after => ?_
  refine (expectWord_agrees after.2 "end").lift.andThen fun _ _ t t' tandem => ?_
  exact Agrees.pure (Tandem.join _ plain (by simp [after.1]) (by simpa using tandem))

private theorem switchCase_agrees (tandem : Tandem init init' held s held' s') (more : s.rest ≠ [])
    (inside : Bool) :
    Agrees (switchCase block inside) (switchCase block inside) s s'
      (AddsElement init init' held held') := by
  unfold switchCase
  refine Agrees.get ?_
  rw [tandem.alike.isAtWord_eq]
  refine (advance_agrees tandem more).lift.andThen fun _ _ t t' tandem => ?_
  refine Agrees.iteThen Iff.rfl (fun _ => optional_agrees (expression_agrees tandem inside).lift)
    (fun _ => absent_agrees tandem) fun _ _ t t' tandem => ?_
  refine (eatSeparator_agrees tandem).lift.andThen fun _ _ t t' tandem => ?_
  refine (block_agrees _ _ t t' tandem).andThen fun _ _ t t' tandem => ?_
  exact Agrees.pure (Tandem.join _ (by decide) rfl (by simpa using tandem))

theorem switchStep_agrees {cases cases' : List Element}
    (before : AddsElements init init' held held' cases cases' s s') (inside : Bool) :
    Agrees (switchStep block inside cases) (switchStep block inside cases') s s'
      (BothGo (AddsElements init init' held held') cases cases') := by
  have tandem := before.2
  have alike := tandem.alike
  unfold switchStep
  refine Agrees.get (Agrees.ite ?_ (fun here => ?_) fun _ => ?_)
  · rw [alike.isAtWord_eq, alike.isAtWord_eq]
  · have more : s.rest ≠ [] := by
      rw [Bool.or_eq_true] at here
      rcases here with here | here
      · exact State.more_of_isAtWord tandem.ends here
      · exact State.more_of_isAtWord tandem.ends here
    refine (switchCase_agrees block_agrees tandem more inside).andThen fun _ _ v v' tandem => ?_
    exact Agrees.pure ⟨by simpa using before.1, by simpa using tandem⟩
  refine Agrees.ite ?_ (fun _ => Agrees.pure before) fun here => ?_
  · rw [alike.isAtEnd_eq, alike.isAtWord_eq]
  rw [Bool.or_eq_true, not_or] at here
  have more := State.more_of_not_isAtEnd tandem.ends here.1
  refine Agrees.ite (by rw [alike.isAtSeparator_eq]) (fun _ => ?_) fun _ => ?_
  · refine (advance_agrees tandem more).lift.andThen fun _ _ v v' tandem => ?_
    exact Agrees.pure ⟨by simpa using before.1, by simpa using tandem⟩
  · refine (errorNode_agrees tandem more _).lift.andThen fun _ _ v v' tandem => ?_
    exact Agrees.pure ⟨by simpa using before.1, by simpa using tandem⟩

private theorem switchStatement_agrees (tandem : Tandem init init' held s held' s')
    (more : s.rest ≠ []) (inside : Bool) :
    Agrees (switchStatement block inside) (switchStatement block inside) s s'
      (AddsElement init init' held held') := by
  unfold switchStatement
  refine (advance_agrees tandem more).lift.andThen fun keyword keyword' t t' tandem => ?_
  refine (expression_agrees tandem inside).lift.andThen fun subject subject' t t' tandem => ?_
  refine (eatSeparator_agrees tandem).lift.andThen fun separator separator' t t' tandem => ?_
  have loop : Agrees (repeatParse (switchStep block inside) [])
      (repeatParse (switchStep block inside) []) t t' (AddsElements init init'
        (held ++ [some (.leaf keyword)] ++ [some subject] ++ [separator.map .leaf])
        (held' ++ [some (.leaf keyword')] ++ [some subject'] ++ [separator'.map .leaf])) :=
    Agrees.repeated tandem.alike ⟨rfl, by simpa using tandem⟩ fun _ _ _ _ before =>
      switchStep_agrees block_agrees before inside
  refine loop.andThen fun cases cases' t t' after => ?_
  refine (expectWord_agrees (after.2.list after.1) "end").lift.andThen fun _ _ t t' tandem => ?_
  exact Agrees.pure (Tandem.join _ (by decide) rfl (by simpa using tandem))

private theorem catchClause_agrees (tandem : Tandem init init' held s held' s') :
    Agrees (catchClause block) (catchClause block) s s' (AddsSlot init init' held held') := by
  unfold catchClause
  refine foundThen_agrees (eatWord_agrees tandem "catch").lift (fun _ _ => absent_agrees)
    fun keyword keyword' t t' tandem => ?_
  have alike := tandem.alike
  refine (eatIf_agrees tandem ?_ fun here => ?_).lift.andThen fun name name' t t' found => ?_
  · rw [alike.previousEndsLine_eq, alike.isAtTerminator_eq, alike.isAt_eq]
  · rw [Bool.and_eq_true] at here
    exact State.more_of_isAt tandem.ends here.2 (by decide)
  have tandem := Tandem.slot found
  refine (eatSeparator_agrees tandem).lift.andThen fun _ _ t t' tandem => ?_
  refine (block_agrees _ _ t t' tandem).andThen fun _ _ t t' tandem => ?_
  exact Agrees.pure (Tandem.join _ (by decide) rfl (by simpa using tandem))

private theorem tryStatement_agrees (tandem : Tandem init init' held s held' s')
    (more : s.rest ≠ []) :
    Agrees (tryStatement block) (tryStatement block) s s' (AddsElement init init' held held') := by
  unfold tryStatement
  refine (advance_agrees tandem more).lift.andThen fun _ _ t t' tandem => ?_
  refine (eatSeparator_agrees tandem).lift.andThen fun _ _ t t' tandem => ?_
  refine (block_agrees _ _ t t' tandem).andThen fun _ _ t t' tandem => ?_
  refine (catchClause_agrees block_agrees tandem).andThen fun _ _ t t' tandem => ?_
  refine (expectWord_agrees tandem "end").lift.andThen fun _ _ t t' tandem => ?_
  exact Agrees.pure (Tandem.join _ (by decide) rfl (by simpa using tandem))

omit block_agrees in
private theorem expressionStatement_agrees (tandem : Tandem init init' held s held' s')
    (inside : Bool) :
    Agrees (expressionStatement inside) (expressionStatement inside) s s'
      (AddsElement init init' held held') := by
  unfold expressionStatement
  refine (expression_agrees tandem inside).andThen fun _ _ t t' tandem => ?_
  refine (eatSeparator_agrees tandem).andThen fun _ _ t t' tandem => ?_
  exact Agrees.pure (Tandem.join _ (by decide) rfl (by simpa using tandem))

private theorem statement_agrees (tandem : Tandem init init' held s held' s') (more : s.rest ≠ [])
    (inside : Bool) :
    Agrees (statement block inside) (statement block inside) s s'
      (AddsElement init init' held held') := by
  have word := tandem.alike.isAtWord_eq
  unfold statement
  refine Agrees.get (Agrees.ite (by rw [word]) (fun _ => ?_) fun _ => Agrees.ite (by rw [word])
    (fun _ => ?_) fun _ => Agrees.ite (by rw [word]) (fun _ => ?_) fun _ =>
    Agrees.ite (by rw [word]) (fun _ => ?_) fun _ => Agrees.ite (by rw [word]) (fun _ => ?_)
    fun _ => Agrees.ite (by rw [word, word]) (fun _ => ?_) fun _ => Agrees.ite (by rw [word])
    (fun _ => ?_) fun _ => Agrees.ite (by rw [tandem.alike.isAtSeparator_eq]) (fun _ => ?_)
    fun _ => ?_)
  · exact functionDeclaration_agrees block_agrees tandem more (by decide)
  · exact classDeclaration_agrees block_agrees tandem more
  · exact switchStatement_agrees block_agrees tandem more inside
  · exact loopStatement_agrees block_agrees tandem more inside (by decide)
  · exact ifStatement_agrees block_agrees tandem more inside
  · exact loopStatement_agrees block_agrees tandem more inside (by decide)
  · exact tryStatement_agrees block_agrees tandem more
  · refine (advance_agrees tandem more).lift.andThen fun _ _ t t' tandem => ?_
    exact Agrees.pure (Tandem.ofChildren (by decide) rfl tandem)
  · exact (expressionStatement_agrees tandem inside).lift

theorem statementStep_agrees {statements statements' : List Element}
    (before : AddsElements init init' held held' statements statements' s s') (inside : Bool)
    (scope : Scope) :
    Agrees (statementStep block inside scope statements)
      (statementStep block inside scope statements') s s'
      (BothGo (AddsElements init init' held held') statements statements') := by
  have tandem := before.2
  have alike := tandem.alike
  unfold statementStep
  refine Agrees.get (Agrees.ite (by rw [alike.isAtEnd_eq]) (fun _ => Agrees.pure before)
    fun here => ?_)
  have more := State.more_of_not_isAtEnd tandem.ends here
  have error (expected : Kind) :
      Agrees (do return some (statements ++ [← errorNode expected]) : Parse _)
        (do return some (statements' ++ [← errorNode expected])) s s'
        (BothGo (AddsElements init init' held held') statements statements') := by
    refine (errorNode_agrees tandem more expected).lift.andThen fun _ _ t t' tandem => ?_
    exact Agrees.pure ⟨by simpa using before.1, by simpa using tandem⟩
  refine Agrees.ite (by rw [alike.isAtTerminator_eq]) (fun _ => ?_) fun _ =>
    Agrees.ite ?_ (fun _ => error _) fun _ => ?_
  · cases scope with
    | block => exact Agrees.pure before
    | script => exact error _
  · rw [alike.isAtSeparator_eq, alike.isAtAny_eq]
  · refine (progressingParse_agrees alike more
      (statement_agrees block_agrees tandem more inside)).andThen fun _ _ t t' after => ?_
    exact Agrees.pure ⟨by simp [before.1, after.1], by simpa using after.2⟩

end

section

variable {init init' s s' : State} {held held' : Row}

theorem blockWithin_agrees (inside : Bool) (depth : Nat)
    (tandem : Tandem init init' held s held' s') :
    Agrees (blockWithin inside depth) (blockWithin inside depth) s s'
      (AddsElement init init' held held') := by
  induction depth generalizing held held' s s' with
  | zero =>
    exact Agrees.pure (Tandem.list rfl (by simpa using tandem))
  | succ depth ih =>
    have loop : Agrees (repeatParse (statementStep (blockWithin inside depth) inside .block) [])
        (repeatParse (statementStep (blockWithin inside depth) inside .block) []) s s'
        (AddsElements init init' held held') :=
      Agrees.repeated tandem.alike ⟨rfl, by simpa using tandem⟩ fun _ _ _ _ before =>
        statementStep_agrees (fun _ _ _ _ => ih) before inside .block
    exact loop.andThen fun _ _ t t' after => Agrees.pure (after.2.list after.1)

theorem scriptStatements_agrees (inside : Bool) (depth : Nat) (alike : s.Alike s') :
    Agrees (scriptStatements inside depth) (scriptStatements inside depth) s s'
      (AddsElements s s' [] []) :=
  Agrees.repeated alike ⟨rfl, .start alike⟩ fun _ _ _ _ before =>
    statementStep_agrees (fun _ _ _ _ => blockWithin_agrees inside depth) before inside .script

end

end MatrixScript.Grammar
