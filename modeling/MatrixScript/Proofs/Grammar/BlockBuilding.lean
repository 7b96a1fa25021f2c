import MatrixScript.Proofs.Grammar.Building
import MatrixScript.Proofs.Lexer.Tiling
import MatrixScript.Tree

/-!
What the rules for classes and statements build.

With the rule for expressions at hand, every node of a class or a statement follows the layout of
its kind, a block holds nothing but statements, and so a whole script has any heritable condition.
The tokens of a text are not trivia, so the same goes for the tree of any text (`Tree.good_root`).
-/

set_option autoImplicit false

namespace MatrixScript

namespace Grammar

section

variable (good : Element → Prop) [Heritable good] {bound : Nat}

private theorem eatSeparator_yields :
    Yields bound eatSeparator fun found => ∀ token, found = some token → good (.leaf token) :=
  eatIf_yields good _

variable {good} in
private theorem good_statements {elements : List Element}
    (below : ∀ element ∈ elements, good element ∧ element.isA .statement = true) :
    good (.list elements) ∧ Content.statements.accepts (.list elements) = true := by
  constructor
  · exact good_list fun element member => (below element member).1
  · exact Content.accepts_statements fun element member => (below element member).2

/-! Parts of classes that hold no expression. -/

private theorem baseClassList_yields :
    Yields bound baseClassList fun element =>
      good element ∧ element.isA (.exactly .baseClassList) = true := by
  apply (advance_yields good).andThen
  intro less leads
  apply (compoundName_yields good).andThen
  intro first named
  have loop : Yields bound (repeatRead baseClassStep [first]) fun bases =>
      ∀ element ∈ bases, good element := by
    apply Yields.repeated (by simpa using named.1)
    intro bases holds
    apply (eat_yields good .ampersand).andThen
    intro found read
    cases found with
    | none => exact Yields.pure holds
    | some ampersand =>
      apply (compoundName_yields good).andThen
      intro name named
      apply Yields.pure
      exact List.forall_mem_append.mpr ⟨holds, by simp [(read ampersand rfl).1, named.1]⟩
  apply loop.andThen
  intro bases holds
  apply Yields.pure
  constructor
  · exact good_node rfl rfl rfl rfl ⟨.token leads, .needed ⟨good_list holds, rfl⟩, trivial⟩
  · rfl

private theorem members_yields {member : Parse Element} [Forward member]
    (first : Yields bound member good) :
    Yields bound (members member) fun element =>
      good element ∧ element.isA (.exactly .list) = true := by
  have loop : Yields bound (repeatParse (memberStep member) []) fun elements =>
      ∀ element ∈ elements, good element := by
    apply Yields.repeated (by simp)
    intro elements holds
    apply Yields.get
    intro s
    apply Yields.ite
    · exact Yields.pure holds
    · apply first.andThen
      intro added here
      apply Yields.pure
      exact List.forall_mem_append.mpr ⟨holds, by simpa using here⟩
  apply loop.andThen
  intro elements holds
  exact Yields.pure ⟨good_list holds, rfl⟩

private theorem separatorOr_yields {other : Parse Element} (otherwise : Yields bound other good) :
    Yields bound (separatorOr other) good := by
  apply Yields.get
  intro s
  apply Yields.ite
  · apply (advance_yields good).lift.andThen
    intro token holds
    exact Yields.pure holds
  · exact otherwise

private theorem event_yields : Yields bound event good := by
  apply separatorOr_yields
  apply Yields.get
  intro s
  apply Yields.ite
  · apply (advance_yields good).lift.andThen
    intro token holds
    exact Yields.pure holds
  · exact Yields.failing _

private theorem abstractMethodDeclaration_yields : Yields bound abstractMethodDeclaration good := by
  apply (signature_yields good).andThen
  rintro slots ⟨output, name, input, rfl, results, named, parameters⟩
  apply Yields.pure
  exact good_node rfl rfl rfl rfl ⟨.optional results, .needed named, .optional parameters, trivial⟩

section

variable (within_yields : ∀ depth inside,
  Yields depth (expressionWithin depth inside .expression) fun element =>
    good element ∧ element.isA .expression = true)

include within_yields

omit [Heritable good] in
private theorem expression_yields (inside : Bool) :
    Yields bound (expression inside) fun element =>
      good element ∧ element.isA .expression = true := by
  constructor
  intro s lexed _
  exact Gives.get ((within_yields _ inside).gives s lexed (Nat.lt_succ_self _))

/-! Attributes and enumerators. -/

private theorem attributeValue_yields :
    Yields bound attributeValue fun found => ∀ element, found = some element →
      good element ∧ element.isA (.exactly .attributeAssignment) = true := by
  apply (eat_yields good .equals).andThen
  intro found holds
  cases found with
  | none => exact Yields.pure (by simp)
  | some equals =>
    apply Yields.map
    apply (expression_yields good within_yields false).andThen
    intro value read
    apply Yields.pure
    rintro element ⟨⟩
    constructor
    · exact good_node rfl rfl rfl rfl ⟨.token (holds equals rfl).1, .needed read, trivial⟩
    · rfl

private theorem classAttribute_yields : Yields bound classAttribute good := by
  apply (eat_yields good .tilde).andThen
  intro negation negates
  apply (expect_yields good .identifier rfl).andThen
  intro name named
  apply (attributeValue_yields good within_yields).andThen
  intro assignment assigned
  apply Yields.pure
  have sign := Fills.optionalToken fun token here => (negates token here).1
  exact good_node rfl rfl rfl rfl ⟨sign, .token named, .optional assigned, trivial⟩

private theorem attributeItem_yields :
    Yields bound attributeItem fun added => ∀ element ∈ added, good element := by
  apply Yields.get
  intro s
  apply Yields.ite
  · apply (advance_yields good).andThen
    intro token holds
    exact Yields.pure (by simpa using holds)
  · apply Yields.ite
    · apply (classAttribute_yields good within_yields).andThen
      intro element holds
      exact Yields.pure (by simpa using holds)
    · apply (errorNode_yields good .closeParenthesis).andThen
      intro element holds
      exact Yields.pure (by simpa using holds.1)

private theorem attributeList_yields :
    YieldsFrom .openParenthesis bound attributeList fun element =>
      good element ∧ element.isA (.exactly .attributeList) = true := by
  apply bracketed_yields good enlists_attributeItem
    fun _ => attributeItem_yields good within_yields
  intro opening attributes closing opens listed closes
  apply Yields.pure
  constructor
  · exact good_node rfl rfl rfl (Element.isClosed_of_isReal rfl rfl closes.2)
      ⟨.token opens, .needed listed, .token closes.1, trivial⟩
  · rfl

private theorem enumerationValue_yields :
    YieldsFrom .openParenthesis bound enumerationValue fun element =>
      good element ∧ element.isA (.exactly .enumerationItemValue) = true := by
  constructor
  intro s lexed here _
  have pair : Kind.openParenthesis.closing? = some .closeParenthesis := rfl
  have list := arguments_yields good (within_yields (s.rest.length + 1)) pair
  refine Gives.get ((list.gives s lexed here (Nat.le_succ _)).andThen fun elements t found => ?_)
  obtain ⟨opening, list, closing, rfl, opens, listed, closes, real⟩ := found
  apply Gives.pure
  constructor
  · exact good_node rfl rfl rfl (Element.isClosed_of_isReal rfl rfl real)
      ⟨.token opens, .needed listed, .token closes, trivial⟩
  · rfl

private theorem enumerationItem_yields : Yields bound enumerationItem good := by
  apply (advance_yields good).andThen
  intro name named
  apply Yields.optionalFrom (fun s here => (Bool.and_eq_true_iff.mp here).1)
    (enumerationValue_yields good within_yields)
  intro value read
  apply Yields.pure
  exact good_node rfl rfl rfl rfl ⟨.token named, .optional read, trivial⟩

private theorem enumerator_yields : Yields bound enumerator good := by
  apply separatorOr_yields
  apply Yields.get
  intro s
  apply Yields.ite
  · exact (enumerationItem_yields good within_yields).lift
  · exact Yields.failing _

private theorem memberBlock_yields {kind : Kind} {content : Content} {items : Parse Element}
    [Forward items] (plain : kind.isOperation = false) (other : (kind != .switchCase) = true)
    (unbracketed : kind.closingSlot? = none)
    (known : kind.layout? = some [.needed .token, .optional (.node (.exactly .attributeList)),
      .needed content, .needed .token])
    (first : Yields bound items fun element => good element ∧ content.accepts element = true) :
    Yields bound (memberBlock kind items) good := by
  apply (advance_yields good).lift.andThen
  intro keyword leads
  apply Yields.optionalFrom (fun s here => (Bool.and_eq_true_iff.mp here).1)
    (attributeList_yields good within_yields).lift
  intro attributes attributed
  apply first.andThen
  intro body read
  apply (expectWord_yields good "end").lift.andThen
  intro closing closes
  apply Yields.pure
  exact good_node plain known (by simp [other]) (Element.isClosed_of_none unbracketed)
    ⟨.token leads, .optional attributed, .needed read, .token closes, trivial⟩

/-! Rules with a block inside. -/

variable {block : Parse Element} [Forward block]
  (block_yields : Yields bound block fun element =>
    good element ∧ Content.statements.accepts element = true)

include block_yields

omit within_yields in
private theorem functionDeclaration_yields (kind : Kind) {slot : Slot}
    (plain : kind.isOperation = false) (other : (kind != .switchCase) = true)
    (unbracketed : kind.closingSlot? = none)
    (known : kind.layout? = some [
      .needed .token, .optional (.node (.exactly .functionOutputDescription)),
      .needed (.node (.exactly .compoundName)),
      .optional (.node (.exactly .functionInputDescription)), .needed .statements, slot])
    (closed : slot = if kind = .methodDefinition then .needed .token else .optional .token) :
    Yields bound (functionDeclaration block kind) fun element =>
      good element ∧ element.isA (.exactly kind) = true := by
  apply (advance_yields good).lift.andThen
  intro keyword leads
  apply (signature_yields good).lift.andThen
  rintro head ⟨output, name, input, rfl, results, named, parameters⟩
  apply block_yields.andThen
  intro body read
  apply Yields.iteThen fun closing => Fills good slot (closing.map .leaf)
  · intro method
    apply Yields.map
    apply (expectWord_yields good "end").lift.mono
    intro closing closes
    show Fills good slot (some (.leaf closing))
    rw [closed, if_pos method]
    exact .token closes
  · intro free
    apply (eatIf_yields good _).lift.mono
    intro closing closes
    rw [closed, if_neg free]
    exact .optionalToken closes
  · intro closing closes
    apply Yields.pure
    constructor
    · exact good_node plain known (by simp [other]) (Element.isClosed_of_none unbracketed)
        ⟨.token leads, .optional results, .needed named, .optional parameters, .needed read, closes,
          trivial⟩
    · simp [Element.isA, Element.isNode, Category.accepts, Element.kind]

omit within_yields in
private theorem method_yields : Yields bound (method block) good := by
  apply separatorOr_yields
  apply Yields.get
  intro s
  apply Yields.ite
  · have definition :=
      functionDeclaration_yields good block_yields .methodDefinition rfl rfl rfl rfl rfl
    exact definition.mono fun element read => read.1
  · apply Yields.ite
    · exact (abstractMethodDeclaration_yields good).lift
    · exact Yields.failing _

private theorem classMember_yields : Yields bound (classMember block) good := by
  have listed (items : Parse Element) [Forward items] (first : Yields bound items good) :=
    members_yields good first
  apply separatorOr_yields
  apply Yields.get
  intro s
  apply Yields.ite
  · exact memberBlock_yields good within_yields rfl rfl rfl rfl block_yields
  · apply Yields.ite
    · exact memberBlock_yields good within_yields rfl rfl rfl rfl
        (listed _ (method_yields good block_yields))
    · apply Yields.ite
      · exact memberBlock_yields good within_yields rfl rfl rfl rfl (listed _ (event_yields good))
      · apply Yields.ite
        · exact memberBlock_yields good within_yields rfl rfl rfl rfl
            (listed _ (enumerator_yields good within_yields))
        · exact Yields.failing _

private theorem classDeclaration_yields :
    Yields bound (classDeclaration block) fun element =>
      good element ∧ element.isA .statement = true := by
  apply (advance_yields good).lift.andThen
  intro keyword leads
  apply Yields.optionalFrom (fun s here => here) (attributeList_yields good within_yields).lift
  intro attributes attributed
  apply (expect_yields good .identifier rfl).lift.andThen
  intro name named
  apply Yields.get
  intro t
  apply (baseClassList_yields good).lift.optional
  intro bases inherited
  apply (members_yields good (classMember_yields good within_yields block_yields)).andThen
  intro body read
  apply (expectWord_yields good "end").lift.andThen
  intro closing closes
  apply Yields.pure
  constructor
  · exact good_node rfl rfl rfl rfl ⟨.token leads, .optional attributed, .token named,
      .optional inherited, .needed read, .token closes, trivial⟩
  · rfl

/-! Statements. -/

/-- The four slots of a clause: word, condition, separator and statements. -/
def IsClause (slots : List (Option Element)) : Prop :=
  AllFill good [.needed .token, .needed (.node .expression), .optional .token,
    .needed .statements] slots

private theorem clause_yields (inside : Bool) :
    Yields bound (clause block inside) (IsClause good) := by
  apply (advance_yields good).lift.andThen
  intro keyword leads
  apply (expression_yields good within_yields inside).lift.andThen
  intro condition asked
  apply (eatSeparator_yields good).lift.andThen
  intro separator separates
  apply block_yields.andThen
  intro body read
  apply Yields.pure
  exact ⟨.token leads, .needed asked, .optionalToken separates, .needed read, trivial⟩

omit within_yields in
private theorem elseClause_yields :
    Yields bound (elseClause block) fun found => ∀ element, found = some element →
      good element ∧ element.isA (.exactly .elseClause) = true := by
  apply (eatIf_yields good _).lift.andThen
  intro found leads
  cases found with
  | none => exact Yields.pure (by simp)
  | some keyword =>
    apply block_yields.andThen
    intro body read
    apply Yields.pure
    rintro element ⟨⟩
    constructor
    · exact good_node rfl rfl rfl rfl ⟨.token (leads keyword rfl), .needed read, trivial⟩
    · rfl

private theorem ifStatement_yields (inside : Bool) :
    Yields bound (ifStatement block inside) fun element =>
      good element ∧ element.isA .statement = true := by
  have head := clause_yields good within_yields block_yields inside
  have loop : Yields bound (repeatParse (elseifStep block inside) []) fun alternatives =>
      ∀ element ∈ alternatives, good element := by
    apply Yields.repeated (by simp)
    intro alternatives holds
    apply Yields.get
    intro s
    apply Yields.ite
    · apply head.andThen
      intro slots fill
      have here : good (.node .elseifClause slots []) := good_node rfl rfl rfl rfl fill
      apply Yields.pure
      exact List.forall_mem_append.mpr ⟨holds, by simpa using here⟩
    · exact Yields.pure holds
  apply head.andThen
  intro slots fill
  apply loop.andThen
  intro alternatives holds
  apply (elseClause_yields good block_yields).andThen
  intro otherwise found
  apply (expectWord_yields good "end").lift.andThen
  intro closing closes
  apply Yields.pure
  constructor
  · exact good_node rfl rfl rfl rfl
      (fill.append ⟨.needed ⟨good_list holds, rfl⟩, .optional found, .token closes, trivial⟩)
  · rfl

private theorem loopStatement_yields {kind : Kind} (plain : kind.isOperation = false)
    (other : (kind != .switchCase) = true) (unbracketed : kind.closingSlot? = none)
    (known : kind.layout? = some [.needed .token, .needed (.node .expression), .optional .token,
      .needed .statements, .needed .token])
    (statement : kind.isStatement = true) (inside : Bool) :
    Yields bound (loopStatement block inside kind) fun element =>
      good element ∧ element.isA .statement = true := by
  apply (clause_yields good within_yields block_yields inside).andThen
  intro slots fill
  apply (expectWord_yields good "end").lift.andThen
  intro closing closes
  apply Yields.pure
  constructor
  · exact good_node plain known (by simp [other]) (Element.isClosed_of_none unbracketed)
      (fill.append ⟨.token closes, trivial⟩)
  · exact statement

private theorem switchCase_yields (inside : Bool) {s : State} (lexed : s.Lexed)
    (short : s.rest.length < bound)
    (here : (s.isAtWord "case" || s.isAtWord "otherwise") = true) :
    Gives (switchCase block inside) s fun element _ => good element := by
  refine Gives.get ?_
  refine ((advance_lexed lexed).lift.and (Forward.moves s)).andThen fun keyword t facts => ?_
  obtain ⟨⟨same, significant, there⟩, moves⟩ := facts
  have shorter := moves.length_le
  refine Yields.gives ?_ t (moves.lexed lexed) (show t.rest.length < bound by omega)
  apply Yields.iteThen fun label : Option Element => (∀ element, label = some element →
    good element ∧ element.isA .expression = true) ∧ label.isSome = s.isAtWord "case"
  · intro labelled
    apply Yields.map
    apply (expression_yields good within_yields inside).lift.mono
    intro label read
    exact ⟨by rintro _ ⟨⟩; exact read, labelled.symm⟩
  · intro free
    apply Yields.pure
    exact ⟨by simp, (Bool.eq_false_iff.mpr free).symm⟩
  intro label found
  apply (eatSeparator_yields good).lift.andThen
  intro separator separates
  apply block_yields.andThen
  intro body read
  apply Yields.pure
  refine good_node rfl rfl ?_ rfl ⟨.token (Heritable.leaf keyword significant there),
    .optional found.1, .optionalToken separates, .needed read, trivial⟩
  have word : keyword.isWord = s.current.token.isWord := by rw [same]
  simp only [State.isAtWord] at here found
  simp only [Element.labelled, word]
  cases label with
  | none => simp_all
  | some label => simp_all

private theorem switchStatement_yields (inside : Bool) :
    Yields bound (switchStatement block inside) fun element =>
      good element ∧ element.isA .statement = true := by
  apply (advance_yields good).lift.andThen
  intro keyword leads
  apply (expression_yields good within_yields inside).lift.andThen
  intro subject asked
  apply (eatSeparator_yields good).lift.andThen
  intro separator separates
  have loop : Yields bound (repeatParse (switchStep block inside) []) fun cases =>
      ∀ element ∈ cases, good element := by
    apply Yields.repeated (by simp)
    intro cases holds
    constructor
    intro s lexed short
    refine Gives.get (Gives.ite (fun here => ?_) fun _ => ?_)
    · have branch := switchCase_yields good within_yields block_yields inside lexed short here
      refine branch.andThen fun element t read => Gives.pure ?_
      exact List.forall_mem_append.mpr ⟨holds, by simpa using read⟩
    refine Gives.ite (fun _ => Gives.pure holds) fun _ => Gives.ite (fun _ => ?_) fun _ => ?_
    · have separator := (advance_yields good).lift.gives s lexed short
      refine separator.andThen fun token t read => Gives.pure ?_
      exact List.forall_mem_append.mpr ⟨holds, by simpa using read⟩
    · have error := (errorNode_yields good .identifier).lift.gives s lexed short
      refine error.andThen fun element t read => Gives.pure ?_
      exact List.forall_mem_append.mpr ⟨holds, by simpa using read.1⟩
  apply loop.andThen
  intro cases holds
  apply (expectWord_yields good "end").lift.andThen
  intro closing closes
  apply Yields.pure
  constructor
  · exact good_node rfl rfl rfl rfl ⟨.token leads, .needed asked, .optionalToken separates,
      .needed ⟨good_list holds, rfl⟩, .token closes, trivial⟩
  · rfl

omit within_yields in
private theorem catchClause_yields :
    Yields bound (catchClause block) fun found => ∀ element, found = some element →
      good element ∧ element.isA (.exactly .catchClause) = true := by
  apply (eatIf_yields good _).lift.andThen
  intro found leads
  cases found with
  | none => exact Yields.pure (by simp)
  | some keyword =>
    apply (eatIf_yields good _).lift.andThen
    intro name named
    apply (eatSeparator_yields good).lift.andThen
    intro separator separates
    apply block_yields.andThen
    intro body read
    apply Yields.pure
    rintro element ⟨⟩
    constructor
    · exact good_node rfl rfl rfl rfl ⟨.token (leads keyword rfl), .optionalToken named,
        .optionalToken separates, .needed read, trivial⟩
    · rfl

omit within_yields in
private theorem tryStatement_yields :
    Yields bound (tryStatement block) fun element =>
      good element ∧ element.isA .statement = true := by
  apply (advance_yields good).lift.andThen
  intro keyword leads
  apply (eatSeparator_yields good).lift.andThen
  intro separator separates
  apply block_yields.andThen
  intro body read
  apply (catchClause_yields good block_yields).andThen
  intro handler found
  apply (expectWord_yields good "end").lift.andThen
  intro closing closes
  apply Yields.pure
  constructor
  · exact good_node rfl rfl rfl rfl ⟨.token leads, .optionalToken separates, .needed read,
      .optional found, .token closes, trivial⟩
  · rfl

omit block_yields in
private theorem expressionStatement_yields (inside : Bool) :
    Yields bound (expressionStatement inside) fun element =>
      good element ∧ element.isA .statement = true := by
  apply (expression_yields good within_yields inside).andThen
  intro body read
  apply (eatSeparator_yields good).andThen
  intro terminator ended
  apply Yields.pure
  constructor
  · exact good_node rfl rfl rfl rfl ⟨.needed read, .optionalToken ended, trivial⟩
  · rfl

private theorem statement_yields (inside : Bool) :
    Yields bound (statement block inside) fun element =>
      good element ∧ element.isA .statement = true := by
  apply Yields.get
  intro s
  refine .ite ?_ (.ite ?_ (.ite ?_ (.ite ?_ (.ite ?_ (.ite ?_ (.ite ?_ (.ite ?_ ?_)))))))
  · have function :=
      functionDeclaration_yields good block_yields .functionDeclaration rfl rfl rfl rfl rfl
    apply function.mono
    intro element read
    exact ⟨read.1, Element.isA_of_exactly read.2 rfl⟩
  · exact classDeclaration_yields good within_yields block_yields
  · exact switchStatement_yields good within_yields block_yields inside
  · exact loopStatement_yields good within_yields block_yields rfl rfl rfl rfl rfl inside
  · exact ifStatement_yields good within_yields block_yields inside
  · exact loopStatement_yields good within_yields block_yields rfl rfl rfl rfl rfl inside
  · exact tryStatement_yields good block_yields
  · apply (advance_yields good).lift.andThen
    intro token holds
    apply Yields.pure
    exact ⟨good_node rfl rfl rfl rfl ⟨.token holds, trivial⟩, rfl⟩
  · exact (expressionStatement_yields good within_yields inside).lift

private theorem statementList_yields (inside : Bool) (scope : Scope) :
    Yields bound (statementList block inside scope) fun element =>
      good element ∧ Content.statements.accepts element = true := by
  have loop : Yields bound (repeatParse (statementStep block inside scope) []) fun statements =>
      ∀ element ∈ statements, good element ∧ element.isA .statement = true := by
    apply Yields.repeated (by simp)
    intro statements holds
    have error (expected : Kind) : Yields bound
        (liftM (errorNode expected) >>= fun element => pure (some (statements ++ [element])) :
          Parse (Option (List Element))) fun further =>
        ∀ element ∈ further.getD statements, good element ∧ element.isA .statement = true := by
      apply (errorNode_yields good expected).lift.andThen
      intro element read
      apply Yields.pure
      exact List.forall_mem_append.mpr ⟨holds, by simpa using read⟩
    apply Yields.get
    intro s
    refine .ite (Yields.pure holds) (.ite ?_ (.ite (error .identifier) ?_))
    · cases scope with
      | block => exact Yields.pure holds
      | script => exact error .eof
    · have more := progressingParse_yields good .identifier
        (statement_yields good within_yields block_yields inside) fun element read => read
      apply more.andThen
      intro added read
      apply Yields.pure
      exact List.forall_mem_append.mpr ⟨holds, read⟩
  apply loop.andThen
  intro statements holds
  exact Yields.pure (good_statements holds)

omit block_yields in
private theorem blockWithin_yields (bound : Nat) (inside : Bool) (depth : Nat) :
    Yields bound (blockWithin inside depth) fun element =>
      good element ∧ Content.statements.accepts element = true := by
  induction depth with
  | zero => exact Yields.pure (good_statements (by simp))
  | succ depth ih => exact statementList_yields good within_yields ih inside .block

omit block_yields in
private theorem script_yields (bound : Nat) (inside : Bool) :
    Yields bound (script inside) good := by
  apply Yields.get
  intro s
  have block := blockWithin_yields good within_yields bound inside (s.rest.length + 1)
  apply (statementList_yields good within_yields block inside .script).andThen
  intro statements listed
  apply (expect_yields good .eof rfl).lift.andThen
  intro closing closes
  apply Yields.pure
  exact good_node rfl rfl rfl rfl ⟨.needed listed, .token closes, trivial⟩

end

end

end Grammar

/-! The tokens of a text are not trivia. -/

namespace Lexeme

private theorem operator_significant (c : Char) (rest : List Char) :
    (operator c rest).1.kind.isSignificant = true := by
  have spelled (kind : Kind) (other : kind.isSignificant = false) :
      kind.fixedText? = none ∧ kind ≠ .badToken := by
    revert other
    cases kind <;> decide
  cases significant : (operator c rest).1.kind.isSignificant with
  | true => rfl
  | false =>
    obtain ⟨unspelled, good⟩ := spelled _ significant
    exact absurd rfl (operator_kind_ne unspelled good c rest)

private theorem read_significant (touchesOperand : Bool) (text : List Char) :
    (read touchesOperand text).1.kind.isSignificant = true := by
  fun_cases read touchesOperand text
  case case7 => exact operator_significant _ _
  all_goals rfl

end Lexeme

private theorem Context.read_significant (context : Context) (text : List Char) :
    (context.read text).token.isSignificant = true := by
  show (Context.readLexeme _ _).1.kind.isSignificant = true
  unfold readLexeme
  split
  · rfl
  · exact Lexeme.read_significant _ _

private theorem Grammar.State.lexed_ofStream {text : List Char} {stream : TokenStream}
    (ok : tokenize text = .ok stream) : (State.ofStream stream).Lexed := by
  constructor
  · intro placed member
    obtain ⟨source, same⟩ := Lexer.tokens_read ok placed (by
      rw [TokenStream.toList]
      exact List.mem_append_left _ member)
    rw [same]
    exact source.context.read_significant source.rest
  · intro placed member
    exact (Lexer.tokens_ok ok).2.2.2 placed (List.mem_append_left _ member)
  · exact .ofStream ok

/-- The tree of a text is the one that its script builds of its tokens. -/
theorem Tree.script_of_parse {text : List Char} {options : Options} {name : Option String}
    {tree : Tree} (parsed : Tree.parse text options name = .ok tree) :
    ∃ stream t, tokenize text = .ok stream ∧
      Grammar.script options.insideBrackets (.ofStream stream) = .ok (tree.root, t) := by
  simp only [Tree.parse_eq, bind, Except.bind] at parsed
  cases lexed : tokenize text with
  | error failure => simp [lexed] at parsed
  | ok stream =>
    rw [lexed] at parsed
    cases read : Grammar.script options.insideBrackets (.ofStream stream) with
    | error failure => simp [read] at parsed
    | ok result =>
      simp only [read, pure, Except.pure, Except.ok.injEq] at parsed
      rw [← parsed]
      exact ⟨stream, result.2, rfl, read⟩

/-- The tree of a text has every heritable condition that expressions have. -/
theorem Tree.good_root (good : Element → Prop) [Heritable good]
    (within_yields : ∀ depth inside,
      Grammar.Yields depth (Grammar.expressionWithin depth inside .expression) fun element =>
        good element ∧ element.isA .expression = true)
    {text : List Char} {options : Options} {name : Option String} {tree : Tree}
    (parsed : Tree.parse text options name = .ok tree) : good tree.root := by
  obtain ⟨stream, t, lexed, read⟩ := script_of_parse parsed
  have builds := Grammar.script_yields good within_yields (stream.tokens.length + 1)
    options.insideBrackets
  exact builds.gives _ (Grammar.State.lexed_ofStream lexed) (Nat.lt_succ_self _) _ _ read

end MatrixScript
