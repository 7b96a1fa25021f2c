import MatrixScript.Tree.View

/-!
What the slots of each kind of node hold.

`Kind.layout?` is the one table of it: the number of slots, which of them can be empty, and what
stands in the others. The parts of a node by name (`Kind.fields`) read slots by number; that they
agree with the table is checked kind by kind in `Kind.fields_match`.
-/

set_option autoImplicit false

namespace MatrixScript

def Kind.isSignificant (kind : Kind) : Bool := kind.isToken && !kind.isTrivia

def Token.isSignificant (token : Token) : Bool := token.kind.isSignificant

def Element.isA (element : Element) (category : Category) : Bool :=
  element.isNode && category.accepts element.kind

theorem Element.isA_of_exactly {element : Element} {kind : Kind} {category : Category}
    (exactly : element.isA (.exactly kind) = true) (accepts : category.accepts kind = true) :
    element.isA category = true := by
  simp only [isA, Category.accepts, Bool.and_eq_true, beq_iff_eq] at exactly ⊢
  rw [exactly.2]
  exact ⟨exactly.1, accepts⟩

/-- What a slot can hold. -/
inductive Content where
  | token
  | node (category : Category)
  | list
  /-- A list of nothing but statements. -/
  | statements
  /-- A list of nothing but the bare words of a command. -/
  | words
  deriving DecidableEq, Repr

namespace Content

def accepts : Content → Element → Bool
  | .token, element => !element.isNode
  | .node category, element => element.isA category
  | .list, element => element.isA (.exactly .list)
  | .statements, element =>
    element.isA (.exactly .list) && element.children.all (·.isA .statement)
  | .words, element =>
    element.isA (.exactly .list) &&
      element.children.all fun word => !word.isNode && word.kind == .unquotedStringLiteral

@[simp]
theorem accepts_token (token : Token) : Content.token.accepts (.leaf token) = true := rfl

@[simp]
theorem accepts_node (category : Category) (element : Element) :
    (Content.node category).accepts element = element.isA category := rfl

@[simp]
theorem accepts_list (element : Element) :
    Content.list.accepts element = element.isA (.exactly .list) := rfl

theorem accepts_statements {elements : List Element}
    (statements : ∀ element ∈ elements, element.isA .statement = true) :
    Content.statements.accepts (.list elements) = true := by
  have every : (Element.list elements).children = elements := by
    simp [Element.children, Element.list, Element.ofChildren, Element.slots]
  rw [accepts, every, Bool.and_eq_true, List.all_eq_true]
  exact ⟨rfl, statements⟩

theorem accepts_words {words : List Token}
    (unquoted : ∀ word ∈ words, word.kind = .unquotedStringLiteral) :
    Content.words.accepts (.list (words.map .leaf)) = true := by
  have every : (Element.list (words.map .leaf)).children = words.map .leaf := by
    simp [Element.children, Element.list, Element.ofChildren, Element.slots]
  rw [accepts, every, Bool.and_eq_true, List.all_eq_true]
  refine ⟨rfl, ?_⟩
  intro element member
  obtain ⟨word, found, rfl⟩ := List.mem_map.mp member
  simp [Element.isNode, Element.kind, unquoted word found]

end Content

/-- A slot, which is always filled or can be empty. -/
inductive Slot where
  | needed (content : Content)
  | optional (content : Content)
  deriving DecidableEq, Repr

namespace Slot

def content : Slot → Content
  | .needed content | .optional content => content

def isNeeded : Slot → Bool
  | .needed _ => true
  | .optional _ => false

def holds (slot : Slot) : Option Element → Bool
  | some element => slot.content.accepts element
  | none => !slot.isNeeded

@[simp]
theorem holds_needed (content : Content) (element : Element) :
    (needed content).holds (some element) = content.accepts element := rfl

theorem holds_optional {content : Content} {slot : Option Element}
    (accepts : ∀ element, slot = some element → content.accepts element = true) :
    (optional content).holds slot = true := by
  cases slot with
  | none => rfl
  | some element => exact accepts element rfl

@[simp]
theorem holds_optional_leaf (token : Option Token) :
    (optional .token).holds (token.map .leaf) = true := by
  cases token <;> rfl

def allHold : List Slot → List (Option Element) → Bool
  | [], [] => true
  | slot :: layout, filled :: slots => slot.holds filled && allHold layout slots
  | _, _ => false

@[simp]
theorem allHold_nil : allHold [] [] = true := rfl

@[simp]
theorem allHold_cons (slot : Slot) (layout : List Slot) (filled : Option Element)
    (slots : List (Option Element)) :
    allHold (slot :: layout) (filled :: slots) = (slot.holds filled && allHold layout slots) :=
  rfl

theorem length_of_allHold {layout : List Slot} {slots : List (Option Element)}
    (holds : allHold layout slots = true) : slots.length = layout.length := by
  fun_induction allHold layout slots with
  | case1 => rfl
  | case2 slot layout filled slots ih =>
    rw [Bool.and_eq_true] at holds
    simp [ih holds.2]
  | case3 => simp at holds

theorem holds_of_allHold {layout : List Slot} {slots : List (Option Element)}
    (holds : allHold layout slots = true) {index : Nat} {slot : Slot}
    (here : layout[index]? = some slot) : slot.holds (slots[index]?).join = true := by
  fun_induction allHold layout slots generalizing index with
  | case1 => simp at here
  | case2 first layout filled slots ih =>
    rw [Bool.and_eq_true] at holds
    cases index with
    | zero =>
      rw [List.getElem?_cons_zero, Option.some.injEq] at here
      rw [← here]
      exact holds.1
    | succ index => exact ih holds.2 here
  | case3 => simp at holds

end Slot

namespace Kind

/-- The slots of each kind of node. Lists and dotted names have any number, and tokens none. -/
def layout? : Kind → Option (List Slot)
  | .file => some [.needed .statements, .needed .token]
  | .error => some [.needed .token]
  | .expressionStatement => some [.needed (.node .expression), .optional .token]
  | .emptyStatement => some [.needed .token]
  | .functionDeclaration => some [
      .needed .token, .optional (.node (.exactly .functionOutputDescription)),
      .needed (.node (.exactly .compoundName)),
      .optional (.node (.exactly .functionInputDescription)), .needed .statements,
      .optional .token]
  | .methodDefinition => some [
      .needed .token, .optional (.node (.exactly .functionOutputDescription)),
      .needed (.node (.exactly .compoundName)),
      .optional (.node (.exactly .functionInputDescription)), .needed .statements, .needed .token]
  | .abstractMethodDeclaration => some [
      .optional (.node (.exactly .functionOutputDescription)),
      .needed (.node (.exactly .compoundName)),
      .optional (.node (.exactly .functionInputDescription))]
  | .functionOutputDescription => some [
      .optional .token, .needed .list, .optional .token, .needed .token]
  | .functionInputDescription => some [.needed .token, .needed .list, .needed .token]
  | .classDeclaration => some [
      .needed .token, .optional (.node (.exactly .attributeList)), .needed .token,
      .optional (.node (.exactly .baseClassList)), .needed .list, .needed .token]
  | .attributeList => some [.needed .token, .needed .list, .needed .token]
  | .attribute => some [
      .optional .token, .needed .token, .optional (.node (.exactly .attributeAssignment))]
  | .attributeAssignment => some [.needed .token, .needed (.node .expression)]
  | .baseClassList => some [.needed .token, .needed .list]
  | .propertiesList => some [
      .needed .token, .optional (.node (.exactly .attributeList)), .needed .statements,
      .needed .token]
  | .methodsList | .eventsList | .enumerationList => some [
      .needed .token, .optional (.node (.exactly .attributeList)), .needed .list, .needed .token]
  | .enumerationItem => some [
      .needed .token, .optional (.node (.exactly .enumerationItemValue))]
  | .enumerationItemValue => some [.needed .token, .needed .list, .needed .token]
  | .switchStatement => some [
      .needed .token, .needed (.node .expression), .optional .token, .needed .list, .needed .token]
  | .switchCase => some [
      .needed .token, .optional (.node .expression), .optional .token, .needed .statements]
  | .whileLoopStatement | .forLoopStatement => some [
      .needed .token, .needed (.node .expression), .optional .token, .needed .statements,
      .needed .token]
  | .ifStatement => some [
      .needed .token, .needed (.node .expression), .optional .token, .needed .statements,
      .needed .list, .optional (.node (.exactly .elseClause)), .needed .token]
  | .elseifClause => some [
      .needed .token, .needed (.node .expression), .optional .token, .needed .statements]
  | .elseClause => some [.needed .token, .needed .statements]
  | .tryCatchStatement => some [
      .needed .token, .optional .token, .needed .statements,
      .optional (.node (.exactly .catchClause)), .needed .token]
  | .catchClause => some [
      .needed .token, .optional .token, .optional .token, .needed .statements]
  | .assignmentExpression | .binaryOperationExpression => some [
      .needed (.node .expression), .needed .token, .needed (.node .expression)]
  | .unaryPrefixOperationExpression => some [.needed .token, .needed (.node .expression)]
  | .unaryPostfixOperationExpression => some [.needed (.node .expression), .needed .token]
  | .identifierNameExpression | .numberLiteralExpression | .stringLiteralExpression
  | .doubleQuotedStringLiteralExpression | .unquotedStringLiteralExpression =>
    some [.needed .token]
  | .arrayLiteralExpression | .cellArrayLiteralExpression => some [
      .needed .token, .needed .list, .needed .token]
  | .emptyExpression => some []
  | .parenthesizedExpression => some [
      .needed .token, .needed (.node .expression), .needed .token]
  | .cellArrayElementAccessExpression | .functionCallExpression => some [
      .needed (.node .expression), .needed .token, .needed .list, .needed .token]
  | .memberAccessExpression => some [
      .needed (.node .expression), .needed .token, .needed .token]
  | .indirectMemberAccessExpression => some [
      .needed (.node .expression), .needed .token, .needed .token, .needed (.node .expression),
      .needed .token]
  | .commandExpression => some [
      .needed (.node (.exactly .identifierNameExpression)), .needed .words]
  | .baseClassInvokationExpression => some [
      .needed (.node .expression), .needed .token, .needed (.node .expression)]
  | .namedFunctionHandleExpression => some [
      .needed .token, .needed (.node (.exactly .compoundName))]
  | .lambdaExpression => some [
      .needed .token, .needed (.node (.exactly .functionInputDescription)),
      .needed (.node .expression)]
  | _ => none

theorem isNode_of_layout? {kind : Kind} : kind.layout?.isSome = true → kind.isNode = true := by
  cases kind <;> decide

end Kind

namespace Element

/-- A branch of a switch: `case` with a label, or `otherwise` without one. -/
def labelled : List (Option Element) → Bool
  | some (.leaf keyword) :: label :: _ =>
    keyword.isWord "case" && label.isSome || keyword.isWord "otherwise" && label.isNone
  | _ => false

theorem exists_of_labelled {slots : List (Option Element)} (labels : labelled slots = true) :
    ∃ keyword label rest, slots = some (.leaf keyword) :: label :: rest ∧
      (keyword.isWord "case" = true ∧ label.isSome = true ∨
        keyword.isWord "otherwise" = true ∧ label.isSome = false) := by
  fun_cases labelled slots
  case case1 keyword label rest =>
    exact ⟨keyword, label, rest, rfl, by simpa [labelled] using labels⟩
  case case2 => simp_all [labelled]

/-- A node whose slots follow the layout of its kind, or a token that is not trivia. -/
def fits : Element → Bool
  | .leaf token => token.isSignificant
  | .node kind slots _ =>
    kind.isNode && (kind.layout?.all fun layout => Slot.allHold layout slots) &&
      (kind != .switchCase || labelled slots)

theorem fits_of_layout {kind : Kind} {layout : List Slot} {slots : List (Option Element)}
    (known : kind.layout? = some layout)
    (branch : (kind != .switchCase || labelled slots) = true)
    (hold : Slot.allHold layout slots = true) (diagnostics : List Diagnostic) :
    (node kind slots diagnostics).fits = true := by
  have isNode : kind.isNode = true := Kind.isNode_of_layout? (by simp [known])
  simp only [fits, known, isNode, hold, branch, Option.all_some, Bool.and_self]

end Element

end MatrixScript
