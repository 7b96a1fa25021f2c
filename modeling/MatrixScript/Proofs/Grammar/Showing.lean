import Mathlib.Data.List.Forall2
import MatrixScript.Proofs.Grammar.Members
import MatrixScript.Proofs.Tree.Parts

/-!
What a tree shows of a program.

`Block.ShownBy` says, part by part, that nodes of a tree are the statements of a block, with what is
nested in them. The elements that a program is read into show it, wherever they stand
(`hereditary_shows`).
-/

set_option autoImplicit false

namespace MatrixScript.Grammar

def ShowsName (name : Name) (place : Located) : Prop :=
  place.kind = .identifierNameExpression ∧ place.HasToken "name" name.text

def ShowsNumber (value : Literal) (place : Located) : Prop :=
  place.kind = .numberLiteralExpression ∧ place.HasToken "number" value.numeral.text

def ShowsAssignment (target : Name) (value : Literal) (place : Located) : Prop :=
  place.kind = .assignmentExpression ∧ place.HasNode "lhs" (ShowsName target) ∧
    place.HasNode "rhs" (ShowsNumber value)

def ShowsAssigning (target : Name) (value : Literal) (place : Located) : Prop :=
  place.kind = .expressionStatement ∧
    place.HasNode "expression" (ShowsAssignment target value) ∧
    place.HasToken "terminator" ";".toList

def ShowsElseif (name : Name) (place : Located) : Prop :=
  place.kind = .elseifClause ∧ place.HasNode "condition" (ShowsName name)

def ShowsCase (name : Name) (place : Located) : Prop :=
  place.kind = .switchCase ∧ place.HasToken "keyword" "case".toList ∧
    place.HasNode "label" (ShowsName name)

/-- A function, or a method, with a name and an end, without results and parameters. -/
def ShowsFunction (kind : Kind) (name : Name) (place : Located) : Prop :=
  place.kind = kind ∧ place.part? "output_description" = some (.child none) ∧
    place.HasNode "name" (fun node =>
      node.kind = .compoundName ∧ node.part? "text" = some (.text (some name.text))) ∧
    place.part? "input_description" = some (.child none) ∧
    place.HasToken "end_keyword" "end".toList

def ShowsItem (name : Name) (place : Located) : Prop :=
  place.kind = .enumerationItem ∧ place.HasToken "name" name.text ∧
    place.part? "arguments" = some (.list none [] [])

mutual

def Statement.ShownBy : Statement → Located → Prop
  | .assignment target value, place => ShowsAssigning target value place
  | .ifThen condition body alternatives otherwise, place =>
    place.kind = .ifStatement ∧ place.HasNode "condition" (ShowsName condition) ∧
      place.HasList "body" (fun places => body.ShownBy places) ∧
      place.HasList "elseif_clauses" (fun places =>
        alternatives.ShownBy ShowsElseif (· = []) places) ∧
      otherwise.ShownAsElse place
  | .whileLoop condition body, place =>
    place.kind = .whileLoopStatement ∧ place.HasNode "condition" (ShowsName condition) ∧
      place.HasList "body" (fun places => body.ShownBy places)
  | .forLoop counter bound body, place =>
    place.kind = .forLoopStatement ∧ place.HasToken "keyword" "for".toList ∧
      place.HasNode "loop_expression" (ShowsAssignment counter bound) ∧
      place.HasList "body" (fun places => body.ShownBy places)
  | .switch subject cases otherwise, place =>
    place.kind = .switchStatement ∧ place.HasNode "expression" (ShowsName subject) ∧
      place.HasList "cases" (fun places =>
        cases.ShownBy ShowsCase (fun places => otherwise.ShownAsCases places) places)
  | .tryCatch body handler, place =>
    place.kind = .tryCatchStatement ∧ place.HasList "body" (fun places => body.ShownBy places) ∧
      handler.ShownBy place
  | .function name body, place =>
    ShowsFunction .functionDeclaration name place ∧
      place.HasList "body" (fun places => body.ShownBy places)
  | .classDefinition name members, place =>
    place.kind = .classDeclaration ∧ place.part? "attributes" = some (.child none) ∧
      place.HasToken "name" name.text ∧ place.part? "base_classes" = some (.child none) ∧
      place.HasList "members" (fun places => members.ShownBy places) ∧
      place.HasToken "end_keyword" "end".toList

/-- Nodes are the statements of a block, one by one. -/
def Block.ShownBy : Block → List Located → Prop
  | .nil, places => places = []
  | .cons first rest, places =>
    ∃ place others, places = place :: others ∧ first.ShownBy place ∧ rest.ShownBy others

/-- Nodes are clauses, one by one, with `last` of the nodes after them. -/
def Clauses.ShownBy : Clauses → (Name → Located → Prop) → (List Located → Prop) →
    List Located → Prop
  | .nil, _, last, places => last places
  | .cons name body rest, head, last, places =>
    ∃ place others, places = place :: others ∧ head name place ∧
      place.HasList "body" (fun places => body.ShownBy places) ∧ rest.ShownBy head last others

def Fallback.ShownAsElse : Fallback → Located → Prop
  | .none, place => place.part? "else_clause" = some (.child none)
  | .some body, place =>
    place.HasNode "else_clause" fun clause =>
      clause.kind = .elseClause ∧ clause.HasList "body" (fun places => body.ShownBy places)

def Fallback.ShownAsCases : Fallback → List Located → Prop
  | .none, places => places = []
  | .some body, places =>
    ∃ place, places = [place] ∧ place.kind = .switchCase ∧
      place.HasToken "keyword" "otherwise".toList ∧ place.part? "label" = some (.child none) ∧
      place.HasList "body" (fun places => body.ShownBy places)

def Handler.ShownBy : Handler → Located → Prop
  | .none, place => place.part? "catch_clause" = some (.child none)
  | .catching name body, place =>
    place.HasNode "catch_clause" fun clause =>
      clause.kind = .catchClause ∧
        (match name with
          | none => clause.part? "identifier" = some (.token none)
          | some name => clause.HasToken "identifier" name.text) ∧
        clause.HasList "body" (fun places => body.ShownBy places)

def Member.ShownBy : Member → Located → Prop
  | .properties values, place =>
    place.kind = .propertiesList ∧ place.part? "attributes" = some (.child none) ∧
      place.HasList "properties"
        (List.Forall₂ (fun entry place => ShowsAssigning entry.1 entry.2 place) values)
  | .methods methods, place =>
    place.kind = .methodsList ∧ place.part? "attributes" = some (.child none) ∧
      place.HasList "methods" (fun places =>
        methods.ShownBy (ShowsFunction .methodDefinition) (· = []) places)
  | .events names, place =>
    place.kind = .eventsList ∧ place.part? "attributes" = some (.child none) ∧
      place.HasTokens "events" (names.map Name.text)
  | .enumeration names, place =>
    place.kind = .enumerationList ∧ place.part? "attributes" = some (.child none) ∧
      place.HasList "items" (List.Forall₂ ShowsItem names)

def Members.ShownBy : Members → List Located → Prop
  | .nil, places => places = []
  | .cons first rest, places =>
    ∃ place others, places = place :: others ∧ first.ShownBy place ∧ rest.ShownBy others

end

def Block.ShownIn (program : Block) (tree : Tree) : Prop :=
  (Located.root tree.root).kind = .file ∧
    (Located.root tree.root).HasList "statements" (fun places => program.ShownBy places)

/-! What each construct is read into shows it. -/

private theorem text?_token {written : Written} (visible : written.lexeme.text ≠ []) :
    (Element.leaf written.token).text? = some written.lexeme.text := by
  apply Element.text?_leaf written.token_trimmed?
  rw [Written.token_leadingWidth, Written.token_width]
  obtain ⟨c, rest, spelled⟩ := List.exists_cons_of_ne_nil visible
  rw [spelled, Text.byteSize_cons]
  have := c.utf8Size_pos
  omega

private theorem Keyword.text_ne_nil (keyword : Keyword) : keyword.text.toList ≠ [] := by
  have words : ∀ word ∈ Word.reserved, word.toList ≠ [] := by decide
  exact words keyword.text keyword.isReserved

section

variable {place : Located}

private theorem name_shown (name : Name) {gap : Gap}
    (same : place.element = (Formula.identifier name).element gap) : ShowsName name place := by
  obtain ⟨element, offset, trail⟩ := place
  subst same
  exact ⟨rfl, Located.hasToken_of_slot rfl rfl (text?_token name.text_ne_nil)⟩

private theorem number_shown (value : Literal) {gap : Gap}
    (same : place.element = (Formula.number value).element gap) : ShowsNumber value place := by
  obtain ⟨element, offset, trail⟩ := place
  subst same
  exact ⟨rfl, Located.hasToken_of_slot rfl rfl (text?_token value.text_ne_nil)⟩

private theorem assignment_shown (target : Name) (value : Literal) {gap : Gap}
    (same : place.element = (assignmentFormula target value).element gap) :
    ShowsAssignment target value place := by
  obtain ⟨element, offset, trail⟩ := place
  subst same
  exact ⟨rfl, Located.hasNode_of_slot rfl rfl rfl fun _ => name_shown target,
    Located.hasNode_of_slot rfl rfl rfl fun _ => number_shown value⟩

private theorem keyword_shown (keyword : Keyword) {gap : Gap} {name : String} {index : Nat}
    (known : place.kind.fields.lookup name = some (.token index))
    (filled : place.element.slot? index = some (.leaf (keyword.token gap))) :
    place.HasToken name keyword.text.toList :=
  Located.hasToken_of_slot known filled (text?_token keyword.text_ne_nil)

private theorem assigning_shown (target : Name) (value : Literal)
    (same : place.element = assignmentElement target value) :
    ShowsAssigning target value place := by
  obtain ⟨element, offset, trail⟩ := place
  subst same
  have semicolon : (Element.leaf (Written.token ⟨.fixed .semicolon, .lineFeed⟩)).text? =
      some ";".toList := text?_token (by decide)
  exact ⟨rfl, Located.hasNode_of_slot rfl rfl rfl fun _ => assignment_shown target value,
    Located.hasToken_of_slot rfl rfl semicolon⟩

end

def Block.Shows (block : Block) : Prop :=
  ∀ places : List Located, places.map (·.element) = block.elements → block.ShownBy places

def Statement.Shows (one : Statement) : Prop :=
  ∀ {place : Located}, place.element = one.element → one.ShownBy place

def Member.Shows (member : Member) : Prop :=
  ∀ {place : Located}, place.element = member.element → member.ShownBy place

private theorem Block.isA_elements (block : Block) :
    ∀ element ∈ block.elements, element.isA .statement = true := by
  cases block with
  | nil => simp [Block.elements]
  | cons first rest =>
    simp only [Block.elements, List.forall_mem_cons]
    exact ⟨by cases first <;> rfl, rest.isA_elements⟩

private theorem Clauses.isA_elements (kind : Kind) (keyword : Keyword) (clauses : Clauses) :
    ∀ element ∈ clauses.elements kind keyword, element.isA (.exactly kind) = true := by
  cases clauses with
  | nil => simp [Clauses.elements]
  | cons name body rest =>
    simp only [Clauses.elements, List.forall_mem_cons]
    exact ⟨beq_self_eq_true kind, rest.isA_elements kind keyword⟩

private theorem Clauses.isA_methodElements (methods : Clauses) :
    ∀ element ∈ methods.methodElements, element.isA .method = true := by
  cases methods with
  | nil => simp [Clauses.methodElements]
  | cons name body rest =>
    simp only [Clauses.methodElements, List.forall_mem_cons]
    exact ⟨rfl, rest.isA_methodElements⟩

private theorem Members.isA_elements (members : Members) :
    ∀ element ∈ members.elements, element.isA .classMember = true := by
  cases members with
  | nil => simp [Members.elements]
  | cons first rest =>
    simp only [Members.elements, List.forall_mem_cons]
    exact ⟨by cases first <;> rfl, rest.isA_elements⟩

section

variable {place : Located}

/-- The statements under a word. -/
theorem Block.Shows.hasList {body : Block} (shows : body.Shows) {name : String} {index : Nat}
    (known : place.kind.fields.lookup name = some (.list index .statement))
    (filled : place.element.slot? index = some (.list body.elements)) :
    place.HasList name (fun places => body.ShownBy places) :=
  Located.hasList_of_slot known filled body.isA_elements shows

private theorem Clauses.shown {kind : Kind} {keyword : Keyword} {head : Name → Located → Prop}
    {last : List Located → Prop} {after : List Element}
    (field : kind.fields.lookup "body" = some (.list 3 .statement))
    (heads : ∀ {name : Name} {body : List Element} {place : Located},
      place.element = .node kind (clauseSlots keyword (.named name) body) [] → head name place)
    (ends : ∀ places : List Located, places.map (·.element) = after → last places) :
    (clauses : Clauses) → clauses.All Block.Shows → (places : List Located) →
    places.map (·.element) = clauses.elements kind keyword ++ after →
    clauses.ShownBy head last places
  | .nil, _, places, same => ends places same
  | .cons name body rest, all, places, same => by
    obtain ⟨place, others, rfl, here, later⟩ := List.map_eq_cons_iff.mp same
    refine ⟨place, others, rfl, heads here, ?_, rest.shown field heads ends all.2 others later⟩
    obtain ⟨element, offset, trail⟩ := place
    subst here
    exact all.1.hasList field rfl

private theorem ifThen_shown (condition : Name) {body : Block} {alternatives : Clauses}
    {otherwise : Fallback} (shows : body.Shows) (further : alternatives.All Block.Shows)
    (last : otherwise.All Block.Shows) :
    (Statement.ifThen condition body alternatives otherwise).Shows := by
  rintro ⟨element, offset, trail⟩ same
  subst same
  refine ⟨rfl, Located.hasNode_of_slot rfl rfl rfl fun _ => name_shown condition,
    shows.hasList rfl rfl, ?_, ?_⟩
  · refine Located.hasList_of_slot rfl rfl (alternatives.isA_elements _ _) fun places same => ?_
    refine alternatives.shown rfl ?_ ?_ further places (by rw [same, List.append_nil])
    · intro name body place same
      obtain ⟨element, offset, trail⟩ := place
      subst same
      exact ⟨rfl, Located.hasNode_of_slot rfl rfl rfl fun _ => name_shown name⟩
    · intro places same
      exact List.map_eq_nil_iff.mp same
  · cases otherwise with
    | none => exact Located.part?_of_empty rfl rfl
    | some body =>
      refine Located.hasNode_of_slot rfl rfl rfl fun clause same => ?_
      obtain ⟨element, offset, trail⟩ := clause
      subst same
      exact ⟨rfl, Block.Shows.hasList last rfl rfl⟩

private theorem whileLoop_shown (condition : Name) {body : Block} (shows : body.Shows) :
    (Statement.whileLoop condition body).Shows := by
  rintro ⟨element, offset, trail⟩ same
  subst same
  exact ⟨rfl, Located.hasNode_of_slot rfl rfl rfl fun _ => name_shown condition,
    shows.hasList rfl rfl⟩

private theorem forLoop_shown (counter : Name) (bound : Literal) {body : Block}
    (shows : body.Shows) :
    (Statement.forLoop counter bound body).Shows := by
  rintro ⟨element, offset, trail⟩ same
  subst same
  exact ⟨rfl, keyword_shown .forWord rfl rfl,
    Located.hasNode_of_slot rfl rfl rfl fun _ => assignment_shown counter bound,
    shows.hasList rfl rfl⟩

private theorem switch_shown (subject : Name) {cases : Clauses} {otherwise : Fallback}
    (shows : cases.All Block.Shows) (last : otherwise.All Block.Shows) :
    (Statement.switch subject cases otherwise).Shows := by
  rintro ⟨element, offset, trail⟩ same
  subst same
  refine ⟨rfl, Located.hasNode_of_slot rfl rfl rfl fun _ => name_shown subject, ?_⟩
  have isA : ∀ element ∈ cases.elements .switchCase .caseWord ++ otherwise.caseElements,
      element.isA (.exactly .switchCase) = true := by
    rw [List.forall_mem_append]
    refine ⟨cases.isA_elements _ _, ?_⟩
    cases otherwise with
    | none => simp [Fallback.caseElements]
    | some body =>
      rw [Fallback.caseElements, List.forall_mem_singleton]
      rfl
  refine Located.hasList_of_slot rfl rfl isA fun places same => ?_
  refine cases.shown rfl ?_ ?_ shows places same
  · intro name body place same
    obtain ⟨element, offset, trail⟩ := place
    subst same
    exact ⟨rfl, keyword_shown .caseWord rfl rfl,
      Located.hasNode_of_slot rfl rfl rfl fun _ => name_shown name⟩
  · intro places same
    cases otherwise with
    | none => exact List.map_eq_nil_iff.mp same
    | some body =>
      obtain ⟨place, rfl, here⟩ := List.map_eq_singleton_iff.mp same
      obtain ⟨element, offset, trail⟩ := place
      subst here
      exact ⟨_, rfl, rfl, keyword_shown .otherwiseWord rfl rfl, Located.part?_of_empty rfl rfl,
        Block.Shows.hasList last rfl rfl⟩

private theorem tryCatch_shown {body : Block} {handler : Handler} (shows : body.Shows)
    (handles : handler.All Block.Shows) :
    (Statement.tryCatch body handler).Shows := by
  rintro ⟨element, offset, trail⟩ same
  subst same
  refine ⟨rfl, shows.hasList rfl rfl, ?_⟩
  cases handler with
  | none => exact Located.part?_of_empty rfl rfl
  | catching name body =>
    cases name with
    | none =>
      refine Located.hasNode_of_slot rfl rfl rfl fun clause same => ?_
      obtain ⟨element, offset, trail⟩ := clause
      subst same
      exact ⟨rfl, Located.part?_of_noToken rfl rfl, Block.Shows.hasList handles rfl rfl⟩
    | some name =>
      refine Located.hasNode_of_slot rfl rfl rfl fun clause same => ?_
      obtain ⟨element, offset, trail⟩ := clause
      subst same
      exact ⟨rfl, Located.hasToken_of_slot rfl rfl (text?_token name.text_ne_nil),
        Block.Shows.hasList handles rfl rfl⟩

private theorem function_head_shown {kind : Kind} {name : Name} {body : List Element}
    (isFunction : kind = .functionDeclaration ∨ kind = .methodDefinition)
    (same : place.element = functionElement kind name body) : ShowsFunction kind name place := by
  have named (node : Located)
      (same : node.element = .ofChildren .compoundName [.leaf (nameToken name)]) :
      node.kind = .compoundName ∧ node.part? "text" = some (.text (some name.text)) := by
    obtain ⟨element, offset, trail⟩ := node
    subst same
    refine ⟨rfl, ?_⟩
    have known : Kind.compoundName.fields.lookup "text" = some .ownText := rfl
    have only : (Located.tokens ⟨.ofChildren .compoundName [.leaf (nameToken name)], offset,
        trail⟩).filterMap (·.element.token?) = [nameToken name] := rfl
    have spelled : (nameToken name).trimmed? = some name.text := Written.token_trimmed? _
    rw [Located.part?_eq known, Field.read, Located.joinedText?, only]
    simp [spelled]
  obtain ⟨element, offset, trail⟩ := place
  subst same
  rcases isFunction with rfl | rfl
  · exact ⟨rfl, Located.part?_of_empty rfl rfl, Located.hasNode_of_slot rfl rfl rfl named,
      Located.part?_of_empty rfl rfl, keyword_shown .endWord rfl rfl⟩
  · exact ⟨rfl, Located.part?_of_empty rfl rfl, Located.hasNode_of_slot rfl rfl rfl named,
      Located.part?_of_empty rfl rfl, keyword_shown .endWord rfl rfl⟩

private theorem function_shown (name : Name) {body : Block} (shows : body.Shows) :
    (Statement.function name body).Shows := by
  rintro ⟨element, offset, trail⟩ same
  subst same
  exact ⟨function_head_shown (Or.inl rfl) rfl, shows.hasList rfl rfl⟩

private theorem Clauses.methods_shown : (methods : Clauses) → methods.All Block.Shows →
    (places : List Located) → places.map (·.element) = methods.methodElements →
    methods.ShownBy (ShowsFunction .methodDefinition) (· = []) places
  | .nil, _, places, same => List.map_eq_nil_iff.mp same
  | .cons name body rest, all, places, same => by
    obtain ⟨place, others, rfl, here, later⟩ := List.map_eq_cons_iff.mp same
    refine ⟨place, others, rfl, function_head_shown (Or.inr rfl) here, ?_,
      rest.methods_shown all.2 others later⟩
    obtain ⟨element, offset, trail⟩ := place
    subst here
    exact all.1.hasList rfl rfl

private theorem forall₂_of_elements {ι : Type} {shows : ι → Located → Prop} {element : ι → Element}
    (each : ∀ item (place : Located), place.element = element item → shows item place)
    {items : List ι} {places : List Located}
    (same : places.map (·.element) = items.map element) : List.Forall₂ shows items places := by
  induction items generalizing places with
  | nil =>
    rw [List.map_nil, List.map_eq_nil_iff] at same
    rw [same]
    exact .nil
  | cons item items ih =>
    obtain ⟨place, others, rfl, here, later⟩ := List.map_eq_cons_iff.mp same
    exact .cons (each item place here) (ih later)

private theorem properties_shown (values : List (Name × Literal)) :
    (Member.properties values).Shows := by
  rintro ⟨element, offset, trail⟩ same
  subst same
  refine ⟨rfl, Located.part?_of_empty rfl rfl, Located.hasList_of_slot rfl rfl ?_ ?_⟩
  · simp only [List.forall_mem_map]
    exact fun _ _ => rfl
  · intro places same
    exact forall₂_of_elements (fun entry _ => assigning_shown entry.1 entry.2) same

private theorem methods_shown {methods : Clauses} (shows : methods.All Block.Shows) :
    (Member.methods methods).Shows := by
  rintro ⟨element, offset, trail⟩ same
  subst same
  exact ⟨rfl, Located.part?_of_empty rfl rfl,
    Located.hasList_of_slot rfl rfl methods.isA_methodElements (methods.methods_shown shows)⟩

private theorem events_shown (names : List Name) :
    (Member.events names).Shows := by
  rintro ⟨element, offset, trail⟩ same
  subst same
  refine ⟨rfl, Located.part?_of_empty rfl rfl, ?_⟩
  have filled : (Member.events names).element.slot? 2 =
      some (.list ((names.map nameToken).map .leaf)) := by
    rw [List.map_map]
    rfl
  refine Located.hasTokens_of_slot rfl filled ?_ ?_
  · simp only [List.forall_mem_map]
    exact fun _ _ => rfl
  · rw [List.map_map, List.map_map]
    exact List.map_congr_left fun name _ => text?_token name.text_ne_nil

private theorem enumeration_shown (names : List Name) :
    (Member.enumeration names).Shows := by
  rintro ⟨element, offset, trail⟩ same
  subst same
  refine ⟨rfl, Located.part?_of_empty rfl rfl, Located.hasList_of_slot rfl rfl ?_ ?_⟩
  · simp only [List.forall_mem_map]
    exact fun _ _ => rfl
  · intro places same
    refine forall₂_of_elements (fun name place same => ?_) same
    obtain ⟨element, offset, trail⟩ := place
    subst same
    refine ⟨rfl, Located.hasToken_of_slot rfl rfl (text?_token name.text_ne_nil), ?_⟩
    have known : Kind.enumerationItem.fields.lookup "arguments" =
        some (.within 1 .enumerationItemValue (.list 1 .expression)) := rfl
    rw [Located.part?_eq known]
    rfl

end

private theorem Statement.Shows.cons {first : Statement} {rest : Block} (shows : first.Shows)
    (others : rest.Shows) : (Block.cons first rest).Shows := by
  intro places same
  obtain ⟨place, later, rfl, here, after⟩ := List.map_eq_cons_iff.mp same
  exact ⟨place, later, rfl, shows here, others later after⟩

private theorem Members.shown : (members : Members) → members.All Member.Shows →
    (places : List Located) → places.map (·.element) = members.elements → members.ShownBy places
  | .nil, _, places, same => List.map_eq_nil_iff.mp same
  | .cons first rest, shows, places, same => by
    obtain ⟨place, others, rfl, here, later⟩ := List.map_eq_cons_iff.mp same
    exact ⟨place, others, rfl, shows.1 here, rest.shown shows.2 others later⟩

private theorem classDefinition_shown (name : Name) {members : Members}
    (shows : members.All Member.Shows) : (Statement.classDefinition name members).Shows := by
  rintro ⟨element, offset, trail⟩ same
  subst same
  exact ⟨rfl, Located.part?_of_empty rfl rfl,
    Located.hasToken_of_slot rfl rfl (text?_token name.text_ne_nil),
    Located.part?_of_empty rfl rfl,
    Located.hasList_of_slot rfl rfl members.isA_elements (members.shown shows),
    keyword_shown .endWord rfl rfl⟩

theorem hereditary_shows : Hereditary Statement.Shows Block.Shows Member.Shows where
  assignment target value := assigning_shown target value
  ifThen := ifThen_shown
  whileLoop := whileLoop_shown
  forLoop := forLoop_shown
  switch := switch_shown
  tryCatch := tryCatch_shown
  function := function_shown
  classDefinition := classDefinition_shown
  nil := fun _ same => List.map_eq_nil_iff.mp same
  cons := Statement.Shows.cons
  properties := properties_shown
  methods := methods_shown
  events := events_shown
  enumeration := enumeration_shown

end MatrixScript.Grammar
