import MatrixScript.Proofs.Grammar.Nesting

/-!
Reading functions and classes back, and with them whole programs.

A class is a list of blocks, each of them a list of members up to an `end` of its own. One lemma
about such lists serves all of them, and a method is read as a function is.
-/

set_option autoImplicit false

namespace MatrixScript.Grammar

section

variable {inside : Bool} {depth : Nat} {s t : State}

private theorem outcome_signature {name : Name} (ahead : Ahead s [nameToken name] t)
    (next : t.currentKind = .identifier) :
    outcome signature s =
      .ok ([none, some (.ofChildren .compoundName [.leaf (nameToken name)]), none], t) := by
  obtain ⟨kind, -, used, ended⟩ := Line.name_ahead ahead
  have named : outcome compoundName s =
      .ok (.ofChildren .compoundName [.leaf (nameToken name)], t) := by
    have first : outcome (expect .identifier) s = .ok (nameToken name, t) := by
      rw [outcome_expect_of_true (by simp [State.isAt, kind]), used]
    have stop : outcome (dottedStep (fun tokens dot name => tokens ++ [dot, name])
        [nameToken name]) t = .ok (none, t) := by
      rw [dottedStep, outcome_get_bind, if_neg (by simp [State.isAtDottedName, State.isAt, next])]
      exact outcome_pure _ _
    have only : outcome (repeatRead (dottedStep fun tokens dot name => tokens ++ [dot, name])
        [nameToken name]) t = .ok ([nameToken name], t) := outcome_repeat_stop stop
    rw [compoundName, outcome_bind_of_ok first, outcome_bind_of_ok only]
    rfl
  have noOutput : (s.isAt .openSquareBracket || s.isAt .identifier && s.nextKind == .equals) =
      false := by
    simp [State.isAt, kind, ahead.nextKind, next]
  have noInput : (t.isAt .openParenthesis && !t.previousEndsLine) = false := by simp [ended]
  rw [signature, outcome_get_bind]
  simp only [noOutput, Bool.false_eq_true, if_false]
  rw [outcome_bind_of_ok (outcome_pure none s), outcome_bind_of_ok named, outcome_get_bind]
  simp only [noInput, Bool.false_eq_true, if_false]
  exact outcome_bind_of_ok (outcome_pure none t)

private theorem outcome_functionDeclaration {name : Name} {body : Block} (reads : body.Extends)
    (before : Before s (.headed .functionWord (.named name) ::
      (body.lines ++ [.word .endWord])) t) (within : s.Within (depth + 1)) (kind : Kind) :
    outcome (functionDeclaration (blockWithin inside depth) kind) s =
      .ok (functionElement kind name body.elements, t) := by
  obtain ⟨v, line, rest⟩ := before.cons
  obtain ⟨-, u, used, -, one, head⟩ := Line.headed_ahead line
  obtain ⟨w, lines, final⟩ := rest.append
  obtain ⟨-, stops, expected, eaten⟩ := final.closing
  have signed := outcome_signature head
    (lines.currentKind (State.currentKind_of_isAtTerminator stops))
  have block : outcome (blockWithin inside depth) v = .ok (.list body.elements, w) :=
    reads.closed lines (head.within (one.within_pred (by simp) within)) stops
  rw [functionDeclaration, outcome_lift_bind_of_ok used, outcome_lift_bind_of_ok signed,
    outcome_bind_of_ok block]
  -- A method asks for `end` and a function takes it where it is, which here is the same.
  by_cases method : kind = .methodDefinition
  · have closing : outcome (some <$> (liftM (expectWord "end") : Parse Token)) w =
        .ok (some (Keyword.endWord.token .lineFeed), t) := outcome_map_of_ok expected
    rw [if_pos method, outcome_bind_of_ok closing]
    rfl
  · rw [if_neg method, outcome_lift_bind_of_ok eaten]
    rfl

private theorem function_parses (name : Name) {body : Block} (reads : body.Extends) :
    (Statement.function name body).Parses := by
  intro inside depth s t before within
  have here : s.AtWord "function" := before.headed_atWord
  rw [statement, outcome_get_bind]
  simp only [here.2, String.reduceBEq, if_true]
  exact outcome_functionDeclaration reads before within .functionDeclaration

private theorem outcome_members {ι : Type} {member : Parse Element} [Forward member]
    (uses : ∀ s, s.eof.kind = .eof → s.rest ≠ [] → Uses member s) {lines : ι → List Line}
    {element : ι → Element} {items : List ι}
    (each : ∀ item ∈ items, ∀ {s t : State}, Before s (lines item) t → s.Within depth →
      s.currentKind = .identifier ∧ s.isAtWord "end" = false ∧
        outcome member s = .ok (element item, t))
    (before : Before s (items.flatMap lines) t) (within : s.Within depth)
    (stops : t.AtWord "end") :
    outcome (members member) s = .ok (.list (items.map element), t) := by
  -- By induction on the items that are left, for whatever was read before them.
  suffices loop : ∀ elements, outcome (repeatParse (memberStep member) elements) s =
      .ok (elements ++ items.map element, t) by
    rw [members, outcome_bind_of_ok (loop [])]
    rfl
  induction items generalizing s with
  | nil =>
    intro elements
    cases before
    have stop : outcome (memberStep member elements) t = .ok (none, t) := by
      rw [memberStep, outcome_get_bind, if_pos (by simp [stops.2])]
      exact outcome_pure _ _
    rw [List.map_nil, List.append_nil]
    exact outcome_repeat_stop stop
  | cons item items ih =>
    intro elements
    rw [List.flatMap_cons] at before
    obtain ⟨u, here, later⟩ := before.append
    obtain ⟨identifier, goesOn, read⟩ := each item List.mem_cons_self here within
    have round : outcome (memberStep member elements) s =
        .ok (some (elements ++ [element item]), u) := by
      rw [memberStep, outcome_get_bind,
        if_neg (by simp [State.isAtEnd, State.isAt, identifier, goesOn]), outcome_bind_of_ok read]
      rfl
    have rounds := ih (fun other member => each other (List.mem_cons_of_mem item member)) later
      (Ahead.within here within) (elements ++ [element item])
    rw [List.append_assoc] at rounds
    exact (outcome_repeat_step (Steady.memberStep uses) within.1 round).trans rounds

private theorem outcome_memberBlock {word : Name} {lines : List Line} {items : Parse Element}
    {elements : List Element} (kind : Kind)
    (before : Before s (.bare word :: (lines ++ [.word .endWord])) t)
    (within : s.Within (depth + 1))
    (read : ∀ {u v : State}, Before u lines v → u.Within depth → v.AtWord "end" →
      outcome items u = .ok (.list elements, v)) :
    outcome (memberBlock kind items) s = .ok (memberElement kind word elements, t) := by
  obtain ⟨u, line, rest⟩ := before.cons
  obtain ⟨v, inner, final⟩ := rest.append
  obtain ⟨stops, -, closing, -⟩ := final.closing
  have name : Ahead s [nameToken word] u := line
  obtain ⟨-, -, used, ended⟩ := Line.name_ahead name
  have noAttributes : (u.isAt .openParenthesis && !u.previousEndsLine) = false := by simp [ended]
  have body := read inner (name.within_pred (by simp) within) stops
  rw [memberBlock, outcome_lift_bind_of_ok used, outcome_get_bind]
  simp only [noAttributes, Bool.false_eq_true, if_false]
  rw [outcome_bind_of_ok (outcome_pure none u), outcome_bind_of_ok body,
    outcome_lift_bind_of_ok closing]
  rfl

private theorem outcome_separatorOr_of_identifier {other : Parse Element}
    (identifier : s.currentKind = .identifier) :
    outcome (separatorOr other) s = outcome other s := by
  rw [separatorOr, outcome_get_bind,
    if_neg (by simp [State.isAtSeparator, State.isAt, identifier])]

private theorem Before.bare {name : Name} (before : Before s [.bare name] t) :
    Ahead s [nameToken name] t := by
  obtain ⟨u, line, done⟩ := before.cons
  cases done
  exact line

private theorem Before.bare_atWord {name : Name} {word : String} {lines : List Line}
    (spelled : name.text = word.toList) (before : Before s (.bare name :: lines) t) :
    s.AtWord word := by
  obtain ⟨u, line, -⟩ := before.cons
  have named : Ahead s [nameToken name] u := line
  rw [nameToken, Name.lexeme, spelled] at named
  exact Line.atWord_of_token named

private theorem State.Unreserved.not_end (unreserved : s.Unreserved) : s.isAtWord "end" = false :=
  unreserved "end" (by decide)

end

def Member.Parses (member : Member) : Prop :=
  ∀ {inside : Bool} {depth : Nat} {s t : State}, Before s member.lines t → s.Within (depth + 1) →
    outcome (classMember (blockWithin inside depth)) s = .ok (member.element, t)

def assignmentBlock : List (Name × Literal) → Block
  | [] => .nil
  | (target, value) :: rest => .cons (.assignment target value) (assignmentBlock rest)

private theorem assignmentBlock_lines (values : List (Name × Literal)) :
    (assignmentBlock values).lines = values.map fun entry => .assignment entry.1 entry.2 := by
  induction values with
  | nil => rfl
  | cons entry values ih =>
    rw [assignmentBlock, Block.lines, ih]
    rfl

private theorem assignmentBlock_elements (values : List (Name × Literal)) :
    (assignmentBlock values).elements =
      values.map fun entry => assignmentElement entry.1 entry.2 := by
  induction values with
  | nil => rfl
  | cons entry values ih =>
    rw [assignmentBlock, Block.elements, ih]
    rfl

private theorem assignmentBlock_extends (values : List (Name × Literal)) :
    (assignmentBlock values).Extends := by
  induction values with
  | nil => exact Block.nil_extends
  | cons entry values ih => exact Statement.Parses.cons (assignment_parses entry.1 entry.2) ih

private theorem properties_parses (values : List (Name × Literal)) :
    (Member.properties values).Parses := by
  intro inside depth s t before within
  have here : s.AtWord "properties" := before.bare_atWord rfl
  rw [classMember, outcome_separatorOr_of_identifier here.1, outcome_get_bind]
  simp only [here.2, String.reduceBEq, if_true]
  refine outcome_memberBlock .propertiesList before within fun inner within stops => ?_
  rw [← assignmentBlock_elements]
  rw [← assignmentBlock_lines] at inner
  exact (assignmentBlock_extends values).closed inner within stops.isAtTerminator_eq

private theorem events_parses (names : List Name) : (Member.events names).Parses := by
  intro inside depth s t before within
  have here : s.AtWord "events" := before.bare_atWord rfl
  rw [classMember, outcome_separatorOr_of_identifier here.1, outcome_get_bind]
  simp only [here.2, String.reduceBEq, Bool.false_eq_true, if_false, if_true]
  refine outcome_memberBlock .eventsList before within fun inner within stops => ?_
  rw [List.map_eq_flatMap] at inner
  refine outcome_members (fun s _ more => Uses.event more) ?_ inner within stops
  intro name _ s t here _
  obtain ⟨kind, unreserved, used, -⟩ := Line.name_ahead here.bare
  refine ⟨kind, unreserved.not_end, ?_⟩
  rw [event, outcome_separatorOr_of_identifier kind, outcome_get_bind,
    if_pos (by simp [State.isAt, kind]), outcome_lift_bind_of_ok used]
  rfl

private theorem enumeration_parses (names : List Name) : (Member.enumeration names).Parses := by
  intro inside depth s t before within
  have here : s.AtWord "enumeration" := before.bare_atWord rfl
  rw [classMember, outcome_separatorOr_of_identifier here.1, outcome_get_bind]
  simp only [here.2, String.reduceBEq, Bool.false_eq_true, if_false, if_true]
  refine outcome_memberBlock .enumerationList before within fun inner within stops => ?_
  rw [List.map_eq_flatMap] at inner
  refine outcome_members (fun s _ more => Uses.enumerator more) ?_ inner within stops
  intro name _ s t here _
  obtain ⟨kind, unreserved, used, ended⟩ := Line.name_ahead here.bare
  refine ⟨kind, unreserved.not_end, ?_⟩
  have item : outcome enumerationItem s =
      .ok (.node .enumerationItem [some (.leaf (nameToken name)), none] [], t) := by
    have noValue : (t.isAt .openParenthesis && !t.previousEndsLine) = false := by simp [ended]
    rw [enumerationItem, outcome_bind_of_ok used, outcome_get_bind]
    simp only [noValue, Bool.false_eq_true, if_false]
    exact outcome_bind_of_ok (outcome_pure none t)
  rw [enumerator, outcome_separatorOr_of_identifier kind, outcome_get_bind,
    if_pos (by simp [State.isAt, kind])]
  exact item

def Clauses.toList : Clauses → List (Name × Block)
  | .nil => []
  | .cons name body rest => (name, body) :: rest.toList

def Members.toList : Members → List Member
  | .nil => []
  | .cons first rest => first :: rest.toList

private theorem Clauses.All.of_mem {holds : Block → Prop} :
    {clauses : Clauses} → clauses.All holds → ∀ entry ∈ clauses.toList, holds entry.2
  | .nil, _ => by simp [toList]
  | .cons name body rest, all => by
    simp only [toList, List.forall_mem_cons]
    exact ⟨all.1, Clauses.All.of_mem all.2⟩

private theorem Members.All.of_mem {holds : Member → Prop} :
    {members : Members} → members.All holds → ∀ member ∈ members.toList, holds member
  | .nil, _ => by simp [toList]
  | .cons first rest, all => by
    simp only [toList, List.forall_mem_cons]
    exact ⟨all.1, Members.All.of_mem all.2⟩

private theorem Clauses.methodLines_eq (methods : Clauses) : methods.methodLines =
    methods.toList.flatMap fun entry =>
      .headed .functionWord (.named entry.1) :: (entry.2.lines ++ [.word .endWord]) := by
  cases methods with
  | nil => rfl
  | cons name body rest =>
    rw [methodLines, methodLines_eq rest, toList, List.flatMap_cons, List.cons_append,
      List.append_assoc]
    rfl

private theorem Clauses.methodElements_eq (methods : Clauses) : methods.methodElements =
    methods.toList.map fun entry => functionElement .methodDefinition entry.1 entry.2.elements := by
  cases methods with
  | nil => rfl
  | cons name body rest =>
    rw [methodElements, methodElements_eq rest]
    rfl

private theorem Members.lines_eq (members : Members) :
    members.lines = members.toList.flatMap Member.lines := by
  cases members with
  | nil => rfl
  | cons first rest =>
    rw [lines, lines_eq rest]
    rfl

private theorem Members.elements_eq (members : Members) :
    members.elements = members.toList.map Member.element := by
  cases members with
  | nil => rfl
  | cons first rest =>
    rw [elements, elements_eq rest]
    rfl

private theorem methods_parses {methods : Clauses} (reads : methods.All Block.Extends) :
    (Member.methods methods).Parses := by
  intro inside depth s t before within
  have here : s.AtWord "methods" := before.bare_atWord rfl
  rw [classMember, outcome_separatorOr_of_identifier here.1, outcome_get_bind]
  simp only [here.2, String.reduceBEq, Bool.false_eq_true, if_false, if_true]
  refine outcome_memberBlock .methodsList before within fun inner within stops => ?_
  rw [Clauses.methodLines_eq] at inner
  rw [Clauses.methodElements_eq]
  refine outcome_members (fun s _ more => Uses.method _ more) ?_ inner within stops
  intro entry mem s t before within
  have here : s.AtWord "function" := before.headed_atWord
  refine ⟨here.1, here.2 "end", ?_⟩
  rw [method, outcome_separatorOr_of_identifier here.1, outcome_get_bind]
  simp only [here.2, String.reduceBEq, if_true]
  exact outcome_functionDeclaration (reads.of_mem entry mem) before
    ⟨within.1, Nat.lt_succ_of_lt within.2⟩ .methodDefinition

private theorem Member.starts {s t : State} (member : Member) (before : Before s member.lines t) :
    s.currentKind = .identifier ∧ s.isAtWord "end" = false := by
  have named {word : Name} {lines : List Line} (before : Before s (.bare word :: lines) t) :
      s.currentKind = .identifier ∧ s.isAtWord "end" = false := by
    obtain ⟨u, line, -⟩ := before.cons
    have name : Ahead s [nameToken word] u := line
    obtain ⟨kind, unreserved, -⟩ := Line.name_ahead name
    exact ⟨kind, unreserved.not_end⟩
  cases member with
  | properties values => exact named before
  | methods methods => exact named before
  | events names => exact named before
  | enumeration names => exact named before

private theorem classDefinition_parses (name : Name) {members : Members}
    (parses : members.All Member.Parses) :
    (Statement.classDefinition name members).Parses := by
  intro inside depth s t before within
  have here : s.AtWord "classdef" := before.headed_atWord
  obtain ⟨v, line, rest⟩ := before.cons
  obtain ⟨-, u, used, -, one, head⟩ := Line.headed_ahead line
  obtain ⟨w, lines, final⟩ := rest.append
  obtain ⟨stops, -, closing, -⟩ := final.closing
  obtain ⟨kind, -, taken, -⟩ := Line.name_ahead head
  have next : v.currentKind = .identifier := lines.currentKind stops.1
  have named : outcome (expect .identifier) u = .ok (nameToken name, v) := by
    rw [outcome_expect_of_true (by simp [State.isAt, kind]), taken]
  have body : outcome (Grammar.members (classMember (blockWithin inside depth))) v =
      .ok (.list members.elements, w) := by
    rw [Members.elements_eq]
    rw [Members.lines_eq] at lines
    refine outcome_members (fun s _ more => Uses.classMember _ more) ?_ lines
      (Ahead.within line within) stops
    intro member mem s t before within
    obtain ⟨kind, goesOn⟩ := member.starts before
    exact ⟨kind, goesOn, parses.of_mem member mem before within⟩
  have noAttributes : u.isAt .openParenthesis = false := by simp [State.isAt, kind]
  have noBases : v.isAt .less = false := by simp [State.isAt, next]
  rw [statement, outcome_get_bind]
  simp only [here.2, String.reduceBEq, Bool.false_eq_true, if_false, if_true]
  rw [classDeclaration, outcome_lift_bind_of_ok used, outcome_get_bind]
  simp only [noAttributes, Bool.false_eq_true, if_false]
  rw [outcome_bind_of_ok (outcome_pure none u), outcome_lift_bind_of_ok named, outcome_get_bind]
  simp only [noBases, Bool.false_eq_true, if_false]
  rw [outcome_bind_of_ok (outcome_pure none v), outcome_bind_of_ok body,
    outcome_lift_bind_of_ok closing]
  rfl

theorem hereditary_parses : Hereditary Statement.Parses Block.Extends Member.Parses where
  assignment := assignment_parses
  ifThen := ifThen_parses
  whileLoop := whileLoop_parses
  forLoop := forLoop_parses
  switch := switch_parses
  tryCatch := tryCatch_parses
  function := function_parses
  classDefinition := classDefinition_parses
  nil := Block.nil_extends
  cons := Statement.Parses.cons
  properties := properties_parses
  methods := methods_parses
  events := events_parses
  enumeration := enumeration_parses

end MatrixScript.Grammar
