import MatrixScript.Proofs.Grammar.Showing

/-!
A parsed program shows its own structure, and no other.

Kinds tell statements apart, texts tell names and numbers apart, and every list is matched to its
end, so what a place shows is one thing only (`hereditary_unique`). Main statement: the text of a
program is parsed without a problem, and of all programs its tree shows that one
(`Block.parse_shows`).
-/

set_option autoImplicit false

namespace MatrixScript.Grammar

section

variable {place : Located}

private theorem eq_of_showsName {a b : Name} (first : ShowsName a place)
    (second : ShowsName b place) :
    a = b := Name.eq_of_text (first.2.eq second.2)

private theorem eq_of_showsAssignment {a b : Name} {x y : Literal}
    (first : ShowsAssignment a x place)
    (second : ShowsAssignment b y place) : a = b ∧ x = y := by
  obtain ⟨-, target, value⟩ := first
  obtain ⟨-, target', value'⟩ := second
  obtain ⟨left, here, there⟩ := target.meet target'
  obtain ⟨right, number, number'⟩ := value.meet value'
  exact ⟨eq_of_showsName here there, Literal.eq_of_text (number.2.eq number'.2)⟩

private theorem eq_of_showsAssigning {a b : Name} {x y : Literal} (first : ShowsAssigning a x place)
    (second : ShowsAssigning b y place) : a = b ∧ x = y := by
  obtain ⟨body, here, there⟩ := first.2.1.meet second.2.1
  exact eq_of_showsAssignment here there

private theorem eq_of_hasName {name : String} {a b : Name}
    (first : place.HasNode name (ShowsName a))
    (second : place.HasNode name (ShowsName b)) : a = b := by
  obtain ⟨node, here, there⟩ := first.meet second
  exact eq_of_showsName here there

private theorem eq_of_showsFunction {kind : Kind} {a b : Name} (first : ShowsFunction kind a place)
    (second : ShowsFunction kind b place) : a = b := by
  obtain ⟨-, -, name, -⟩ := first
  obtain ⟨-, -, name', -⟩ := second
  obtain ⟨node, ⟨-, text⟩, -, text'⟩ := name.meet name'
  apply Name.eq_of_text
  rw [text, Option.some.injEq, Part.text.injEq, Option.some.injEq] at text'
  exact text'

end

def Block.Unique (block : Block) : Prop :=
  ∀ {other : Block} {places : List Located}, block.ShownBy places → other.ShownBy places →
    block = other

def Statement.Unique (one : Statement) : Prop :=
  ∀ {other : Statement} {place : Located}, one.ShownBy place → other.ShownBy place → one = other

def Member.Unique (member : Member) : Prop :=
  ∀ {other : Member} {place : Located}, member.ShownBy place → other.ShownBy place →
    member = other

def Statement.kind : Statement → Kind
  | .assignment .. => .expressionStatement
  | .ifThen .. => .ifStatement
  | .whileLoop .. => .whileLoopStatement
  | .forLoop .. => .forLoopStatement
  | .switch .. => .switchStatement
  | .tryCatch .. => .tryCatchStatement
  | .function .. => .functionDeclaration
  | .classDefinition .. => .classDeclaration

private theorem Statement.ShownBy.kind {one : Statement} {place : Located}
    (shown : one.ShownBy place) :
    place.kind = one.kind := by
  cases one with
  | function name body => exact shown.1.1
  | _ => exact shown.1

private theorem Statement.kind_eq {one other : Statement} {place : Located}
    (here : one.ShownBy place)
    (there : other.ShownBy place) : one.kind = other.kind :=
  here.kind.symm.trans there.kind

def Member.kind : Member → Kind
  | .properties .. => .propertiesList
  | .methods .. => .methodsList
  | .events .. => .eventsList
  | .enumeration .. => .enumerationList

private theorem Member.kind_eq {one other : Member} {place : Located} (here : one.ShownBy place)
    (there : other.ShownBy place) : one.kind = other.kind := by
  have kind {member : Member} (shown : member.ShownBy place) : place.kind = member.kind := by
    cases member with
    | _ => exact shown.1
  exact (kind here).symm.trans (kind there)

section

variable {place : Located} {body other : Block}

private theorem Block.Unique.eq_of_hasList (unique : body.Unique) {name : String}
    (first : place.HasList name (fun places => body.ShownBy places))
    (second : place.HasList name (fun places => other.ShownBy places)) : body = other := by
  obtain ⟨places, here, there⟩ := first.meet second
  exact unique here there

private theorem Clauses.eq_of_shown (head : Name → Located → Prop)
    {last last' : List Located → Prop}
    (single : ∀ {a b : Name} {place : Located}, head a place → head b place → a = b)
    (ends : ∀ {name : Name} {place : Located} {others : List Located}, head name place →
      ¬last (place :: others))
    (ends' : ∀ {name : Name} {place : Located} {others : List Located}, head name place →
      ¬last' (place :: others)) :
    (clauses : Clauses) → clauses.All Block.Unique → (other : Clauses) → (places : List Located) →
    clauses.ShownBy head last places → other.ShownBy head last' places →
    clauses = other ∧ ∃ others, last others ∧ last' others
  | .nil, _, .nil, places, here, there => ⟨rfl, places, here, there⟩
  -- If one has a clause more, its head stands where the other has none.
  | .nil, _, .cons name body rest, _, here, there => by
    obtain ⟨place, others, rfl, found, -⟩ := there
    exact absurd here (ends found)
  | .cons name body rest, _, .nil, _, here, there => by
    obtain ⟨place, others, rfl, found, -⟩ := here
    exact absurd there (ends' found)
  | .cons name body rest, unique, .cons name' body' rest', _, here, there => by
    obtain ⟨place, others, rfl, found, statements, later⟩ := here
    obtain ⟨place', others', same, found', statements', later'⟩ := there
    obtain ⟨rfl, rfl⟩ := List.cons_eq_cons.mp same
    obtain ⟨rfl, left⟩ :=
      Clauses.eq_of_shown head single ends ends' rest unique.2 rest' others later later'
    rw [single found found', Block.Unique.eq_of_hasList unique.1 statements statements']
    exact ⟨rfl, left⟩

private theorem Fallback.eq_of_shownAsElse {otherwise otherwise' : Fallback}
    (unique : otherwise.All Block.Unique) (here : otherwise.ShownAsElse place)
    (there : otherwise'.ShownAsElse place) : otherwise = otherwise' := by
  cases otherwise with
  | none =>
    cases otherwise' with
    | none => rfl
    | some body => exact absurd here there.ne_none
  | some body =>
    cases otherwise' with
    | none => exact absurd there here.ne_none
    | some body' =>
      obtain ⟨clause, ⟨-, statements⟩, -, statements'⟩ := here.meet there
      rw [Block.Unique.eq_of_hasList unique statements statements']

private theorem Fallback.eq_of_shownAsCases {otherwise otherwise' : Fallback}
    {places : List Located}
    (unique : otherwise.All Block.Unique) (here : otherwise.ShownAsCases places)
    (there : otherwise'.ShownAsCases places) : otherwise = otherwise' := by
  cases otherwise with
  | none =>
    cases otherwise' with
    | none => rfl
    | some body =>
      obtain ⟨place, some, -⟩ := there
      exact absurd (here.symm.trans some) (by simp)
  | some body =>
    obtain ⟨place, some, -, -, -, statements⟩ := here
    cases otherwise' with
    | none => exact absurd (some.symm.trans there) (by simp)
    | some body' =>
      obtain ⟨place', some', -, -, -, statements'⟩ := there
      obtain ⟨rfl, -⟩ := List.cons_eq_cons.mp (some.symm.trans some')
      rw [Block.Unique.eq_of_hasList unique statements statements']

private theorem Fallback.not_shownAsCases {otherwise : Fallback} {name : Name}
    {others : List Located}
    (labelled : ShowsCase name place) : ¬otherwise.ShownAsCases (place :: others) := by
  intro shown
  cases otherwise with
  | none => cases shown
  | some body =>
    obtain ⟨last, same, -, keyword, -⟩ := shown
    obtain ⟨rfl, -⟩ := List.cons_eq_cons.mp same
    exact absurd (labelled.2.1.eq keyword) (by decide)

private theorem Handler.eq_of_shown {handler handler' : Handler} (unique : handler.All Block.Unique)
    (here : handler.ShownBy place) (there : handler'.ShownBy place) : handler = handler' := by
  cases handler with
  | none =>
    cases handler' with
    | none => rfl
    | catching name body => exact absurd here there.ne_none
  | catching name body =>
    cases handler' with
    | none => exact absurd there here.ne_none
    | catching name' body' =>
      obtain ⟨clause, ⟨-, named, statements⟩, -, named', statements'⟩ := here.meet there
      rw [Block.Unique.eq_of_hasList unique statements statements']
      cases name with
      | none =>
        cases name' with
        | none => rfl
        | some name' => exact absurd named named'.ne_none
      | some name =>
        cases name' with
        | none => exact absurd named' named.ne_none
        | some name' => rw [Name.eq_of_text (named.eq named')]

end

private theorem assignment_unique (target : Name) (value : Literal) :
    (Statement.assignment target value).Unique := by
  intro other place here there
  have kinds := Statement.kind_eq here there
  cases other with
  | assignment target' value' =>
    obtain ⟨rfl, rfl⟩ := eq_of_showsAssigning here there
    rfl
  | _ => cases kinds

private theorem ifThen_unique (condition : Name) {body : Block} {alternatives : Clauses}
    {otherwise : Fallback} (unique : body.Unique) (further : alternatives.All Block.Unique)
    (last : otherwise.All Block.Unique) :
    (Statement.ifThen condition body alternatives otherwise).Unique := by
  intro other place here there
  have kinds := Statement.kind_eq here there
  cases other with
  | ifThen condition' body' alternatives' otherwise' =>
    obtain ⟨-, head, statements, clauses, final⟩ := here
    obtain ⟨-, head', statements', clauses', final'⟩ := there
    obtain ⟨places, first, second⟩ := clauses.meet clauses'
    obtain ⟨rfl, -⟩ := Clauses.eq_of_shown ShowsElseif
      (fun one two => eq_of_hasName one.2 two.2) (fun _ => by simp) (fun _ => by simp)
      alternatives further alternatives' places first second
    rw [eq_of_hasName head head', unique.eq_of_hasList statements statements',
      Fallback.eq_of_shownAsElse last final final']
  | _ => cases kinds

private theorem whileLoop_unique (condition : Name) {body : Block} (unique : body.Unique) :
    (Statement.whileLoop condition body).Unique := by
  intro other place here there
  have kinds := Statement.kind_eq here there
  cases other with
  | whileLoop condition' body' =>
    rw [eq_of_hasName here.2.1 there.2.1, unique.eq_of_hasList here.2.2 there.2.2]
  | _ => cases kinds

private theorem forLoop_unique (counter : Name) (bound : Literal) {body : Block}
    (unique : body.Unique) :
    (Statement.forLoop counter bound body).Unique := by
  intro other place here there
  have kinds := Statement.kind_eq here there
  cases other with
  | forLoop counter' bound' body' =>
    obtain ⟨-, -, head, statements⟩ := here
    obtain ⟨-, -, head', statements'⟩ := there
    obtain ⟨node, first, second⟩ := head.meet head'
    obtain ⟨rfl, rfl⟩ := eq_of_showsAssignment first second
    rw [unique.eq_of_hasList statements statements']
  | _ => cases kinds

private theorem switch_unique (subject : Name) {cases : Clauses} {otherwise : Fallback}
    (unique : cases.All Block.Unique) (last : otherwise.All Block.Unique) :
    (Statement.switch subject cases otherwise).Unique := by
  intro other place here there
  have kinds := Statement.kind_eq here there
  cases other with
  | switch subject' cases' otherwise' =>
    obtain ⟨-, head, clauses⟩ := here
    obtain ⟨-, head', clauses'⟩ := there
    obtain ⟨places, first, second⟩ := clauses.meet clauses'
    obtain ⟨rfl, others, final, final'⟩ := Clauses.eq_of_shown ShowsCase
      (fun one two => eq_of_hasName one.2.2 two.2.2) Fallback.not_shownAsCases
      Fallback.not_shownAsCases cases unique cases' places first second
    rw [eq_of_hasName head head', Fallback.eq_of_shownAsCases last final final']
  | _ => cases kinds

private theorem tryCatch_unique {body : Block} {handler : Handler} (unique : body.Unique)
    (handles : handler.All Block.Unique) : (Statement.tryCatch body handler).Unique := by
  intro other place here there
  have kinds := Statement.kind_eq here there
  cases other with
  | tryCatch body' handler' =>
    rw [unique.eq_of_hasList here.2.1 there.2.1, Handler.eq_of_shown handles here.2.2 there.2.2]
  | _ => cases kinds

private theorem function_unique (name : Name) {body : Block} (unique : body.Unique) :
    (Statement.function name body).Unique := by
  intro other place here there
  have kinds := Statement.kind_eq here there
  cases other with
  | function name' body' =>
    rw [eq_of_showsFunction here.1 there.1, unique.eq_of_hasList here.2 there.2]
  | _ => cases kinds

private theorem Members.eq_of_shown : (members : Members) → members.All Member.Unique →
    (other : Members) → (places : List Located) → members.ShownBy places →
    other.ShownBy places → members = other
  | .nil, _, .nil, _, _, _ => rfl
  | .nil, _, .cons first rest, _, here, there => by
    obtain ⟨place, others, some, -⟩ := there
    exact absurd (here.symm.trans some) (by simp)
  | .cons first rest, _, .nil, _, here, there => by
    obtain ⟨place, others, some, -⟩ := here
    exact absurd (some.symm.trans there) (by simp)
  | .cons first rest, unique, .cons first' rest', _, here, there => by
    obtain ⟨place, others, rfl, shown, later⟩ := here
    obtain ⟨place', others', same, shown', later'⟩ := there
    obtain ⟨rfl, rfl⟩ := List.cons_eq_cons.mp same
    rw [unique.1 shown shown', Members.eq_of_shown rest unique.2 rest' others later later']

private theorem classDefinition_unique (name : Name) {members : Members}
    (unique : members.All Member.Unique) : (Statement.classDefinition name members).Unique := by
  intro other place here there
  have kinds := Statement.kind_eq here there
  cases other with
  | classDefinition name' members' =>
    obtain ⟨-, -, named, -, inner, -⟩ := here
    obtain ⟨-, -, named', -, inner', -⟩ := there
    obtain ⟨places, first, second⟩ := inner.meet inner'
    rw [Name.eq_of_text (named.eq named'),
      Members.eq_of_shown members unique members' places first second]
  | _ => cases kinds

private theorem eq_of_forall₂ {ι : Type} {shows : ι → Located → Prop}
    (single : ∀ {a b : ι} {place : Located}, shows a place → shows b place → a = b)
    {items others : List ι} {places : List Located} (here : List.Forall₂ shows items places)
    (there : List.Forall₂ shows others places) : items = others := by
  induction here generalizing others with
  | nil =>
    cases there
    rfl
  | cons shown _ ih =>
    cases there with
    | cons shown' later => rw [single shown shown', ih later]

private theorem properties_unique (values : List (Name × Literal)) :
    (Member.properties values).Unique := by
  intro other place here there
  have kinds := Member.kind_eq here there
  cases other with
  | properties values' =>
    obtain ⟨places, first, second⟩ := here.2.2.meet there.2.2
    rw [eq_of_forall₂ (fun one two => ?_) first second]
    obtain ⟨target, value⟩ := eq_of_showsAssigning one two
    exact Prod.ext target value
  | _ => cases kinds

private theorem methods_unique {methods : Clauses} (unique : methods.All Block.Unique) :
    (Member.methods methods).Unique := by
  intro other place here there
  have kinds := Member.kind_eq here there
  cases other with
  | methods methods' =>
    obtain ⟨places, first, second⟩ := here.2.2.meet there.2.2
    obtain ⟨rfl, -⟩ := Clauses.eq_of_shown (ShowsFunction .methodDefinition)
      eq_of_showsFunction (fun _ => by simp) (fun _ => by simp) methods unique methods' places
      first second
    rfl
  | _ => cases kinds

private theorem events_unique (names : List Name) : (Member.events names).Unique := by
  intro other place here there
  have kinds := Member.kind_eq here there
  cases other with
  | events names' =>
    have texts := here.2.2.eq there.2.2
    rw [(List.map_inj_right fun _ _ => Name.eq_of_text).mp texts]
  | _ => cases kinds

private theorem enumeration_unique (names : List Name) : (Member.enumeration names).Unique := by
  intro other place here there
  have kinds := Member.kind_eq here there
  cases other with
  | enumeration names' =>
    obtain ⟨places, first, second⟩ := here.2.2.meet there.2.2
    rw [eq_of_forall₂ (fun one two => Name.eq_of_text (one.2.1.eq two.2.1)) first second]
  | _ => cases kinds

private theorem Block.nil_unique : Block.nil.Unique := by
  intro other places here there
  cases other with
  | nil => rfl
  | cons first rest =>
    obtain ⟨place, others, some, -⟩ := there
    exact absurd (here.symm.trans some) (by simp)

private theorem Statement.Unique.cons {first : Statement} {rest : Block} (unique : first.Unique)
    (others : rest.Unique) : (Block.cons first rest).Unique := by
  intro other places here there
  obtain ⟨place, later, rfl, shown, after⟩ := here
  cases other with
  | nil => cases there
  | cons first' rest' =>
    obtain ⟨place', later', same, shown', after'⟩ := there
    obtain ⟨rfl, rfl⟩ := List.cons_eq_cons.mp same
    rw [unique shown shown', others after after']

theorem hereditary_unique : Hereditary Statement.Unique Block.Unique Member.Unique where
  assignment := assignment_unique
  ifThen := ifThen_unique
  whileLoop := whileLoop_unique
  forLoop := forLoop_unique
  switch := switch_unique
  tryCatch := tryCatch_unique
  function := function_unique
  classDefinition := classDefinition_unique
  nil := Block.nil_unique
  cons := Statement.Unique.cons
  properties := properties_unique
  methods := methods_unique
  events := events_unique
  enumeration := enumeration_unique

private theorem outcome_scriptStatements_of_lines (program : Block) {inside : Bool} {depth : Nat}
    {s t : State} (before : Before s program.lines t) (within : s.Within (depth + 1))
    (done : t.rest = []) :
    outcome (scriptStatements inside depth) s = .ok (program.elements, t) := by
  have ends : t.eof.kind = .eof := Ahead.ends before within.1
  have stop := (Steady.statementStep (blockWithin inside depth) inside .script).stops
    ([] ++ program.elements) t ends done
  have reads := hereditary_parses.block program inside .script [] before within
  exact reads.trans (outcome_repeat_stop stop)

private theorem Block.parse_eq (program : Block) (options : Options) (name : Option String) :
    Tree.parse program.text options name =
      .ok ⟨.file (program.elements.map some) Token.endOfText, [], name⟩ := by
  have ahead : (Lexer.start program.text).rest = program.lines.flatMap Line.text ++ [] := by
    rw [List.append_nil]
    rfl
  obtain ⟨later, reads, done, fresh⟩ := Line.reads_all program.lines ahead rfl
  have plain : ∀ one ∈ program.lines.flatMap Line.written, one.lexeme.Plain := by
    intro one member
    obtain ⟨line, -, written⟩ := List.mem_flatMap.mp member
    exact line.written_plain one written
  obtain ⟨stream, lexed, tokens, eof, silent⟩ := reads.tokenize done (by rw [fresh]) plain
  obtain ⟨t, used, finished⟩ := Ahead.of_rest (State.ofStream stream)
  have before : Before (State.ofStream stream) program.lines t := by
    have same : (State.ofStream stream).rest.map (·.token) =
        program.lines.flatMap Line.tokens := by
      rw [State.ofStream, tokens, List.map_flatMap]
      rfl
    rw [same] at used
    exact used
  have ends : (State.ofStream stream).eof.kind = .eof := by
    show stream.eof.token.kind = .eof
    rw [eof]
    rfl
  have within : (State.ofStream stream).Within (stream.tokens.length + 1 + 1) :=
    ⟨ends, Nat.lt_succ_of_lt (Nat.lt_succ_self _)⟩
  have found : t.diagnostics = [] := Ahead.diagnostics before
  rw [Tree.parse_of_tokens lexed, outcome_scriptStatements_of_lines program before within finished]
  simp only [Except.map, eof, silent, found]
  rfl

/-- The text of a program is parsed without a problem, and its tree shows that program and no
other. -/
theorem Block.parse_shows (program : Block) (options : Options) (name : Option String) :
    ∃ tree, Tree.parse program.text options name = .ok tree ∧ tree.diagnostics = [] ∧
      ∀ other : Block, other.ShownIn tree ↔ other = program := by
  refine ⟨_, program.parse_eq options name, rfl, ?_⟩
  have shown : program.ShownIn
      ⟨.file (program.elements.map some) Token.endOfText, [], name⟩ :=
    ⟨rfl, Block.Shows.hasList (hereditary_shows.block program) rfl rfl⟩
  intro other
  constructor
  · intro there
    exact (Block.Unique.eq_of_hasList (hereditary_unique.block program) shown.2 there.2).symm
  · rintro rfl
    exact shown

end MatrixScript.Grammar
