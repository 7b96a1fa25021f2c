import MatrixScript.Proofs.Grammar.Telling

/-!
Parsing always advances.

A round of a loop stops the loop or uses up a token (`Advances`), and so does an element that is
read where one can start, so that no error node has to stand in for it (`Consumes`). No recursion
comes to its bound (`Unbounded`). So a parser goes through the positions of the tokens without ever
going back, from one rule to the next it goes on by a token at least, and it stops at the end of the
text or at a token that is no member of a class (`script_advances`).
-/

set_option autoImplicit false

namespace MatrixScript.Grammar

section

variable {m : Type → Type} [Monad m] [MonadStateOf State m] [Outcome m] {α : Type} {s : State}

/-- A loop that stops or uses up a token in each round, and stops at the end of the text. It makes
no more rounds than there are tokens, so what comes after so many does not matter. -/
structure Advances (step : α → m (Option α)) : Prop extends Steady step where
  moves (value : α) (s : State) : Gives (step value) s fun _ t => s.Moves t
  rounds (value : α) (s : State) (ends : s.eof.kind = .eof) {count : Nat}
    (enough : s.rest.length < count) (again : α → m α) :
    outcome ((round step)^[count] again value) s =
      outcome (MonadState.get >>= fun state : State => iterate step state.rest.length value) s

private theorem Steady.advances {step : α → m (Option α)} (steady : Steady step)
    [∀ value, Forward (step value)] : Advances step where
  toSteady := steady
  moves _ s := Forward.moves s
  rounds value _ ends _ enough again := round_unrolled steady ends enough again value

/-- An element that uses up a token, so that no error node follows it in a list. -/
structure Consumes (read : m Element) (guarded : m (List Element)) (s : State) : Prop where
  uses : Uses read s
  settled : outcome guarded s = outcome (do return [← read]) s

private theorem Uses.consumes {read other : m Element} (uses : Uses read s) :
    Consumes read (do
      let before := (← (get : m State)).rest.length
      let element ← read
      if (← (get : m State)).rest.length = before then return [element, ← other]
      else return [element]) s where
  uses := uses
  settled := by
    rw [outcome_get_bind, outcome_bind, outcome_bind]
    cases found : outcome read s with
    | error failure => rfl
    | ok result =>
      have shorter := uses result.1 result.2 found
      simp only [Except.bind, outcome_get_bind, if_neg (Nat.ne_of_lt shorter)]

end

/-- The loops of names, expressions and the heads of classes. -/
inductive ReadLoop : {α : Type} → (α → Read (Option α)) → Prop
  | matrix (close : Kind) : ReadLoop (listStep close fun _ => matrixItem nested close)
  | arguments (close : Kind) : ReadLoop (listStep close (argumentItem nested close))
  | attributes : ReadLoop (listStep .closeParenthesis fun _ => attributeItem)
  | names (close : Kind) : ReadLoop (listStep close fun _ => nameItem close)
  | baseClasses : ReadLoop baseClassStep
  | words : ReadLoop commandStep
  | dots {α : Type} (extend : α → Token → Token → α) : ReadLoop (dottedStep extend)
  | suffixes (inside : Bool) : ReadLoop (suffixStep nested inside)
  | operators (inside : Bool) (floor : Precedence) : ReadLoop (binaryStep nested inside floor)

private theorem ReadLoop.advances {α : Type} {step : α → Read (Option α)} (loop : ReadLoop step) :
    Advances step := by
  cases loop with
  | matrix close =>
    exact (Steady.listStep fun _ _ _ more => Uses.matrixItem nested more close).advances
  | arguments close =>
    exact (Steady.listStep fun elements _ _ more =>
      Uses.argumentItem nested more close elements).advances
  | attributes => exact (Steady.listStep fun _ _ _ more => Uses.attributeItem more).advances
  | names close => exact (Steady.listStep fun _ _ _ more => Uses.nameItem more close).advances
  | baseClasses => exact Steady.baseClassStep.advances
  | words => exact Steady.commandStep.advances
  | dots extend => exact (Steady.dottedStep extend).advances
  | suffixes inside => exact (Steady.suffixStep nested inside).advances
  | operators inside floor => exact (Steady.binaryStep nested inside floor).advances

private theorem Rule.advances (inside : Bool) (rule : Rule) : Advances (rule.step inside) :=
  (rule.steady_step inside).advances

/-! Where an element can start, it uses up a token. -/

section

variable {s : State}

private theorem State.more_of_expressionFirst (ends : s.eof.kind = .eof)
    (starts : s.isAtAny expressionFirst = true) : s.rest ≠ [] := by
  intro done
  rw [isAtAny, currentKind_of_done ends done] at starts
  exact absurd starts (by decide)

namespace Uses

section

variable (inner : Inner) [∀ inside floor, Forward (inner inside floor)]

private theorem term (more : s.rest ≠ []) (starts : s.isAtAny expressionFirst = true)
    (plain : ∀ kind ∈ [Kind.plus, .minus, .tilde, .colon], s.currentKind ≠ kind) (inside : Bool) :
    Uses (Grammar.term inner inside) s := by
  unfold Grammar.term
  refine Gives.get ?_
  split
  case h_10 =>
    simp only [State.isAtAny, expressionFirst, KindSet.contains_ofList] at starts
    simp_all
  all_goals exact (advance more).andThen

private theorem signed (more : s.rest ≠ []) (starts : s.isAtAny expressionFirst = true)
    (inside : Bool)
    (floor : Precedence) : Uses (Grammar.signed inner inside floor) s := by
  unfold Grammar.signed
  refine Gives.get ?_
  split
  case h_5 plus minus tilde colon =>
    have plain : ∀ kind ∈ [Kind.plus, .minus, .tilde, .colon], s.currentKind ≠ kind := by
      simpa using ⟨plus, minus, tilde, colon⟩
    exact (term inner more starts plain inside).andThen
  all_goals exact (advance more).andThen

private theorem climb (more : s.rest ≠ []) (starts : s.isAtAny expressionFirst = true)
    (inside : Bool)
    (floor : Precedence) : Uses (Grammar.climb inner inside floor) s := by
  unfold Grammar.climb
  exact (signed inner more starts inside floor).andThen

end

theorem expression (ends : s.eof.kind = .eof) (starts : s.isAtAny expressionFirst = true)
    (inside : Bool) : Uses (Grammar.expression inside) s := by
  have more := State.more_of_expressionFirst ends starts
  exact Gives.get (climb (expressionWithin s.rest.length) more starts inside .expression)

private theorem classDeclaration (block : Parse Element) [Forward block] (more : s.rest ≠ []) :
    Uses (Grammar.classDeclaration block) s := by
  unfold Grammar.classDeclaration
  refine Gives.andThen (advance more).lift fun keyword t shorter => ?_
  refine Gives.mono ((Forward.bind fun state => ?_).moves t) fun _ u moves =>
    Nat.lt_of_le_of_lt moves.length_le shorter
  split <;> exact Forward.bind fun attributes => inferInstance

private theorem statement (block : Parse Element) [Forward block] (ends : s.eof.kind = .eof)
    (starts : (s.isAtSeparator || s.isAtAny expressionFirst) = true) (inside : Bool) :
    Uses (Grammar.statement block inside) s := by
  have more : s.rest ≠ [] := by
    rcases Bool.or_eq_true_iff.mp starts with separator | first
    · exact State.more_of_isAtSeparator ends separator
    · exact State.more_of_expressionFirst ends first
  have token : Uses (liftM Grammar.advance : Parse Token) s := (advance more).lift
  have head := clause block more inside
  have loop (kind : Kind) : Uses (loopStatement block inside kind) s := head.andThen
  unfold Grammar.statement
  refine Gives.get ?_
  refine Gives.ite (fun _ => functionDeclaration block more _) fun _ => ?_
  refine Gives.ite (fun _ => classDeclaration block more) fun _ => ?_
  refine Gives.ite (fun _ => token.andThen) fun _ => ?_
  refine Gives.ite (fun _ => loop _) fun _ => ?_
  refine Gives.ite (fun _ => head.andThen) fun _ => ?_
  refine Gives.ite (fun _ => loop _) fun _ => ?_
  refine Gives.ite (fun _ => token.andThen) fun _ => ?_
  refine Gives.ite (fun _ => token.andThen) fun other => ?_
  have first : s.isAtAny expressionFirst = true := by simpa [other] using starts
  exact (expression ends first inside).andThen.lift

end Uses

end

/-! Recursion without bounds. -/

/-- Expressions and blocks are read as if nothing bounded how deep they nest: whatever stands at the
bottom, they do not come to it, and they are what their rules make of themselves. -/
structure Unbounded (inside : Bool) (s : State) : Prop where
  expression : expression inside = nested inside .expression
  expressions {depth : Nat} (enough : s.rest.length < depth) (bottom : Inner)
    (floor : Precedence) :
    outcome (climb^[depth] bottom inside floor) s = outcome (nested inside floor) s
  nested (floor : Precedence) :
    outcome (nested inside floor) s = outcome (climb nested inside floor) s
  blocks {depth : Nat} (enough : s.rest.length < depth) (bottom : Parse Element) :
    outcome ((fun block => statementList block inside .block)^[depth] bottom) s =
      outcome (block inside) s
  block : outcome (block inside) s = outcome (statementList (block inside) inside .block) s
  enumerator : outcome enumerationValue s = outcome
    (do return .ofChildren .enumerationItemValue (← arguments Grammar.nested .closeParenthesis)) s
  script : outcome (script inside) s = outcome (do
    let statements ← statementList (Grammar.block inside) inside .script
    let closing ← expect .eof
    return .ofChildren .file [statements, .leaf closing]) s

private theorem unbounded {s : State} (ends : s.eof.kind = .eof) (inside : Bool) :
    Unbounded inside s where
  expression := expression_eq inside
  expressions enough bottom floor := nested_unrolled ends enough bottom inside floor
  nested floor := nested_fixed ends inside floor
  blocks enough bottom := block_unrolled ends enough bottom inside
  block := block_fixed ends inside
  enumerator := enumerationValue_eq ends
  script := script_fixed ends inside

/-! Positions. -/

/-- A state in front of the token at a position, which is that of the end of the text at most. No
error node has been made of that end. -/
structure State.At (stream : TokenStream) (position : Nat) (s : State) : Prop where
  within : position ≤ stream.tokens.length
  rest : s.rest = stream.tokens.drop position
  eof : s.eof = stream.eof
  proper (expected : Kind) (range : Range) :
    ⟨.unexpectedToken expected .eof, range⟩ ∉ s.diagnostics

/-- A parser that goes on from every position to one that does not lie before it. -/
def Onward {m : Type → Type} [Monad m] [MonadStateOf State m] [Outcome m] {α : Type}
    (stream : TokenStream) (f : m α) (s : State) : Prop :=
  ∀ position, s.At stream position →
    Gives f s fun _ t => ∃ later, position ≤ later ∧ t.At stream later

section

variable {stream : TokenStream} {position : Nat} {s t : State}

namespace State.At

private theorem start (stream : TokenStream) : (ofStream stream).At stream 0 where
  within := Nat.zero_le _
  rest := rfl
  eof := rfl
  proper _ _ := List.not_mem_nil

private theorem length (place : s.At stream position) :
    position + s.rest.length = stream.tokens.length := by
  rw [place.rest, List.length_drop, Nat.add_sub_cancel' place.within]

variable (kinds : ∀ placed ∈ stream.tokens, placed.kind ≠ .eof)

include kinds

theorem told (place : s.At stream position) (told : s.Told t) :
    ∃ later, position ≤ later ∧ t.At stream later := by
  have tokens : s.rest <:+ stream.tokens := place.rest ▸ List.drop_suffix position _
  have ahead : t.rest <:+ stream.tokens := told.rest.trans tokens
  have fewer := told.rest.length_le
  have whole := place.length
  refine ⟨stream.tokens.length - t.rest.length, by omega, ?_⟩
  refine ⟨Nat.sub_le _ _, List.suffix_iff_eq_drop.mp ahead, told.eof.trans place.eof, ?_⟩
  intro expected range member
  rcases told.told _ member with before | tells
  · exact place.proper expected range before
  · -- The kind that is told is that of a token ahead, and those are not the end.
    generalize kind : Kind.eof = other at tells
    cases tells with
    | unexpected _ ahead => exact kinds _ (tokens.mem ahead) kind.symm

end State.At

private theorem Telling.onward {m : Type → Type} [Monad m] [MonadStateOf State m] [Outcome m]
    {α : Type}
    {f : m α} (telling : s.eof.kind = .eof → Telling f s) (ends : stream.eof.kind = .eof)
    (kinds : ∀ placed ∈ stream.tokens, placed.kind ≠ .eof) : Onward stream f s := by
  intro position place
  have ends : s.eof.kind = .eof := by rw [place.eof, ends]
  exact (telling ends).mono fun _ _ told => place.told kinds told

end

variable {stream : TokenStream}

private theorem Rule.Leads.at_later {inside : Bool} {before after : Rule × State} {position : Nat}
    (leads : Leads inside before after) (ends : stream.eof.kind = .eof)
    (kinds : ∀ placed ∈ stream.tokens, placed.kind ≠ .eof)
    (place : before.2.At stream position) :
    ∃ next, position < next ∧ after.2.At stream next := by
  have ends : before.2.eof.kind = .eof := by rw [place.eof, ends]
  obtain ⟨next, -, later⟩ := place.told kinds (leads.told ends)
  have fewer := (leads.moves ends).2
  have here := place.length
  have there := later.length
  exact ⟨next, by omega, later⟩

/-- Parsing advances, whatever tokens a script has, and whether or not it stands between brackets. No
recursion comes to its bound, and every loop stops or uses up a token. Expressions and statements
use up a token where they can start, so that none is followed by an error node for want of one. The
position never goes back nor past the end of the text, of which no error node is made. It goes on
from rule to rule, and stops at the end or at a token that is no member of a class. -/
theorem script_advances (inside : Bool) (ends : stream.eof.kind = .eof)
    (kinds : ∀ placed ∈ stream.tokens, placed.kind ≠ .eof) :
    (∀ s : State, s.eof.kind = .eof → Unbounded inside s) ∧
    (∀ {α : Type} (step : α → Read (Option α)), ReadLoop step → Advances step) ∧
    (∀ rule : Rule, Advances (rule.step inside)) ∧
    (∀ s : State, s.eof.kind = .eof → s.isAtAny expressionFirst = true → ∀ within close,
      Consumes (expression within) (progressing close (expression within)) s) ∧
    (∀ s : State, s.eof.kind = .eof → (s.isAtSeparator || s.isAtAny expressionFirst) = true →
      Consumes (statement (block inside) inside)
        (progressingParse .identifier (statement (block inside) inside)) s) ∧
    (∀ s : State, Onward stream (expression inside) s ∧ Onward stream (block inside) s ∧
      ∀ rule : Rule, Onward stream (rule.step inside []) s) ∧
    (∀ rule s, Rule.Reaches inside (.statements .script, .ofStream stream) (rule, s) →
      ∃ position, s.At stream position ∧ ∀ later, Rule.Leads inside (rule, s) later →
        ∃ next, position < next ∧ later.2.At stream next) ∧
    (∀ root t, outcome (script inside) (.ofStream stream) = .ok (root, t) →
      t.At stream stream.tokens.length) ∧
    ∀ failure, outcome (script inside) (.ofStream stream) = .error failure →
      ∃ body t position,
        Rule.Reaches inside (.statements .script, .ofStream stream) (.members body, t) ∧
        t.At stream position ∧ position < stream.tokens.length ∧ body.refuses t = true ∧
        failure = t.unexpectedMember := by
  have reached {rule s} (reaches : Rule.Reaches inside
      (.statements .script, .ofStream stream) (rule, s)) : ∃ position, s.At stream position := by
    obtain ⟨position, -, place⟩ := (State.At.start stream).told kinds (reaches.told ends)
    exact ⟨position, place⟩
  refine ⟨fun s ends => unbounded ends inside, fun _ loop => loop.advances,
    fun rule => rule.advances inside, fun s ends starts within close => ?_,
    fun s ends starts => ?_, fun s => ?_, fun rule s reaches => ?_, fun root t read => ?_,
    fun failure failed => ?_⟩
  · exact (Uses.expression ends starts within).consumes
  · exact (Uses.statement (block inside) ends starts inside).consumes
  · exact ⟨Telling.onward (Telling.expression · inside) ends kinds,
      Telling.onward (Telling.block · inside) ends kinds,
      fun rule => Telling.onward (rule.step_telling inside ·) ends kinds⟩
  · obtain ⟨position, place⟩ := reached reaches
    exact ⟨position, place, fun later leads => leads.at_later ends kinds place⟩
  · obtain ⟨statements, moves, done, -⟩ := script_tandem ends kinds root t read
    obtain ⟨position, -, place⟩ := (State.At.start stream).told kinds moves.told
    have whole := place.length
    rw [done, List.length_nil, Nat.add_zero] at whole
    exact whole ▸ place
  · have stopped : outcome (scriptStatements inside (stream.tokens.length + 1))
        (.ofStream stream) = .error failure := by
      rw [outcome_script inside ends kinds] at failed
      change (outcome (scriptStatements inside (stream.tokens.length + 1)) _).map _ = _ at failed
      cases read : outcome (scriptStatements inside (stream.tokens.length + 1))
          (.ofStream stream) with
      | ok result => simp [read, Except.map] at failed
      | error other => simpa [read, Except.map] using failed
    obtain ⟨body, t, reaches, refused, told⟩ :=
      (outcome_script_eq_error ends inside failure).mp stopped
    obtain ⟨position, place⟩ := reached reaches
    have ends : t.eof.kind = .eof := by rw [place.eof, ends]
    have more := List.length_pos_of_ne_nil (body.current_of_refuses ends refused).1
    have whole := place.length
    exact ⟨body, t, position, reaches, place, by omega, refused, told⟩

/-- A word and signs out of place: an `end` of no block, a matrix of a lone sign, and an assignment
and a loop that lack the rest. All are told of, and the end of the text is reached. -/
theorem script_advances_malformed :
    ∃ stream, tokenize "end, f(1 ^ [-]) =\nfor".toList = .ok stream ∧
      stream.eof.kind = .eof ∧ (∀ placed ∈ stream.tokens, placed.kind ≠ .eof) ∧
      ∃ root t, outcome (script false) (.ofStream stream) = .ok (root, t) ∧
        t.diagnostics.length = 5 ∧ t.At stream 12 := by
  have whole : (tokenize "end, f(1 ^ [-]) =\nfor".toList).toOption.any (fun stream =>
      stream.eof.kind == .eof && stream.tokens.all (·.kind != .eof) &&
        stream.tokens.length == 12 &&
        (outcome (script false) (.ofStream stream)).toOption.any
          (·.2.diagnostics.length == 5)) = true := by
    decide +kernel
  obtain ⟨stream, lexed, whole⟩ := exists_ok_of_any whole
  simp only [Bool.and_eq_true, beq_iff_eq, List.all_eq_true, bne_iff_ne] at whole
  obtain ⟨⟨⟨ends, kinds⟩, length⟩, read⟩ := whole
  obtain ⟨⟨root, t⟩, read, told⟩ := exists_ok_of_any read
  obtain ⟨-, -, -, -, -, -, -, reaches, -⟩ := script_advances false ends kinds
  have place := reaches root t read
  rw [length] at place
  exact ⟨stream, lexed, ends, kinds, root, t, read, beq_iff_eq.mp told, place⟩

end MatrixScript.Grammar
