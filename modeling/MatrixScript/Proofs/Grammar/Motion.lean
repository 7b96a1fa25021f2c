import MatrixScript.Grammar.Statement
import MatrixScript.Proofs.Grammar.Outcome

/-!
Parsers only move forward.

Whatever a parser does, it uses up tokens from the front, remembers the last one it used, and adds
to the problems found. `Forward` is a class, so that this is known of every piece of the grammar and
of whatever is built from the pieces.
-/

set_option autoImplicit false

namespace MatrixScript.Grammar

/-- How a later state follows from an earlier one. -/
structure State.Moves (s t : State) : Prop where
  used : ∃ used, s.rest = used ++ t.rest ∧
    t.previous = (used.getLast?.map PlacedToken.token).or s.previous
  found : ∃ found, t.diagnostics = s.diagnostics ++ found
  eof : t.eof = s.eof

namespace State.Moves

theorem refl (s : State) : s.Moves s :=
  ⟨⟨[], by simp, by simp⟩, ⟨[], by simp⟩, rfl⟩

theorem trans {s t u : State} (first : s.Moves t) (second : t.Moves u) : s.Moves u := by
  obtain ⟨used, rest, previous⟩ := first.used
  obtain ⟨used', rest', previous'⟩ := second.used
  obtain ⟨found, diagnostics⟩ := first.found
  obtain ⟨found', diagnostics'⟩ := second.found
  refine ⟨⟨used ++ used', ?_, ?_⟩, ⟨found ++ found', ?_⟩, second.eof.trans first.eof⟩
  · rw [rest, rest', List.append_assoc]
  · rw [previous', previous, List.getLast?_append]
    cases used'.getLast? <;> simp
  · rw [diagnostics', diagnostics, List.append_assoc]

theorem ends {s t : State} (moves : s.Moves t) (ends : s.eof.kind = .eof) : t.eof.kind = .eof := by
  rw [moves.eof]
  exact ends

theorem length_le {s t : State} (moves : s.Moves t) : t.rest.length ≤ s.rest.length := by
  obtain ⟨used, rest, -⟩ := moves.used
  simp [rest]

theorem diagnostics_ne_nil {s t : State} (moves : s.Moves t) (found : s.diagnostics ≠ []) :
    t.diagnostics ≠ [] := by
  obtain ⟨more, diagnostics⟩ := moves.found
  simp [diagnostics, found]

theorem rest_eq_nil {s t : State} (moves : s.Moves t) (done : s.rest = []) : t.rest = [] := by
  have shorter := moves.length_le
  rw [done] at shorter
  exact List.length_eq_zero_iff.mp (Nat.le_zero.mp shorter)

end State.Moves

section

variable {m : Type → Type} [Monad m] [MonadStateOf State m] [Outcome m] {α β : Type}

/-- A parser that only moves forward. -/
class Forward (f : m α) : Prop where
  moves (s : State) : Gives f s fun _ t => s.Moves t

namespace Forward

instance (a : α) : Forward (pure a : m α) where
  moves s := Gives.pure (.refl s)

instance (f : m α) (g : α → m β) [Forward f] [∀ a, Forward (g a)] : Forward (f >>= g) where
  moves s := (moves s).andThen fun a t first =>
    (moves (f := g a) t).mono fun _ _ second => first.trans second

theorem bind {f : m α} {g : α → m β} [Forward f] (next : ∀ a, Forward (g a)) :
    Forward (f >>= g) := inferInstance

instance : Forward (get : m State) where
  moves s := by
    intro a t yields
    rw [outcome_get, Except.ok.injEq, Prod.mk.injEq] at yields
    rw [← yields.2]
    exact .refl s

instance (h : α → β) (f : m α) [Forward f] : Forward (h <$> f) where
  moves s := Gives.map (moves (f := f) s)

instance (c : Prop) [Decidable c] (f g : m α) [Forward f] [Forward g] :
    Forward (if c then f else g) where
  moves s := .ite (fun _ => moves s) fun _ => moves s

instance (f : Read α) [Forward f] : Forward (liftM f : Parse α) where
  moves s := (moves (f := f) s).lift

instance (step : α → m (Option α)) [∀ value, Forward (step value)] (count : Nat) (value : α) :
    Forward (iterate step count value) where
  moves s := by
    refine Gives.iterate ?_ count (State.Moves.refl s)
    intro value t before
    exact (moves (f := step value) t).mono fun _ _ step => before.trans step

instance (failure : Failure) : Forward (throw failure : Parse α) where
  moves _ := Gives.failing failure

end Forward

end

namespace Forward

instance : Forward advance where
  moves s := by
    intro token t yields
    cases ahead : s.rest with
    | nil =>
      simp only [outcome_read, advance, ahead, Except.ok.injEq, Prod.mk.injEq] at yields
      rw [← yields.2]
      exact .refl s
    | cons placed rest =>
      rw [outcome_advance ahead, Except.ok.injEq, Prod.mk.injEq] at yields
      rw [← yields.2]
      exact ⟨⟨[placed], by simp [ahead], by simp⟩, ⟨[], by simp⟩, rfl⟩

instance (diagnostic : Diagnostic) : Forward (report diagnostic) where
  moves s := by
    intro _ t yields
    rw [outcome_report, Except.ok.injEq, Prod.mk.injEq] at yields
    rw [← yields.2]
    exact ⟨⟨[], rfl, rfl⟩, ⟨[diagnostic], rfl⟩, rfl⟩

instance (test : State → Bool) : Forward (eatIf test) := by
  unfold eatIf
  infer_instance

instance (kind : Kind) : Forward (eat kind) := by
  unfold eat
  infer_instance

instance (word : String) : Forward (eatWord word) := by
  unfold eatWord
  infer_instance

instance : Forward eatSeparator := by
  unfold eatSeparator
  infer_instance

instance (kind : Kind) : Forward (missing kind) := by
  unfold missing
  infer_instance

instance (kind : Kind) : Forward (errorNode kind) := by
  unfold errorNode
  infer_instance

instance (kind : Kind) : Forward (expect kind) := by
  unfold expect
  exact bind fun found => by cases found <;> infer_instance

instance (word : String) : Forward (expectWord word) := by
  unfold expectWord
  exact bind fun found => by cases found <;> infer_instance

instance {α : Type} (step : α → Read (Option α)) [∀ value, Forward (step value)] (value : α) :
    Forward (repeatRead step value) := by
  unfold repeatRead
  infer_instance

instance {α : Type} (step : α → Parse (Option α)) [∀ value, Forward (step value)] (value : α) :
    Forward (repeatParse step value) := by
  unfold repeatParse
  infer_instance

instance (kind : Kind) (read : Read Element) [Forward read] : Forward (progressing kind read) := by
  unfold progressing
  infer_instance

instance (kind : Kind) (parse : Parse Element) [Forward parse] :
    Forward (progressingParse kind parse) := by
  unfold progressingParse
  infer_instance

instance (close : Kind) (item : List Element → Read (List Element))
    [∀ elements, Forward (item elements)] (elements : List Element) :
    Forward (listStep close item elements) := by
  unfold listStep
  infer_instance

instance (close : Kind) (item : List Element → Read (List Element))
    [∀ elements, Forward (item elements)] : Forward (listUntil close item) := by
  unfold listUntil
  infer_instance

instance {α : Type} (extend : α → Token → Token → α) (value : α) :
    Forward (dottedStep extend value) := by
  unfold dottedStep
  infer_instance

instance : Forward compoundName := by
  unfold compoundName
  infer_instance

instance (close : Kind) : Forward (nameItem close) := by
  unfold nameItem
  infer_instance

instance (close : Kind) : Forward (names close) := by
  unfold names
  infer_instance

instance : Forward inputDescription := by
  unfold inputDescription
  infer_instance

instance : Forward outputDescription := by
  unfold outputDescription
  infer_instance

instance : Forward signature := by
  unfold signature
  infer_instance

instance : Forward missingOperand := by
  unfold missingOperand
  infer_instance

section

variable (inner : Inner) [∀ inside floor, Forward (inner inside floor)]

instance (inside : Bool) (floor : Precedence) : Forward (operand inner inside floor) := by
  unfold operand
  infer_instance

instance (inside : Bool) : Forward (rangeEnd inner inside) := by
  unfold rangeEnd
  infer_instance

instance (close : Kind) : Forward (matrixItem inner close) := by
  unfold matrixItem
  infer_instance

instance (kind close : Kind) : Forward (matrix inner kind close) := by
  unfold matrix
  infer_instance

instance (close : Kind) (before : List Element) : Forward (argumentItem inner close before) := by
  unfold argumentItem
  infer_instance

instance (close : Kind) : Forward (arguments inner close) := by
  unfold arguments
  infer_instance

instance (inside : Bool) : Forward (functionHandle inner inside) := by
  unfold functionHandle
  infer_instance

instance (kind : Kind) : Forward (single kind) := by
  unfold single
  infer_instance

instance : Forward (parenthesized inner) := by
  unfold parenthesized
  infer_instance

instance (inside : Bool) : Forward (term inner inside) := by
  unfold term
  exact bind fun state => by split <;> infer_instance

instance (subject : Element) : Forward (memberAccess inner subject) := by
  unfold memberAccess
  infer_instance

instance (method : Element) : Forward (baseClassInvocation method) := by
  unfold baseClassInvocation
  infer_instance

instance (words : List Token) : Forward (commandStep words) := by
  unfold commandStep
  exact bind fun found => by cases found <;> infer_instance

instance (name : Element) : Forward (command name) := by
  unfold command
  infer_instance

instance (inside : Bool) (subject : Element) : Forward (suffixStep inner inside subject) := by
  unfold suffixStep
  refine bind fun state => ?_
  split
  · infer_instance
  · split <;> infer_instance

instance (inside : Bool) : Forward (suffixed inner inside) := by
  unfold suffixed
  infer_instance

instance (inside : Bool) (floor : Precedence) : Forward (prefixed inner inside floor) := by
  unfold prefixed
  infer_instance

instance (inside : Bool) (floor : Precedence) : Forward (signed inner inside floor) := by
  unfold signed
  exact bind fun state => by split <;> infer_instance

instance (inside : Bool) (floor : Precedence) (left : Element) :
    Forward (binaryStep inner inside floor left) := by
  unfold binaryStep
  refine bind fun state => ?_
  split
  · infer_instance
  · split <;> infer_instance

instance (inside : Bool) (floor : Precedence) : Forward (climb inner inside floor) := by
  unfold climb
  infer_instance

end

instance (depth : Nat) (inside : Bool) (floor : Precedence) :
    Forward (expressionWithin depth inside floor) := by
  induction depth generalizing inside floor with
  | zero => exact inferInstanceAs (Forward missingOperand)
  | succ depth ih => exact inferInstanceAs (Forward (climb (expressionWithin depth) inside floor))

instance (inside : Bool) : Forward (expression inside) := by
  unfold expression
  infer_instance

instance (equals : Token) : Forward (attributeAssignment equals) := by
  unfold attributeAssignment
  infer_instance

instance : Forward attributeValue := by
  unfold attributeValue
  exact bind fun found => by cases found <;> infer_instance

instance : Forward classAttribute := by
  unfold classAttribute
  infer_instance

instance : Forward attributeItem := by
  unfold attributeItem
  infer_instance

instance : Forward attributeList := by
  unfold attributeList
  infer_instance

instance (bases : List Element) : Forward (baseClassStep bases) := by
  unfold baseClassStep
  exact bind fun found => by cases found <;> infer_instance

instance : Forward baseClassList := by
  unfold baseClassList
  infer_instance

instance (member : Parse Element) [Forward member] (elements : List Element) :
    Forward (memberStep member elements) := by
  unfold memberStep
  infer_instance

instance (member : Parse Element) [Forward member] : Forward (members member) := by
  unfold members
  infer_instance

instance (other : Parse Element) [Forward other] : Forward (separatorOr other) := by
  unfold separatorOr
  infer_instance

instance (kind : Kind) (items : Parse Element) [Forward items] :
    Forward (memberBlock kind items) := by
  unfold memberBlock
  infer_instance

instance : Forward abstractMethodDeclaration := by
  unfold abstractMethodDeclaration
  infer_instance

instance : Forward event := by
  unfold event
  infer_instance

instance : Forward enumerationValue := by
  unfold enumerationValue
  infer_instance

instance : Forward enumerationItem := by
  unfold enumerationItem
  infer_instance

instance : Forward enumerator := by
  unfold enumerator
  infer_instance

instance (inside : Bool) : Forward (expressionStatement inside) := by
  unfold expressionStatement
  infer_instance

section

variable (block : Parse Element) [Forward block]

instance (kind : Kind) : Forward (functionDeclaration block kind) := by
  unfold functionDeclaration
  infer_instance

instance : Forward (method block) := by
  unfold method
  infer_instance

instance : Forward (classMember block) := by
  unfold classMember
  infer_instance

instance : Forward (classDeclaration block) := by
  unfold classDeclaration
  exact bind fun keyword => bind fun state => by
    split <;> exact bind fun attributes => inferInstance

instance (inside : Bool) : Forward (clause block inside) := by
  unfold clause
  infer_instance

instance : Forward (elseClause block) := by
  unfold elseClause
  exact bind fun found => by cases found <;> infer_instance

instance (inside : Bool) (alternatives : List Element) :
    Forward (elseifStep block inside alternatives) := by
  unfold elseifStep
  infer_instance

instance (inside : Bool) : Forward (ifStatement block inside) := by
  unfold ifStatement
  infer_instance

instance (inside : Bool) (kind : Kind) : Forward (loopStatement block inside kind) := by
  unfold loopStatement
  infer_instance

instance (inside : Bool) : Forward (switchCase block inside) := by
  unfold switchCase
  infer_instance

instance (inside : Bool) (cases : List Element) : Forward (switchStep block inside cases) := by
  unfold switchStep
  infer_instance

instance (inside : Bool) : Forward (switchStatement block inside) := by
  unfold switchStatement
  infer_instance

instance : Forward (catchClause block) := by
  unfold catchClause
  exact bind fun found => by cases found <;> infer_instance

instance : Forward (tryStatement block) := by
  unfold tryStatement
  infer_instance

instance (inside : Bool) : Forward (statement block inside) := by
  unfold statement
  infer_instance

instance (inside : Bool) (scope : Scope) (statements : List Element) :
    Forward (statementStep block inside scope statements) := by
  unfold statementStep
  cases scope <;> infer_instance

instance (inside : Bool) (scope : Scope) : Forward (statementList block inside scope) := by
  unfold statementList
  infer_instance

end

instance (inside : Bool) (depth : Nat) : Forward (blockWithin inside depth) := by
  induction depth with
  | zero => exact inferInstanceAs (Forward (pure (.list []) : Parse Element))
  | succ depth ih =>
    exact inferInstanceAs (Forward (statementList (blockWithin inside depth) inside .block))

end Forward

end MatrixScript.Grammar
