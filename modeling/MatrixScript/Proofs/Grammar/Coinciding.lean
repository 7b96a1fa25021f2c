import MatrixScript.Proofs.Grammar.Progress

/-!
Readers that are told apart only where many tokens are ahead.

Each rule of the grammar takes the readers of what stands inside as arguments, and uses up a token
before it comes to one of them. `Coincide` says that two parsers do the same wherever fewer tokens
than a count are ahead. It is a class, so that it is known of every piece of the grammar with two
such readers inside; and where a token is used up first, it holds with one more token ahead.
-/

set_option autoImplicit false

namespace MatrixScript.Grammar

section

variable {m : Type → Type} [Monad m] [MonadStateOf State m] [Outcome m] {α β : Type}

/-- Two parsers do the same wherever fewer tokens than `count` are ahead. -/
class Coincide (count : Nat) (f f' : m α) : Prop where
  same (s : State) (ends : s.eof.kind = .eof) (short : s.rest.length < count) :
    outcome f s = outcome f' s

theorem Coincide.outcome_eq (count : Nat) (f f' : m α) [Coincide count f f'] {s : State}
    (ends : s.eof.kind = .eof) (short : s.rest.length < count) : outcome f s = outcome f' s :=
  same s ends short

private theorem outcome_bind_congr {count : Nat} {f f' : m α} {g g' : α → m β} {s : State}
    [Forward f]
    (first : outcome f s = outcome f' s) (uses : Uses f s) (ends : s.eof.kind = .eof)
    (short : s.rest.length < count + 1) (next : ∀ a, Coincide count (g a) (g' a)) :
    outcome (f >>= g) s = outcome (f' >>= g') s := by
  rw [outcome_bind, outcome_bind, ← first]
  cases found : outcome f s with
  | error failure => rfl
  | ok result =>
    obtain ⟨a, t⟩ := result
    have moves : s.Moves t := Forward.moves s a t found
    have fewer := uses a t found
    have below : t.rest.length < count := by omega
    exact (next a).same t (moves.ends ends) below

private theorem outcome_advance_congr {count : Nat} {g g' : Token → Read α} {s : State}
    (more : s.rest ≠ []) (ends : s.eof.kind = .eof) (short : s.rest.length < count + 1)
    (next : ∀ token, Coincide count (g token) (g' token)) :
    outcome (advance >>= g) s = outcome (advance >>= g') s :=
  outcome_bind_congr rfl (Uses.advance more) ends short next

namespace Coincide

variable {count : Nat}

instance (f : m α) : Coincide count f f where
  same _ _ _ := rfl

instance (f f' : m α) (g g' : α → m β) [Forward f] [Coincide count f f']
    [∀ a, Coincide count (g a) (g' a)] : Coincide count (f >>= g) (f' >>= g') where
  same s ends short := by
    rw [outcome_bind, outcome_bind, ← outcome_eq count f f' ends short]
    cases found : outcome f s with
    | error failure => rfl
    | ok result =>
      obtain ⟨a, t⟩ := result
      have moves : s.Moves t := Forward.moves s a t found
      have below : t.rest.length < count := Nat.lt_of_le_of_lt moves.length_le short
      exact outcome_eq count (g a) (g' a) (moves.ends ends) below

private theorem bind {f f' : m α} {g g' : α → m β} [Forward f] [Coincide count f f']
    (next : ∀ a, Coincide count (g a) (g' a)) : Coincide count (f >>= g) (f' >>= g') :=
  inferInstance

instance (h : α → β) (f f' : m α) [Coincide count f f'] : Coincide count (h <$> f) (h <$> f') where
  same s ends short := by
    rw [outcome_map, outcome_map, outcome_eq count f f' ends short]

instance (c : Prop) [Decidable c] (f f' g g' : m α) [Coincide count f f'] [Coincide count g g'] :
    Coincide count (if c then f else g) (if c then f' else g') where
  same s ends short := by
    split
    · exact outcome_eq count f f' ends short
    · exact outcome_eq count g g' ends short

instance (f f' : Read α) [Coincide count f f'] :
    Coincide count (liftM f : Parse α) (liftM f') where
  same _ ends short := outcome_eq count f f' ends short

instance (step step' : α → m (Option α)) [∀ value, Forward (step value)]
    [∀ value, Coincide count (step value) (step' value)] (rounds : Nat) (value : α) :
    Coincide count (iterate step rounds value) (iterate step' rounds value) := by
  induction rounds generalizing value with
  | zero => exact inferInstanceAs (Coincide count (pure value) (pure value))
  | succ rounds ih =>
    have next (further : Option α) : Coincide count
        (match further with
          | some further => iterate step rounds further
          | none => (pure value : m α))
        (match further with
          | some further => iterate step' rounds further
          | none => pure value) := by
      cases further <;> infer_instance
    exact inferInstanceAs (Coincide count (step value >>= _) (step' value >>= _))

end Coincide

end

namespace Coincide

variable {count : Nat}

instance {α : Type} (step step' : α → Read (Option α)) [∀ value, Forward (step value)]
    [∀ value, Coincide count (step value) (step' value)] (value : α) :
    Coincide count (repeatRead step value) (repeatRead step' value) := by
  unfold repeatRead
  infer_instance

instance {α : Type} (step step' : α → Parse (Option α)) [∀ value, Forward (step value)]
    [∀ value, Coincide count (step value) (step' value)] (value : α) :
    Coincide count (repeatParse step value) (repeatParse step' value) := by
  unfold repeatParse
  infer_instance

instance (kind : Kind) (read read' : Read Element) [Forward read] [Coincide count read read'] :
    Coincide count (progressing kind read) (progressing kind read') := by
  unfold progressing
  infer_instance

instance (kind : Kind) (parse parse' : Parse Element) [Forward parse]
    [Coincide count parse parse'] :
    Coincide count (progressingParse kind parse) (progressingParse kind parse') := by
  unfold progressingParse
  infer_instance

instance (close : Kind) (item item' : List Element → Read (List Element))
    [∀ elements, Forward (item elements)] [∀ elements, Coincide count (item elements)
    (item' elements)] : Coincide count (listUntil close item) (listUntil close item') := by
  unfold listUntil listStep
  infer_instance

/-! Expressions. -/

section

variable (inner inner' : Inner) [∀ inside floor, Forward (inner inside floor)]
  [∀ inside floor, Coincide count (inner inside floor) (inner' inside floor)]

instance (inside : Bool) (floor : Precedence) :
    Coincide count (operand inner inside floor) (operand inner' inside floor) := by
  unfold operand
  infer_instance

instance (inside : Bool) : Coincide count (rangeEnd inner inside) (rangeEnd inner' inside) := by
  unfold rangeEnd
  infer_instance

instance (close : Kind) : Coincide count (matrixItem inner close) (matrixItem inner' close) := by
  unfold matrixItem
  infer_instance

instance (close : Kind) (before : List Element) :
    Coincide count (argumentItem inner close before) (argumentItem inner' close before) := by
  unfold argumentItem
  infer_instance

instance (close : Kind) :
    Coincide count (Grammar.arguments inner close) (Grammar.arguments inner' close) := by
  unfold Grammar.arguments
  infer_instance

end

/-! Rules that start with a token of their own. -/

section

variable (inner inner' : Inner) [∀ inside floor, Forward (inner inside floor)]
  [∀ inside floor, Coincide count (inner inside floor) (inner' inside floor)] {s : State}
  (more : s.rest ≠ []) (ends : s.eof.kind = .eof) (short : s.rest.length < count + 1)

include more ends short

private theorem matrix (kind close : Kind) :
    outcome (Grammar.matrix inner kind close) s = outcome (Grammar.matrix inner' kind close) s :=
  outcome_advance_congr more ends short fun _ => inferInstance

private theorem arguments (close : Kind) :
    outcome (Grammar.arguments inner close) s = outcome (Grammar.arguments inner' close) s :=
  outcome_advance_congr more ends short fun _ => inferInstance

private theorem functionHandle (inside : Bool) :
    outcome (Grammar.functionHandle inner inside) s =
      outcome (Grammar.functionHandle inner' inside) s :=
  outcome_advance_congr more ends short fun _ => inferInstance

private theorem parenthesized :
    outcome (Grammar.parenthesized inner) s = outcome (Grammar.parenthesized inner') s :=
  outcome_advance_congr more ends short fun _ => inferInstance

private theorem memberAccess (subject : Element) :
    outcome (Grammar.memberAccess inner subject) s =
      outcome (Grammar.memberAccess inner' subject) s :=
  outcome_advance_congr more ends short fun _ => inferInstance

private theorem prefixed (inside : Bool) (floor : Precedence) :
    outcome (Grammar.prefixed inner inside floor) s =
      outcome (Grammar.prefixed inner' inside floor) s :=
  outcome_advance_congr more ends short fun _ => inferInstance

end

/-! So expressions are alike with one more token ahead. -/

section

variable (inner inner' : Inner) [∀ inside floor, Forward (inner inside floor)]
  [∀ inside floor, Coincide count (inner inside floor) (inner' inside floor)]

instance (inside : Bool) : Coincide (count + 1) (term inner inside) (term inner' inside) where
  same s ends short := by
    have more {kind : Kind} (here : s.currentKind = kind) (other : kind ≠ .eof) : s.rest ≠ [] :=
      State.more_of_currentKind ends here other
    unfold term
    rw [outcome_get_bind, outcome_get_bind]
    split
    case h_6 here => exact matrix inner inner' (more here (by decide)) ends short _ _
    case h_7 here => exact matrix inner inner' (more here (by decide)) ends short _ _
    case h_8 here => exact parenthesized inner inner' (more here (by decide)) ends short
    case h_9 here => exact functionHandle inner inner' (more here (by decide)) ends short inside
    all_goals rfl

instance (inside : Bool) (subject : Element) :
    Coincide (count + 1) (suffixStep inner inside subject) (suffixStep inner' inside subject) where
  same s ends short := by
    have more {kind : Kind} (here : s.currentKind = kind) (other : kind ≠ .eof) : s.rest ≠ [] :=
      State.more_of_currentKind ends here other
    have call {kind : Kind} (here : s.currentKind = kind) (other : kind ≠ .eof) (close : Kind)
        (next : List Element → Read (Option Element)) :
        outcome (Grammar.arguments inner close >>= next) s =
          outcome (Grammar.arguments inner' close >>= next) s := by
      rw [outcome_bind, outcome_bind, arguments inner inner' (more here other) ends short]
    unfold suffixStep
    rw [outcome_get_bind, outcome_get_bind]
    split
    · rfl
    dsimp only
    split
    case h_1 here =>
      split
      · rfl
      · exact call here (by decide) _ _
    case h_2 here =>
      split
      · rfl
      · exact call here (by decide) _ _
    case h_3 here =>
      rw [outcome_map, outcome_map,
        memberAccess inner inner' (more here (by decide)) ends short subject]
    all_goals rfl

instance (inside : Bool) : Coincide (count + 1) (suffixed inner inside) (suffixed inner' inside) := by
  unfold suffixed
  infer_instance

instance (inside : Bool) (floor : Precedence) :
    Coincide (count + 1) (signed inner inside floor) (signed inner' inside floor) where
  same s ends short := by
    have more {kind : Kind} (here : s.currentKind = kind) (other : kind ≠ .eof) : s.rest ≠ [] :=
      State.more_of_currentKind ends here other
    have sign {kind : Kind} (here : s.currentKind = kind) (other : kind ≠ .eof) :=
      prefixed inner inner' (more here other) ends short inside floor
    unfold signed
    rw [outcome_get_bind, outcome_get_bind]
    split
    case h_1 here => exact sign here (by decide)
    case h_2 here => exact sign here (by decide)
    case h_3 here => exact sign here (by decide)
    case h_4 here =>
      exact outcome_advance_congr (more here (by decide)) ends short fun _ => inferInstance
    case h_5 => exact outcome_eq (count + 1) _ _ ends short

instance (inside : Bool) (floor : Precedence) (left : Element) :
    Coincide (count + 1) (binaryStep inner inside floor left)
      (binaryStep inner' inside floor left) where
  same s ends short := by
    unfold binaryStep
    rw [outcome_get_bind, outcome_get_bind]
    split
    · rfl
    split
    · rfl
    · rename_i precedence operator
      have more : s.rest ≠ [] := by
        intro done
        rw [State.currentKind_of_done ends done] at operator
        cases operator
      split
      · rfl
      · exact outcome_advance_congr more ends short fun _ => inferInstance

/-- An operator precedence climber uses up a token before it comes to an inner expression. -/
instance (inside : Bool) (floor : Precedence) :
    Coincide (count + 1) (climb inner inside floor) (climb inner' inside floor) := by
  unfold climb
  infer_instance

end

/-! Statements. -/

section

variable (block block' : Parse Element) [Forward block] [Coincide count block block']

instance (kind : Kind) :
    Coincide count (functionDeclaration block kind) (functionDeclaration block' kind) := by
  unfold functionDeclaration
  infer_instance

instance (other other' : Parse Element) [Coincide count other other'] :
    Coincide count (separatorOr other) (separatorOr other') := by
  unfold separatorOr
  infer_instance

instance : Coincide count (method block) (method block') := by
  unfold method
  infer_instance

instance (member member' : Parse Element) [Forward member] [Coincide count member member'] :
    Coincide count (members member) (members member') := by
  unfold members memberStep
  infer_instance

instance (kind : Kind) (items items' : Parse Element) [Forward items]
    [Coincide count items items'] :
    Coincide count (memberBlock kind items) (memberBlock kind items') := by
  unfold memberBlock
  infer_instance

instance : Coincide count (classMember block) (classMember block') := by
  unfold classMember
  infer_instance

instance (inside : Bool) : Coincide count (clause block inside) (clause block' inside) := by
  unfold clause
  infer_instance

instance : Coincide count (elseClause block) (elseClause block') := by
  unfold elseClause
  exact bind fun found => by cases found <;> infer_instance

instance (inside : Bool) (alternatives : List Element) :
    Coincide count (elseifStep block inside alternatives)
      (elseifStep block' inside alternatives) := by
  unfold elseifStep
  infer_instance

instance (inside : Bool) :
    Coincide count (switchCase block inside) (switchCase block' inside) := by
  unfold switchCase
  infer_instance

instance (inside : Bool) (cases : List Element) :
    Coincide count (switchStep block inside cases) (switchStep block' inside cases) := by
  unfold switchStep
  infer_instance

instance : Coincide count (catchClause block) (catchClause block') := by
  unfold catchClause
  exact bind fun found => by cases found <;> infer_instance

end

/-! Statements that start with a word use it up before they come to a block. -/

section

variable (block block' : Parse Element) [Forward block] [Coincide count block block'] {s : State}
  (more : s.rest ≠ []) (ends : s.eof.kind = .eof) (short : s.rest.length < count + 1)

include more ends short

private theorem word {g g' : Token → Parse Element}
    (next : ∀ token, Coincide count (g token) (g' token)) :
    outcome ((liftM advance : Parse Token) >>= g) s =
      outcome ((liftM advance : Parse Token) >>= g') s :=
  outcome_bind_congr rfl (Uses.advance more).lift ends short next

private theorem head (inside : Bool) {g g' : List (Option Element) → Parse Element}
    (next : ∀ slots, Coincide count (g slots) (g' slots)) :
    outcome (clause block inside >>= g) s = outcome (clause block' inside >>= g') s := by
  refine outcome_bind_congr ?_ (Uses.clause block more inside) ends short next
  exact outcome_bind_congr rfl (Uses.advance more).lift ends short fun _ => inferInstance

private theorem declaration (kind : Kind) :
    outcome (functionDeclaration block kind) s = outcome (functionDeclaration block' kind) s :=
  word more ends short fun _ => inferInstance

private theorem classDeclaration :
    outcome (Grammar.classDeclaration block) s = outcome (Grammar.classDeclaration block') s :=
  word more ends short fun keyword => bind fun state => by
    split <;> exact bind fun attributes => bind fun name => bind fun state => inferInstance

private theorem switchStatement (inside : Bool) :
    outcome (Grammar.switchStatement block inside) s =
      outcome (Grammar.switchStatement block' inside) s :=
  word more ends short fun _ => inferInstance

private theorem tryStatement :
    outcome (Grammar.tryStatement block) s = outcome (Grammar.tryStatement block') s :=
  word more ends short fun _ => inferInstance

private theorem ifStatement (inside : Bool) :
    outcome (Grammar.ifStatement block inside) s = outcome (Grammar.ifStatement block' inside) s :=
  head block block' more ends short inside fun _ => inferInstance

private theorem loopStatement (inside : Bool) (kind : Kind) :
    outcome (Grammar.loopStatement block inside kind) s =
      outcome (Grammar.loopStatement block' inside kind) s :=
  head block block' more ends short inside fun _ => inferInstance

end

/-! So lists of statements are alike with one more token ahead. -/

section

variable (block block' : Parse Element) [Forward block] [Coincide count block block']

instance (inside : Bool) :
    Coincide (count + 1) (statement block inside) (statement block' inside) where
  same s ends short := by
    have more {name : String} (here : s.isAtWord name = true) : s.rest ≠ [] :=
      State.more_of_isAtWord ends here
    unfold statement
    rw [outcome_get_bind, outcome_get_bind]
    split
    · exact declaration block block' (more ‹_›) ends short _
    split
    · exact classDeclaration block block' (more ‹_›) ends short
    split
    · exact switchStatement block block' (more ‹_›) ends short inside
    split
    · exact loopStatement block block' (more ‹_›) ends short inside _
    split
    · exact ifStatement block block' (more ‹_›) ends short inside
    split
    · rename_i here
      have either : s.rest ≠ [] := by
        rw [Bool.or_eq_true] at here
        exact here.elim more more
      exact loopStatement block block' either ends short inside _
    split
    · exact tryStatement block block' (more ‹_›) ends short
    · rfl

instance (inside : Bool) (scope : Scope) (statements : List Element) :
    Coincide (count + 1) (statementStep block inside scope statements)
      (statementStep block' inside scope statements) := by
  unfold statementStep
  cases scope <;> infer_instance

/-- A list of statements uses up a token before it comes to a block. -/
instance (inside : Bool) (scope : Scope) :
    Coincide (count + 1) (statementList block inside scope)
      (statementList block' inside scope) := by
  unfold statementList
  infer_instance

end

end Coincide

end MatrixScript.Grammar
