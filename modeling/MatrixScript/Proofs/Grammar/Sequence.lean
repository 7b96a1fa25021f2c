import MatrixScript.Proofs.Grammar.Progress

/-!
The statements of a script one after another.

The statements already read are kept in front and have no part in reading the next one, and neither
has the token used last. So what follows a statement can be read from a state of its own.
-/

set_option autoImplicit false

namespace MatrixScript.Grammar

section

variable {m : Type → Type} [Monad m] [MonadStateOf State m] [Outcome m] {α β : Type} {s : State}

def Blind (f : m α) (s : State) : Prop :=
  ∀ previous, outcome f { s with previous := previous } = outcome f s

namespace Blind

private theorem andThen {f : m α} {g : α → m β} (first : Blind f s) : Blind (f >>= g) s := by
  intro previous
  rw [outcome_bind, outcome_bind, first previous]

private theorem get {g : State → m β}
    (next : ∀ previous,
      outcome (g { s with previous := previous }) { s with previous := previous } =
        outcome (g s) s) : Blind (MonadState.get >>= g) s := by
  intro previous
  rw [outcome_bind, outcome_bind, outcome_get, outcome_get]
  exact next previous

private theorem lift {f : Read α} (first : Blind f s) : Blind (liftM f : Parse α) s := first

private theorem advance (more : s.rest ≠ []) : Blind Grammar.advance s := by
  obtain ⟨placed, rest, ahead⟩ := List.exists_cons_of_ne_nil more
  intro previous
  rw [outcome_advance ahead]
  exact outcome_advance ahead

private theorem report {diagnostic : Diagnostic} {g : Unit → Read β}
    (next : Blind (g ()) { s with diagnostics := s.diagnostics ++ [diagnostic] }) :
    Blind (Grammar.report diagnostic >>= g) s := fun previous => next previous

private theorem errorNode (more : s.rest ≠ []) (expected : Kind) :
    Blind (Grammar.errorNode expected) s := by
  have token (diagnostics : List Diagnostic) :
      Blind Grammar.advance { s with diagnostics := diagnostics } := advance more
  exact get fun previous => (report (token _).andThen) previous

end Blind

end

section

variable {s : State} {block : Parse Element}

private theorem Blind.signed {inner : Inner} {inside : Bool} {floor : Precedence}
    (more : s.rest ≠ [])
    (first : s.isAtAny expressionFirst = true) : Blind (Grammar.signed inner inside floor) s := by
  refine Blind.get fun previous => ?_
  have same : State.currentKind { s with previous := previous } = s.currentKind := rfl
  have operator : Blind (prefixed inner inside floor) s := (Blind.advance more).andThen
  rw [same]
  split
  case h_1 => exact operator previous
  case h_2 => exact operator previous
  case h_3 => exact operator previous
  case h_4 => exact (Blind.advance more).andThen previous
  case h_5 plus minus tilde colon =>
    have term : Blind (term inner inside) s := by
      refine Blind.get fun previous => ?_
      have same : State.currentKind { s with previous := previous } = s.currentKind := rfl
      have token (kind : Kind) : Blind (single kind) s := (Blind.advance more).andThen
      have list (kind close : Kind) : Blind (matrix inner kind close) s :=
        (Blind.advance more).andThen
      rw [same]
      split
      case h_1 => exact token _ previous
      case h_2 => exact token _ previous
      case h_3 => exact token _ previous
      case h_4 => exact token _ previous
      case h_5 => exact token _ previous
      case h_6 => exact list _ _ previous
      case h_7 => exact list _ _ previous
      case h_8 => exact (Blind.advance more).andThen previous
      case h_9 => exact (Blind.advance more).andThen previous
      case h_10 =>
        simp only [State.isAtAny, expressionFirst, KindSet.contains_ofList, List.contains_cons,
          List.contains_nil, Bool.or_false, Bool.or_eq_true, beq_iff_eq] at first
        simp_all
    exact term.andThen previous

private theorem Blind.expressionWithin {depth : Nat} {inside : Bool} {floor : Precedence}
    (more : s.rest ≠ []) (first : s.isAtAny expressionFirst = true) :
    Blind (Grammar.expressionWithin (depth + 1) inside floor) s :=
  (Blind.signed more first).andThen

private theorem Blind.expressionStatement {inside : Bool} (more : s.rest ≠ [])
    (first : s.isAtAny expressionFirst = true) : Blind (Grammar.expressionStatement inside) s := by
  have body : Blind (expression inside) s :=
    Blind.get fun previous => Blind.expressionWithin more first previous
  exact body.andThen

private theorem Blind.statement {inside : Bool} (more : s.rest ≠ [])
    (first : s.isAtSeparator = true ∨ s.isAtAny expressionFirst = true) :
    Blind (Grammar.statement block inside) s := by
  have word {α : Type} (g : Token → Parse α) :
      Blind ((liftM Grammar.advance : Parse Token) >>= g) s := (Blind.advance more).lift.andThen
  refine Blind.get fun previous => ?_
  have same (name : String) :
      State.isAtWord { s with previous := previous } name = s.isAtWord name := rfl
  have separator : State.isAtSeparator { s with previous := previous } = s.isAtSeparator := rfl
  simp only [same, separator]
  split
  · exact word _ previous
  split
  · exact word _ previous
  split
  · exact word _ previous
  split
  · exact (word _).andThen previous
  split
  · exact (word _).andThen previous
  split
  · exact (word _).andThen previous
  split
  · exact word _ previous
  split
  · exact word _ previous
  · rename_i other
    have here : s.isAtAny expressionFirst = true := first.resolve_left other
    exact (Blind.expressionStatement more here).lift previous

private theorem Blind.statementStep {inside : Bool} {statements : List Element}
    (ends : s.eof.kind = .eof) (notEnd : ¬s.isAtEnd = true) :
    Blind (Grammar.statementStep block inside .script statements) s := by
  have more := State.more_of_not_isAtEnd ends notEnd
  have error (expected : Kind) (g : Element → Parse (Option (List Element))) :
      Blind ((liftM (Grammar.errorNode expected) : Parse Element) >>= g) s :=
    (Blind.errorNode more expected).lift.andThen
  refine Blind.get fun previous => ?_
  have ended : State.isAtEnd { s with previous := previous } = s.isAtEnd := rfl
  have terminator : State.isAtTerminator { s with previous := previous } = s.isAtTerminator := rfl
  have separator : State.isAtSeparator { s with previous := previous } = s.isAtSeparator := rfl
  have first (kinds : KindSet) :
      State.isAtAny { s with previous := previous } kinds = s.isAtAny kinds := rfl
  simp only [ended, terminator, separator, first]
  rw [if_neg notEnd]
  split
  · exact error _ _ previous
  split
  · exact error _ _ previous
  · rename_i here
    have start : s.isAtSeparator = true ∨ s.isAtAny expressionFirst = true := by
      cases separated : s.isAtSeparator <;> simp_all
    have progress : Blind (progressingParse .identifier (Grammar.statement block inside)) s :=
      Blind.get fun previous => (Blind.statement more start).andThen previous
    exact progress.andThen previous

theorem Blind.script {inside : Bool} (ends : s.eof.kind = .eof) (notEnd : ¬s.isAtEnd = true) :
    Blind (repeatParse (Grammar.statementStep block inside .script) []) s := by
  refine Blind.get fun previous => ?_
  obtain ⟨placed, rest, ahead⟩ :=
    List.exists_cons_of_ne_nil (State.more_of_not_isAtEnd ends notEnd)
  simp only [ahead, List.length_cons, iterate]
  rw [← ahead]
  exact (Blind.statementStep ends notEnd).andThen previous

private theorem outcome_bind_pure {α β : Type} (f : Parse α) (h : α → β) (s : State) :
    outcome (f >>= fun a => pure (h a)) s =
      (outcome f s).map fun result => (h result.1, result.2) := by
  rw [outcome_bind]
  cases outcome f s with
  | error failure => rfl
  | ok result => rfl

private theorem outcome_statementStep_append (inside : Bool) (scope : Scope)
    (before statements : List Element) (s : State) :
    outcome (statementStep block inside scope (before ++ statements)) s =
      (outcome (statementStep block inside scope statements) s).map fun result =>
        (result.1.map (before ++ ·), result.2) := by
  have one {α : Type} (f : Parse α) (h : α → List Element) :
      outcome (f >>= fun a => pure (some (before ++ statements ++ h a))) s =
        (outcome (f >>= fun a => pure (some (statements ++ h a))) s).map fun result =>
          (result.1.map (before ++ ·), result.2) := by
    rw [outcome_bind_pure, outcome_bind_pure]
    cases outcome f s with
    | error failure => rfl
    | ok result => simp [Except.map]
  unfold statementStep
  rw [outcome_bind, outcome_bind, outcome_get]
  simp only [Except.bind]
  split
  · rfl
  split
  · cases scope with
    | block => rfl
    | script => exact one _ fun error => [error]
  split
  · exact one _ fun error => [error]
  · exact one _ id

theorem outcome_iterate_append (inside : Bool) (scope : Scope) (count : Nat)
    (before statements : List Element) (s : State) :
    outcome (iterate (statementStep block inside scope) count (before ++ statements)) s =
      (outcome (iterate (statementStep block inside scope) count statements) s).map fun result =>
        (before ++ result.1, result.2) := by
  induction count generalizing statements s with
  | zero => rfl
  | succ count ih =>
    simp only [iterate, outcome_bind, outcome_statementStep_append]
    cases outcome (statementStep block inside scope statements) s with
    | error failure => rfl
    | ok result =>
      obtain ⟨further, t⟩ := result
      cases further with
      | none => rfl
      | some further => exact ih further t

theorem statementStep_adds (inside : Bool) (scope : Scope) (statements : List Element) (s : State) :
    Gives (statementStep block inside scope statements) s fun further _ =>
      ∀ element ∈ statements, element ∈ further.getD statements := by
  intro further t yields
  have added := @outcome_statementStep_append block inside scope statements [] s
  rw [List.append_nil, yields] at added
  cases found : outcome (statementStep block inside scope []) s with
  | error failure => simp [found, Except.map] at added
  | ok result =>
    simp only [found, Except.map, Except.ok.injEq, Prod.mk.injEq] at added
    rw [added.1]
    cases result.1 with
    | none => simp
    | some further => simp +contextual

theorem statementStep_goesOn {inside : Bool} {statements : List Element}
    (notEnd : ¬s.isAtEnd = true) :
    Gives (statementStep block inside .script statements) s fun further _ => further.isSome := by
  unfold statementStep
  refine Gives.get (Gives.ite (fun here => absurd here notEnd) fun _ => ?_)
  have one {α : Type} (f : Parse α) (h : α → List Element) :
      Gives (f >>= fun a => pure (some (h a))) s fun further _ => further.isSome := by
    intro further t yields
    rw [outcome_bind_pure] at yields
    cases found : outcome f s with
    | error failure => simp [found, Except.map] at yields
    | ok result =>
      simp only [found, Except.map, Except.ok.injEq, Prod.mk.injEq] at yields
      rw [← yields.1]
      rfl
  refine Gives.ite (fun _ => ?_) fun _ => Gives.ite (fun _ => ?_) fun _ => ?_
  · exact one _ _
  · exact one _ _
  · exact one _ _

theorem State.not_isAtEnd (kinds : ∀ placed ∈ s.rest, placed.kind ≠ .eof) (more : s.rest ≠ []) :
    ¬s.isAtEnd = true := by
  obtain ⟨placed, rest, ahead⟩ := List.exists_cons_of_ne_nil more
  have kind := kinds placed (by simp [ahead])
  simp [isAtEnd, isAt, currentKind, current, ahead, kind]

/-- The statements of a script go on to the end of the text. -/
theorem script_finishes [Forward block] {inside : Bool} (ends : s.eof.kind = .eof)
    (kinds : ∀ placed ∈ s.rest, placed.kind ≠ .eof) :
    Gives (repeatParse (statementStep block inside .script) []) s fun _ t => t.rest = [] := by
  have steady := Steady.statementStep block inside .script
  refine Gives.get (Gives.finished steady ends (fun statements t moves => ?_) (Nat.le_refl _) [])
  obtain ⟨used, rest, -⟩ := moves.used
  by_cases done : t.rest = []
  · exact (Forward.moves t).mono fun _ u moves _ => moves.rest_eq_nil done
  · have later : ∀ placed ∈ t.rest, placed.kind ≠ .eof := fun placed member =>
      kinds placed (by simp [rest, member])
    have notEnd := State.not_isAtEnd later done
    refine (statementStep_goesOn notEnd).mono fun further u goesOn stops => ?_
    rw [stops] at goesOn
    exact absurd goesOn Bool.false_ne_true

private theorem outcome_expect_eof (ends : s.eof.kind = .eof) (done : s.rest = []) :
    outcome (expect .eof) s = .ok (s.eof.token, s) := by
  rw [outcome_expect_of_true (State.isAtEnd_of_done ends done), outcome_read, advance, done]

/-- The statements of a script in which blocks nest less deeply than `depth`. -/
def scriptStatements (inside : Bool) (depth : Nat) : Parse (List Element) :=
  repeatParse (statementStep (blockWithin inside depth) inside .script) []

instance (inside : Bool) (depth : Nat) : Forward (scriptStatements inside depth) :=
  inferInstanceAs (Forward (repeatParse _ _))

/-- A script is its statements and the token at its end. -/
theorem outcome_script (inside : Bool) (ends : s.eof.kind = .eof)
    (kinds : ∀ placed ∈ s.rest, placed.kind ≠ .eof) :
    outcome (script inside) s =
      (outcome (scriptStatements inside (s.rest.length + 1)) s).map fun result =>
        (.ofChildren .file [.list result.1, .leaf s.eof.token], result.2) := by
  unfold script statementList
  rw [outcome_bind, outcome_get]
  simp only [Except.bind]
  rw [outcome_bind, outcome_bind_pure, ← scriptStatements]
  cases found : outcome (scriptStatements inside (s.rest.length + 1)) s with
  | error failure => rfl
  | ok result =>
    obtain ⟨statements, t⟩ := result
    have done : t.rest = [] := script_finishes ends kinds statements t found
    have moves : s.Moves t := Forward.moves s statements t found
    have ends := moves.ends ends
    simp only [Except.map, Except.bind, outcome_bind, outcome_lift, outcome_expect_eof ends done,
      outcome_pure, moves.eof]

end

end MatrixScript.Grammar
