import MatrixScript.Proofs.Grammar.Motion

/-!
Loops of the grammar make progress.

A round of a loop that goes on uses up a token, and at the end of the text it stops. So the bound on
the number of rounds never cuts a loop short, and any larger bound does the same.
-/

set_option autoImplicit false

namespace MatrixScript.Grammar

namespace State

theorem currentKind_of_done {s : State} (ends : s.eof.kind = .eof) (done : s.rest = []) :
    s.currentKind = .eof := by
  simp [currentKind, current, done, ends]

theorem isAt_of_done {s : State} (ends : s.eof.kind = .eof) (done : s.rest = []) {kind : Kind}
    (other : kind ≠ .eof) : s.isAt kind = false := by
  simp [isAt, currentKind_of_done ends done, other.symm]

theorem isAtEnd_of_done {s : State} (ends : s.eof.kind = .eof) (done : s.rest = []) :
    s.isAtEnd = true := by
  simp [isAtEnd, isAt, currentKind_of_done ends done]

theorem isAtSeparator_of_done {s : State} (ends : s.eof.kind = .eof) (done : s.rest = []) :
    s.isAtSeparator = false := by
  simp [isAtSeparator, isAt_of_done ends done]

theorem isAtWord_of_other {s : State} (other : s.currentKind ≠ .identifier) (word : String) :
    s.isAtWord word = false := by
  have kind : (s.current.token.kind == Kind.identifier) = false := by
    simpa [currentKind, PlacedToken.kind] using other
  simp [isAtWord, Token.isWord, kind]

theorem isAtWord_of_done {s : State} (ends : s.eof.kind = .eof) (done : s.rest = [])
    (word : String) : s.isAtWord word = false :=
  isAtWord_of_other (by simp [currentKind_of_done ends done]) word

theorem more_of_isAt {s : State} (ends : s.eof.kind = .eof) {kind : Kind}
    (here : s.isAt kind = true) (other : kind ≠ .eof) : s.rest ≠ [] := by
  intro done
  rw [isAt_of_done ends done other] at here
  exact Bool.false_ne_true here

theorem more_of_currentKind {s : State} (ends : s.eof.kind = .eof) {kind : Kind}
    (here : s.currentKind = kind) (other : kind ≠ .eof) : s.rest ≠ [] :=
  more_of_isAt ends (show s.isAt kind = true by simp [isAt, here]) other

theorem more_of_isAtWord {s : State} (ends : s.eof.kind = .eof) {word : String}
    (here : s.isAtWord word = true) : s.rest ≠ [] := by
  intro done
  rw [isAtWord_of_done ends done] at here
  exact Bool.false_ne_true here

theorem more_of_isAtSeparator {s : State} (ends : s.eof.kind = .eof)
    (here : s.isAtSeparator = true) : s.rest ≠ [] := by
  intro done
  rw [isAtSeparator_of_done ends done] at here
  exact Bool.false_ne_true here

theorem more_of_not_isAtEnd {s : State} (ends : s.eof.kind = .eof)
    (here : ¬s.isAtEnd = true) : s.rest ≠ [] :=
  fun done => here (isAtEnd_of_done ends done)

/-- A dot and a name are two tokens. -/
theorem two_of_isAtDottedName {s : State} (ends : s.eof.kind = .eof)
    (here : s.isAtDottedName = true) : ∃ dot name rest, s.rest = dot :: name :: rest := by
  simp only [isAtDottedName, Bool.and_eq_true, beq_iff_eq] at here
  obtain ⟨⟨dot, name⟩, -⟩ := here
  cases ahead : s.rest with
  | nil => exact absurd ahead (more_of_isAt ends dot (by decide))
  | cons first rest =>
    cases rest with
    | nil => simp [nextKind, ahead, ends] at name
    | cons second rest => exact ⟨first, second, rest, rfl⟩

end State

section

variable {m : Type → Type} [Monad m] [MonadStateOf State m] [Outcome m] {α β : Type}

def Uses (f : m α) (s : State) : Prop := Gives f s fun _ t => t.rest.length < s.rest.length

namespace Uses

variable {s : State}

theorem andThen {f : m α} {g : α → m β} (first : Uses f s) [∀ a, Forward (g a)] :
    Uses (f >>= g) s := by
  refine Gives.andThen first fun a t shorter => ?_
  refine (Forward.moves (f := g a) t).mono fun b u moves => ?_
  have := moves.length_le
  omega

private theorem after {f : m α} {g : α → m β} (first : Gives f s fun _ t => t.rest = s.rest)
    (next : ∀ a t, t.rest = s.rest → Uses (g a) t) : Uses (f >>= g) s := by
  refine Gives.andThen first fun a t same => ?_
  have shorter := next a t same
  rw [Uses, same] at shorter
  exact shorter

private theorem map {f : m α} {h : α → β} (first : Uses f s) : Uses (h <$> f) s := Gives.map first

theorem lift {f : Read α} (first : Uses f s) : Uses (liftM f : Parse α) s := first

theorem advance (more : s.rest ≠ []) : Uses Grammar.advance s := by
  obtain ⟨placed, rest, ahead⟩ := List.exists_cons_of_ne_nil more
  intro token t yields
  rw [outcome_advance ahead, Except.ok.injEq, Prod.mk.injEq] at yields
  rw [← yields.2]
  simp [ahead]

private theorem errorNode (more : s.rest ≠ []) (expected : Kind) :
    Uses (Grammar.errorNode expected) s := by
  have told (diagnostic : Diagnostic) : Gives (report diagnostic) s fun _ t => t.rest = s.rest := by
    intro _ t yields
    rw [outcome_report, Except.ok.injEq, Prod.mk.injEq] at yields
    rw [← yields.2]
  unfold Grammar.errorNode
  refine Gives.get (after (told _) fun _ t same => ?_)
  exact (advance (by rw [same]; exact more)).andThen

private theorem progressing (more : s.rest ≠ []) (expected : Kind) (read : Read Element)
    [Forward read] :
    Uses (Grammar.progressing expected read) s := by
  unfold Grammar.progressing
  refine Gives.get ((Forward.moves (f := read) s).andThen fun element t moves => Gives.get ?_)
  have shorter := moves.length_le
  refine Gives.ite (fun same => ?_) fun other => Gives.pure (by omega)
  have left : t.rest ≠ [] := by
    rw [← List.length_pos_iff, same, List.length_pos_iff]
    exact more
  have step := errorNode left expected
  rw [Uses, same] at step
  exact step.andThen fun error u shorter => Gives.pure shorter

private theorem progressingParse (more : s.rest ≠ []) (expected : Kind) (parse : Parse Element)
    [Forward parse] : Uses (Grammar.progressingParse expected parse) s := by
  unfold Grammar.progressingParse
  refine Gives.get ((Forward.moves (f := parse) s).andThen fun element t moves => Gives.get ?_)
  have shorter := moves.length_le
  refine Gives.ite (fun same => ?_) fun other => Gives.pure (by omega)
  have left : t.rest ≠ [] := by
    rw [← List.length_pos_iff, same, List.length_pos_iff]
    exact more
  have step := (errorNode left expected).lift
  rw [Uses, same] at step
  exact step.andThen fun error u shorter => Gives.pure shorter

private theorem round {f : m (Option α)} (uses : Uses f s) :
    Gives f s fun further t => further.isSome → t.rest.length < s.rest.length :=
  uses.mono fun _ _ shorter _ => shorter

private theorem eatIf {test : State → Bool} (more : test s = true → s.rest ≠ []) :
    Gives (Grammar.eatIf test) s fun found t => found.isSome → t.rest.length < s.rest.length :=
  Gives.eatIf (fun here => (advance (more here)).mono fun _ _ shorter _ => shorter)
    fun _ => by simp

private theorem eat {kind : Kind} (ends : s.eof.kind = .eof) (other : kind ≠ .eof) :
    Gives (Grammar.eat kind) s fun found t => found.isSome → t.rest.length < s.rest.length :=
  eatIf fun here => State.more_of_isAt ends here other

theorem eatWord {word : String} (ends : s.eof.kind = .eof) :
    Gives (Grammar.eatWord word) s fun found t => found.isSome → t.rest.length < s.rest.length :=
  eatIf fun here => State.more_of_isAtWord ends here

private theorem expect {kind : Kind} (here : s.isAt kind = true) (more : s.rest ≠ []) :
    Uses (Grammar.expect kind) s := by
  intro token t yields
  rw [outcome_expect_of_true here] at yields
  exact advance more token t yields

end Uses

private theorem outcome_eat_of_done {s : State} (ends : s.eof.kind = .eof) (done : s.rest = [])
    (kind : Kind) (other : kind ≠ .eof) : outcome (eat kind) s = .ok (none, s) :=
  outcome_eatIf_of_false (State.isAt_of_done ends done other)

/-- The rounds of a loop that use up a token each and stop at the end of the text. -/
structure Steady (step : α → m (Option α)) : Prop where
  uses : ∀ value s, s.eof.kind = .eof →
    Gives (step value) s fun further t => further.isSome → t.rest.length < s.rest.length
  stops : ∀ value s, s.eof.kind = .eof → s.rest = [] → outcome (step value) s = .ok (none, s)

/-- Two bounds on the rounds of a loop agree once both cover the tokens ahead. -/
theorem iterate_enough {step : α → m (Option α)} (steady : Steady step)
    [∀ value, Forward (step value)] {count other : Nat} {s : State} (ends : s.eof.kind = .eof)
    (enough : s.rest.length ≤ count) (enough' : s.rest.length ≤ other) (value : α) :
    outcome (iterate step count value) s = outcome (iterate step other value) s := by
  induction count generalizing other value s with
  | zero =>
    have done : s.rest = [] := List.length_eq_zero_iff.mp (Nat.le_zero.mp enough)
    cases other with
    | zero => rfl
    | succ other =>
      simp only [iterate, outcome_bind, steady.stops value s ends done, Except.bind]
  | succ count ih =>
    cases other with
    | zero =>
      have done : s.rest = [] := List.length_eq_zero_iff.mp (Nat.le_zero.mp enough')
      simp only [iterate, outcome_bind, steady.stops value s ends done, Except.bind]
    | succ other =>
      simp only [iterate, outcome_bind]
      cases found : outcome (step value) s with
      | error failure => rfl
      | ok result =>
        obtain ⟨further, t⟩ := result
        cases further with
        | none => rfl
        | some further =>
          have shorter := steady.uses value s ends _ _ found rfl
          have moves := Forward.moves (f := step value) s _ _ found
          exact ih (s := t) (moves.ends ends) (by omega) (by omega) further

/-- A loop whose first round gives nothing further ends at once. -/
theorem outcome_repeat_stop {step : α → m (Option α)} {value : α} {s : State}
    (round : outcome (step value) s = .ok (none, s)) :
    outcome (MonadState.get >>= fun state : State => iterate step state.rest.length value) s =
      .ok (value, s) := by
  rw [outcome_bind, outcome_get, Except.bind]
  cases s.rest.length with
  | zero => exact outcome_pure value s
  | succ count =>
    rw [outcome_iterate_succ round count]
    exact outcome_pure value s

/-- A loop whose first round gives something goes on from it. -/
theorem outcome_repeat_step {step : α → m (Option α)} (steady : Steady step)
    [∀ value, Forward (step value)] {value further : α} {s t : State} (ends : s.eof.kind = .eof)
    (round : outcome (step value) s = .ok (some further, t)) :
    outcome (MonadState.get >>= fun state : State => iterate step state.rest.length value) s =
      outcome (MonadState.get >>= fun state : State => iterate step state.rest.length further)
        t := by
  have shorter := steady.uses value s ends _ _ round rfl
  have moves := Forward.moves (f := step value) s _ _ round
  obtain ⟨count, bound⟩ := Nat.exists_eq_succ_of_ne_zero (n := s.rest.length) (by omega)
  rw [outcome_bind, outcome_get, outcome_bind, outcome_get]
  simp only [Except.bind]
  rw [bound, outcome_iterate_succ round count]
  exact iterate_enough steady (moves.ends ends) (by omega) (Nat.le_refl _) further

theorem Gives.settled {step : α → m (Option α)} (steady : Steady step)
    [∀ value, Forward (step value)] (invariant : α → State → Prop) {done : α → State → Prop}
    (round : ∀ value s, s.eof.kind = .eof → invariant value s →
      Gives (step value) s fun further t => further.elim (done value t) (invariant · t))
    {value : α} {s : State} (ends : s.eof.kind = .eof) (holds : invariant value s) :
    Gives (MonadState.get >>= fun state : State => Grammar.iterate step state.rest.length value) s
      done := by
  have rounds (count : Nat) (value : α) (s : State) (ends : s.eof.kind = .eof)
      (enough : s.rest.length ≤ count) (holds : invariant value s) :
      Gives (Grammar.iterate step count value) s done := by
    induction count generalizing value s with
    | zero =>
      have empty : s.rest = [] := List.length_eq_zero_iff.mp (Nat.le_zero.mp enough)
      exact Gives.pure (round value s ends holds none s (steady.stops value s ends empty))
    | succ count ih =>
      have facts := ((round value s ends holds).and (steady.uses value s ends)).and
        (Forward.moves s)
      refine facts.andThen fun further t kept => ?_
      obtain ⟨⟨kept, shorter⟩, moves⟩ := kept
      cases further with
      | none => exact Gives.pure kept
      | some further =>
        have less := shorter rfl
        exact ih further t (moves.ends ends) (by omega) kept
  exact Gives.get (rounds s.rest.length value s ends (Nat.le_refl _) holds)

end

theorem missing_rest (kind : Kind) (s : State) :
    Gives (missing kind) s fun _ t => t.rest = s.rest := by
  intro _ t yields
  rw [outcome_missing, Except.ok.injEq, Prod.mk.injEq] at yields
  rw [← yields.2]

/-! What the items of lists and the members of classes use up. -/

namespace Uses

theorem nameItem {s : State} (more : s.rest ≠ []) (close : Kind) :
    Uses (Grammar.nameItem close) s := by
  unfold Grammar.nameItem
  refine Gives.get (Gives.ite (fun _ => ?_) fun _ => ?_)
  · exact (advance more).andThen
  · exact (errorNode more close).andThen

section

variable (inner : Inner) [∀ inside floor, Forward (inner inside floor)]

theorem matrixItem {s : State} (more : s.rest ≠ []) (close : Kind) :
    Uses (Grammar.matrixItem inner close) s := by
  unfold Grammar.matrixItem
  refine Gives.get (Gives.ite (fun _ => ?_) fun _ => Gives.ite (fun _ => ?_) fun _ => ?_)
  · exact (advance more).andThen
  · exact progressing more close _
  · exact (errorNode more close).andThen

theorem argumentItem {s : State} (more : s.rest ≠ []) (close : Kind) (before : List Element) :
    Uses (Grammar.argumentItem inner close before) s := by
  unfold Grammar.argumentItem
  refine Gives.get (Gives.ite (fun _ => ?_) fun _ => Gives.ite (fun _ => ?_) fun _ => ?_)
  · exact (advance more).andThen
  · refine Gives.ite (fun _ => ?_) fun _ => ?_
    · refine after (missing_rest .comma s) fun comma t same => ?_
      exact after (Gives.pure rfl) fun _ u same' =>
        (progressing (by rw [same', same]; exact more) close _).andThen
    · exact after (Gives.pure rfl) fun _ u same =>
        (progressing (by rw [same]; exact more) close _).andThen
  · exact (errorNode more close).andThen

end

private theorem classAttribute {s : State} (more : s.rest ≠ [])
    (here : (s.isAt .identifier || s.isAt .tilde) = true) : Uses Grammar.classAttribute s := by
  unfold Grammar.classAttribute
  cases tilde : s.isAt .tilde with
  | true =>
    have first : Uses (Grammar.eat .tilde) s := by
      intro found t yields
      rw [Grammar.eat, outcome_eatIf_of_true tilde] at yields
      exact (advance more).map found t yields
    exact first.andThen
  | false =>
    have identifier : s.isAt .identifier = true := by simpa [tilde] using here
    have first : Gives (Grammar.eat .tilde) s fun _ t => t = s := by
      intro found t yields
      rw [Grammar.eat, outcome_eatIf_of_false tilde, Except.ok.injEq, Prod.mk.injEq] at yields
      exact yields.2.symm
    refine Gives.andThen first fun negation t same => ?_
    rw [same]
    exact (expect identifier more).andThen

theorem attributeItem {s : State} (more : s.rest ≠ []) : Uses Grammar.attributeItem s := by
  unfold Grammar.attributeItem
  refine Gives.get (Gives.ite (fun _ => ?_) fun _ => Gives.ite (fun here => ?_) fun _ => ?_)
  · exact (advance more).andThen
  · exact (classAttribute more here).andThen
  · exact (errorNode more _).andThen

theorem signature {s : State} (more : s.rest ≠ [])
    (here : (s.isAt .identifier || s.isAt .openSquareBracket) = true) :
    Uses Grammar.signature s := by
  unfold Grammar.signature
  refine Gives.get (Gives.ite (fun _ => ?_) fun none => ?_)
  · have first : Uses outputDescription s := by
      unfold outputDescription
      exact Gives.get (Gives.ite (fun _ => (advance more).andThen) fun _ => (advance more).andThen)
    exact first.map.andThen
  · have identifier : s.isAt .identifier = true := by
      rw [Bool.or_eq_true, not_or] at none
      simpa [none.1] using here
    have first : Uses compoundName s := by
      unfold compoundName
      exact (expect identifier more).andThen
    have start : Gives (pure Option.none : Read (Option Element)) s fun _ t => t = s :=
      Gives.pure rfl
    refine Gives.andThen start fun output t same => ?_
    rw [same]
    exact first.andThen

private theorem separatorOr {s : State} {other : Parse Element} (more : s.rest ≠ [])
    (uses : Uses other s) : Uses (Grammar.separatorOr other) s := by
  unfold Grammar.separatorOr
  exact Gives.get (Gives.ite (fun _ => (advance more).lift.andThen) fun _ => uses)

section

variable (block : Parse Element) [Forward block]

theorem functionDeclaration {s : State} (more : s.rest ≠ []) (kind : Kind) :
    Uses (Grammar.functionDeclaration block kind) s := by
  unfold Grammar.functionDeclaration
  exact (advance more).lift.andThen

private theorem memberBlock {s : State} (more : s.rest ≠ []) (kind : Kind) (items : Parse Element)
    [Forward items] : Uses (Grammar.memberBlock kind items) s := by
  unfold Grammar.memberBlock
  exact (advance more).lift.andThen

theorem method {s : State} (more : s.rest ≠ []) : Uses (Grammar.method block) s := by
  refine separatorOr more (Gives.get ?_)
  refine Gives.ite (fun _ => ?_) fun _ => Gives.ite (fun here => ?_) fun _ => Gives.failing _
  · exact functionDeclaration block more _
  · unfold abstractMethodDeclaration
    exact (signature more here).andThen.lift

theorem event {s : State} (more : s.rest ≠ []) : Uses Grammar.event s := by
  refine separatorOr more (Gives.get (Gives.ite (fun _ => ?_) fun _ => Gives.failing _))
  exact (advance more).lift.andThen

theorem enumerator {s : State} (more : s.rest ≠ []) : Uses Grammar.enumerator s := by
  refine separatorOr more (Gives.get (Gives.ite (fun _ => ?_) fun _ => Gives.failing _))
  unfold enumerationItem
  exact (advance more).andThen.lift

theorem classMember {s : State} (more : s.rest ≠ []) : Uses (Grammar.classMember block) s := by
  refine separatorOr more (Gives.get ?_)
  refine Gives.ite (fun _ => memberBlock more _ _) fun _ => ?_
  refine Gives.ite (fun _ => memberBlock more _ _) fun _ => ?_
  refine Gives.ite (fun _ => memberBlock more _ _) fun _ => ?_
  exact Gives.ite (fun _ => memberBlock more _ _) fun _ => Gives.failing _

theorem clause {s : State} (more : s.rest ≠ []) (inside : Bool) :
    Uses (Grammar.clause block inside) s := by
  unfold Grammar.clause
  exact (advance more).lift.andThen

private theorem switchCase {s : State} (more : s.rest ≠ []) (inside : Bool) :
    Uses (Grammar.switchCase block inside) s := by
  unfold Grammar.switchCase
  exact Gives.get (advance more).lift.andThen

end

end Uses

theorem Gives.finished {m : Type → Type} [Monad m] [MonadStateOf State m] [Outcome m] {α : Type}
    {step : α → m (Option α)} (steady : Steady step) [∀ value, Forward (step value)] {s : State}
    (ends : s.eof.kind = .eof)
    (last : ∀ value t, s.Moves t →
      Gives (step value) t fun further u => further = none → u.rest = [])
    {count : Nat} (enough : s.rest.length ≤ count) (value : α) :
    Gives (Grammar.iterate step count value) s fun _ t => t.rest = [] := by
  induction count generalizing s value with
  | zero => exact Gives.pure (List.length_eq_zero_iff.mp (Nat.le_zero.mp enough))
  | succ count ih =>
    refine (((steady.uses value s ends).and (Forward.moves s)).and (last value s (.refl s))).andThen
      fun further t facts => ?_
    obtain ⟨⟨shorter, moves⟩, stopped⟩ := facts
    cases further with
    | none => exact Gives.pure (stopped rfl)
    | some further =>
      have fewer := shorter rfl
      refine ih (moves.ends ends) ?_ (by omega) further
      intro value u later
      exact last value u (moves.trans later)

/-! The loops of the grammar, one by one. -/

namespace Steady

/-- A step that is an item or the end of a list. -/
theorem listStep {close : Kind} {item : List Element → Read (List Element)}
    (uses : ∀ elements s, s.eof.kind = .eof → s.rest ≠ [] → Uses (item elements) s) :
    Steady (Grammar.listStep close item) where
  uses elements s ends := by
    unfold Grammar.listStep
    refine Gives.get (Gives.ite (fun _ => Gives.pure (by simp)) fun here => ?_)
    rw [Bool.or_eq_true, not_or] at here
    have more := State.more_of_not_isAtEnd ends here.2
    exact (uses elements s ends more).andThen.round
  stops elements s ends done := by
    have here : (s.isAt close || s.isAtEnd) = true := by simp [State.isAtEnd_of_done ends done]
    simp only [Grammar.listStep, outcome_bind, outcome_get, Except.bind, here, if_true,
      outcome_pure]

theorem dottedStep {α : Type} (extend : α → Token → Token → α) :
    Steady (Grammar.dottedStep extend) where
  uses value s ends := by
    unfold Grammar.dottedStep
    refine Gives.get (Gives.ite (fun here => ?_) fun _ => Gives.pure (by simp))
    obtain ⟨dot, name, rest, ahead⟩ := State.two_of_isAtDottedName ends here
    exact (Uses.advance (by simp [ahead])).andThen.round
  stops value s ends done := by
    have here : s.isAtDottedName = false := by
      simp [State.isAtDottedName, State.isAt_of_done ends done]
    simp [Grammar.dottedStep, outcome_bind, outcome_get, Except.bind, here, outcome_pure]

theorem commandStep : Steady Grammar.commandStep where
  uses words s ends := by
    unfold Grammar.commandStep
    refine (Uses.eat ends (by decide)).andThen fun found t shorter => ?_
    cases found with
    | none => exact Gives.pure (by simp)
    | some word => exact Gives.pure fun _ => shorter rfl
  stops words s ends done := by
    have here := outcome_eat_of_done ends done .unquotedStringLiteral (by decide)
    simp [Grammar.commandStep, outcome_bind, here, Except.bind, outcome_pure]

theorem suffixStep (inner : Inner) [∀ inside floor, Forward (inner inside floor)] (inside : Bool) :
    Steady (Grammar.suffixStep inner inside) where
  uses subject s ends := by
    unfold Grammar.suffixStep
    refine Gives.get (Gives.ite (fun _ => Gives.pure (by simp)) fun _ => ?_)
    by_cases more : s.rest = []
    · simp only [State.currentKind_of_done ends more]
      exact Gives.pure (by simp)
    · have head : Uses advance s := Uses.advance more
      split
      · refine Gives.ite (fun _ => Gives.pure (by simp)) fun _ => ?_
        unfold arguments
        exact head.andThen.andThen.round
      · refine Gives.ite (fun _ => Gives.pure (by simp)) fun _ => ?_
        unfold arguments
        exact head.andThen.andThen.round
      · unfold memberAccess
        exact head.andThen.map.round
      · exact head.andThen.round
      · exact head.andThen.round
      · refine Gives.ite (fun _ => ?_) fun _ => Gives.pure (by simp)
        unfold baseClassInvocation
        exact head.andThen.map.round
      · exact Gives.pure (by simp)
  stops subject s ends done := by
    simp only [Grammar.suffixStep, outcome_bind, outcome_get, Except.bind,
      State.currentKind_of_done ends done]
    split <;> exact outcome_pure _ _

theorem binaryStep (inner : Inner) [∀ inside floor, Forward (inner inside floor)] (inside : Bool)
    (floor : Precedence) : Steady (Grammar.binaryStep inner inside floor) where
  uses left s ends := by
    unfold Grammar.binaryStep
    refine Gives.get (Gives.ite (fun _ => Gives.pure (by simp)) fun _ => ?_)
    by_cases more : s.rest = []
    · simp only [State.currentKind_of_done ends more]
      exact Gives.pure (by simp)
    · split
      · exact Gives.pure (by simp)
      · refine Gives.ite (fun _ => Gives.pure (by simp)) fun _ => ?_
        exact (Uses.advance more).andThen.round
  stops left s ends done := by
    simp only [Grammar.binaryStep, outcome_bind, outcome_get, Except.bind,
      State.currentKind_of_done ends done, Precedence.ofBinary?]
    split <;> exact outcome_pure _ _

theorem baseClassStep : Steady Grammar.baseClassStep where
  uses bases s ends := by
    unfold Grammar.baseClassStep
    refine (Uses.eat ends (by decide)).andThen fun found t shorter => ?_
    cases found with
    | none => exact Gives.pure (by simp)
    | some ampersand =>
      refine (Forward.moves (f := compoundName) t).andThen fun name u moves =>
        Gives.pure fun _ => ?_
      have here := shorter rfl
      have later := moves.length_le
      omega
  stops bases s ends done := by
    have here := outcome_eat_of_done ends done .ampersand (by decide)
    simp [Grammar.baseClassStep, outcome_bind, here, Except.bind, outcome_pure]

theorem memberStep {member : Parse Element}
    (uses : ∀ s, s.eof.kind = .eof → s.rest ≠ [] → Uses member s) :
    Steady (Grammar.memberStep member) where
  uses elements s ends := by
    unfold Grammar.memberStep
    refine Gives.get (Gives.ite (fun _ => Gives.pure (by simp)) fun here => ?_)
    rw [Bool.or_eq_true, not_or] at here
    exact (uses s ends (State.more_of_not_isAtEnd ends here.1)).andThen.round
  stops elements s ends done := by
    simp [Grammar.memberStep, outcome_bind, outcome_get, Except.bind,
      State.isAtEnd_of_done ends done, outcome_pure]

section

variable (block : Parse Element) [Forward block]

theorem elseifStep (inside : Bool) : Steady (Grammar.elseifStep block inside) where
  uses alternatives s ends := by
    unfold Grammar.elseifStep
    refine Gives.get (Gives.ite (fun here => ?_) fun _ => Gives.pure (by simp))
    exact (Uses.clause block (State.more_of_isAtWord ends here) inside).andThen.round
  stops alternatives s ends done := by
    simp [Grammar.elseifStep, outcome_bind, outcome_get, Except.bind,
      State.isAtWord_of_done ends done, outcome_pure]

theorem switchStep (inside : Bool) : Steady (Grammar.switchStep block inside) where
  uses cases s ends := by
    unfold Grammar.switchStep
    refine Gives.get (Gives.ite (fun here => ?_) fun _ => ?_)
    · have more : s.rest ≠ [] := by
        rw [Bool.or_eq_true] at here
        rcases here with here | here
        · exact State.more_of_isAtWord ends here
        · exact State.more_of_isAtWord ends here
      exact (Uses.switchCase block more inside).andThen.round
    refine Gives.ite (fun _ => Gives.pure (by simp)) fun here => ?_
    rw [Bool.or_eq_true, not_or] at here
    have more := State.more_of_not_isAtEnd ends here.1
    refine Gives.ite (fun _ => ?_) fun _ => ?_
    · exact (Uses.advance more).lift.andThen.round
    · exact (Uses.errorNode more _).lift.andThen.round
  stops cases s ends done := by
    simp [Grammar.switchStep, outcome_bind, outcome_get, Except.bind,
      State.isAtWord_of_done ends done, State.isAtEnd_of_done ends done, outcome_pure]

theorem statementStep (inside : Bool) (scope : Scope) :
    Steady (Grammar.statementStep block inside scope) where
  uses statements s ends := by
    unfold Grammar.statementStep
    refine Gives.get (Gives.ite (fun _ => Gives.pure (by simp)) fun here => ?_)
    have more := State.more_of_not_isAtEnd ends here
    refine Gives.ite (fun _ => ?_) fun _ => Gives.ite (fun _ => ?_) fun _ => ?_
    · cases scope with
      | block => exact Gives.pure (by simp)
      | script => exact (Uses.errorNode more _).lift.andThen.round
    · exact (Uses.errorNode more _).lift.andThen.round
    · exact (Uses.progressingParse more _ _).andThen.round
  stops statements s ends done := by
    simp [Grammar.statementStep, outcome_bind, outcome_get, Except.bind,
      State.isAtEnd_of_done ends done, outcome_pure]

end

end Steady

end MatrixScript.Grammar
