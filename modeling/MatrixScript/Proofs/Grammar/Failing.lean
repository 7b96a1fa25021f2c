import MatrixScript.Proofs.Grammar.Calls
import MatrixScript.Proofs.Grammar.Composition
import MatrixScript.Proofs.Lexer.Failures

/-!
Where parsing fails.

`Fails` is what failing is for each way of building parsers, and one lemma for each construct says
which rules inside can fail, read on from where its head stops. All else that is wrong with a script
is told in the tree. Main statement: a text is not parsed exactly where a bracket has no partner or
a class has a token that is no member of it, and the failure shows that bracket or token.
-/

set_option autoImplicit false

namespace MatrixScript.Grammar

section

variable {α β : Type} {s : State} {failure : Failure}

def Fails (f : Parse α) (s : State) (failure : Failure) : Prop := outcome f s = .error failure

/-- A parser that never fails. -/
class Unfailing (f : Parse α) : Prop where
  not_fails : ∀ s failure, ¬Fails f s failure

namespace Unfailing

instance (f : Read α) : Unfailing (liftM f : Parse α) where
  not_fails _ _ fails := nomatch fails

instance : Unfailing (get : Parse State) where
  not_fails _ _ fails := nomatch fails

instance (a : α) : Unfailing (pure a : Parse α) where
  not_fails _ _ fails := nomatch fails

instance (f : Parse α) (g : α → Parse β) [Unfailing f] [∀ a, Unfailing (g a)] :
    Unfailing (f >>= g) where
  not_fails s failure fails := by
    rw [Fails, outcome_bind] at fails
    cases found : outcome f s with
    | error other => exact not_fails s other found
    | ok result =>
      rw [found] at fails
      exact not_fails result.2 failure fails

instance (h : α → β) (f : Parse α) [Unfailing f] : Unfailing (h <$> f) where
  not_fails s failure fails := by
    rw [Fails, outcome_map] at fails
    cases found : outcome f s with
    | error other => exact not_fails s other found
    | ok result => simp [found, Except.map] at fails

instance (c : Prop) [Decidable c] (f g : Parse α) [Unfailing f] [Unfailing g] :
    Unfailing (if c then f else g) where
  not_fails s failure := by
    split <;> exact not_fails s failure

end Unfailing

private theorem fails_bind {f : Parse α} {g : α → Parse β} :
    Fails (f >>= g) s failure ↔
      Fails f s failure ∨ ∃ a t, outcome f s = .ok (a, t) ∧ Fails (g a) t failure := by
  simp only [Fails, outcome_bind]
  cases outcome f s with
  | error other => simp [Except.bind]
  | ok result =>
    simp only [Except.bind, reduceCtorEq, false_or, Except.ok.injEq]
    refine ⟨fun fails => ⟨_, _, rfl, fails⟩, ?_⟩
    rintro ⟨a, t, rfl, fails⟩
    exact fails

private theorem fails_map {f : Parse α} {h : α → β} :
    Fails (h <$> f) s failure ↔ Fails f s failure := by
  simp only [Fails, outcome_map]
  cases outcome f s <;> simp [Except.map]

private theorem fails_bind_unfailing {f : Parse α} {g : α → Parse β} [∀ a, Unfailing (g a)] :
    Fails (f >>= g) s failure ↔ Fails f s failure := by
  rw [fails_bind]
  exact or_iff_left fun ⟨a, t, _, fails⟩ => Unfailing.not_fails t failure fails

private theorem fails_unit {f : Parse α} :
    Fails (f >>= fun _ => (pure () : Parse Unit)) s failure ↔ Fails f s failure :=
  fails_bind_unfailing

private theorem fails_bind_congr {f f' : Parse α} {g : Parse β}
    (same : (outcome f s).map Prod.snd = (outcome f' s).map Prod.snd) :
    Fails (f >>= fun _ => g) s failure ↔ Fails (f' >>= fun _ => g) s failure := by
  simp only [Fails, outcome_bind]
  cases found : outcome f s with
  | error other =>
    cases found' : outcome f' s with
    | error other' =>
      simp only [found, found', Except.map, Except.error.injEq] at same
      simp only [Except.bind, same]
    | ok result' => simp [found, found', Except.map] at same
  | ok result =>
    cases found' : outcome f' s with
    | error other' => simp [found, found', Except.map] at same
    | ok result' =>
      simp only [found, found', Except.map, Except.ok.injEq] at same
      simp only [Except.bind, same]

private theorem fails_bind_iff {γ : Type} {f : Parse α} {g : α → Parse β} {h : α → Parse γ}
    (same : ∀ a t, Fails (g a) t failure ↔ Fails (h a) t failure) :
    Fails (f >>= g) s failure ↔ Fails (f >>= h) s failure := by
  simp only [fails_bind, same]

private theorem fails_bind_forget {γ : Type} {f : Parse α} {g : α → Parse β} {h : Parse γ}
    (same : ∀ a t, Fails (g a) t failure ↔ Fails h t failure) :
    Fails (f >>= g) s failure ↔ Fails f s failure ∨
      ∃ t, outcome (do let _ ← f : Parse Unit) s = .ok ((), t) ∧ Fails h t failure := by
  rw [fails_bind, outcome_bind]
  refine or_congr_right ?_
  cases outcome f s with
  | error other => simp [Except.bind]
  | ok result =>
    obtain ⟨a, t⟩ := result
    simp [Except.bind, outcome_pure, and_assoc, same]

private theorem fails_lift_bind {f : Read α} {g : α → Parse β} :
    Fails (liftM f >>= g) s failure ↔ Fails (g (f s).1) (f s).2 failure := Iff.rfl

private theorem fails_optionally (test : State → Bool) {part : Read Element}
    {g : Option Element → Parse β} :
    Fails (if test s = true then (some <$> (liftM part : Parse Element)) >>= g
        else (pure none : Parse (Option Element)) >>= g) s failure ↔
      Fails (g (if test s = true then some (part s).1 else none)) (optionally test part s).2
        failure := by
  have state : (optionally test part s).2 = if test s = true then (part s).2 else s := by
    have parts : optionally test part s =
        (if test s = true then (do let _ ← part) else pure () : Read Unit) s := rfl
    rw [parts]
    split <;> rfl
  rw [state]
  split <;> exact Iff.rfl

private theorem fails_map_bind {γ : Type} {h : α → β} {f : Read α} {g : β → Parse γ} :
    Fails ((h <$> (liftM f : Parse α)) >>= g) s failure ↔
      Fails (g (h (f s).1)) (f s).2 failure := Iff.rfl

private theorem fails_pure_bind {a : α} {g : α → Parse β} :
    Fails ((pure a : Parse α) >>= g) s failure ↔ Fails (g a) s failure := Iff.rfl

private theorem fails_get_bind {g : State → Parse β} :
    Fails (get >>= g) s failure ↔ Fails (g s) s failure := Iff.rfl

private theorem fails_throw {other : Failure} :
    Fails (throw other : Parse α) s failure ↔ failure = other := by
  constructor
  · intro fails
    exact (Except.error.inj fails).symm
  · rintro rfl
    rfl

/-- Whether a step goes on, and the state it leaves, or its failure. -/
def course (f : Parse (Option α)) (s : State) : Except Failure (Bool × State) :=
  (outcome f s).map fun result => (result.1.isSome, result.2)

private theorem course_some (f : Parse α) (g h : α → β) (s : State) :
    course (f >>= fun a => pure (some (g a))) s = course (f >>= fun a => pure (some (h a))) s := by
  simp only [course, outcome_bind]
  cases outcome f s <;> rfl

private theorem iterate_alike {step : List α → Parse (Option (List α))}
    (alike : ∀ elements s, course (step elements) s = course (step []) s) (count : Nat)
    (elements : List α) :
    (outcome (iterate step count elements) s).map Prod.snd =
      (outcome (iterate step count []) s).map Prod.snd := by
  suffices all : ∀ elements' elements s, (outcome (iterate step count elements) s).map Prod.snd =
      (outcome (iterate step count elements') s).map Prod.snd from all [] elements s
  induction count with
  | zero => exact fun _ _ _ => rfl
  | succ count ih =>
    intro elements' elements s
    have same := (alike elements s).trans (alike elements' s).symm
    simp only [iterate, outcome_bind, course] at same ⊢
    cases found : outcome (step elements) s with
    | error failure =>
      cases found' : outcome (step elements') s with
      | error failure' => simpa [found, found', Except.map, Except.bind] using same
      | ok result' => simp [found, found', Except.map] at same
    | ok result =>
      cases found' : outcome (step elements') s with
      | error failure' => simp [found, found', Except.map] at same
      | ok result' =>
        obtain ⟨further, t⟩ := result
        obtain ⟨further', t'⟩ := result'
        simp only [found, found', Except.map, Except.ok.injEq, Prod.mk.injEq] at same
        obtain ⟨goesOn, rfl⟩ := same
        cases further <;> cases further' <;>
          simp only [Option.isSome_some, Option.isSome_none, Bool.false_eq_true,
            Bool.true_eq_false] at goesOn
        · rfl
        · exact ih _ _ t

private theorem outcome_repeatParse {step : α → Parse (Option α)} (steady : Steady step)
    [∀ value, Forward (step value)] (ends : s.eof.kind = .eof) (value : α) :
    outcome (repeatParse step value) s =
      (outcome (step value) s).bind fun result =>
        outcome (result.1.elim (pure value) (repeatParse step)) result.2 := by
  by_cases done : s.rest = []
  · rw [steady.stops value s ends done, repeatParse, outcome_get_bind, done]
    rfl
  · obtain ⟨count, bound⟩ := Nat.exists_eq_succ_of_ne_zero (mt List.length_eq_zero_iff.mp done)
    rw [repeatParse, outcome_get_bind, bound, iterate, outcome_bind]
    cases found : outcome (step value) s with
    | error failure => rfl
    | ok result =>
      obtain ⟨further, t⟩ := result
      cases further with
      | none => rfl
      | some further =>
        have shorter := steady.uses value s ends _ _ found rfl
        have moves : s.Moves t := Forward.moves s _ _ found
        exact iterate_enough steady (moves.ends ends) (by omega) (Nat.le_refl _) further

namespace Rule

variable (inside : Bool)

private theorem course_step (rule : Rule) (elements : List Element) (s : State) :
    course (rule.step inside elements) s = course (rule.step inside []) s := by
  have choice {c : Prop} [Decidable c] {f f' g g' : Parse (Option (List Element))}
      (yes : course f s = course f' s) (no : course g s = course g' s) :
      course (if c then f else g) s = course (if c then f' else g') s := by
    split
    · exact yes
    · exact no
  cases rule with
  | statements scope =>
    refine choice rfl (choice ?_ (choice (course_some _ _ _ s) (course_some _ _ _ s)))
    cases scope with
    | block => rfl
    | script => exact course_some _ _ _ s
  | alternatives => exact choice (course_some _ _ _ s) rfl
  | cases =>
    exact choice (course_some _ _ _ s) (choice rfl (choice (course_some _ _ _ s)
      (course_some _ _ _ s)))
  | handler => rfl
  | members body => exact choice rfl (course_some _ _ _ s)

private theorem fails_parser_iff (rule : Rule) (ends : s.eof.kind = .eof) :
    Fails (rule.parser inside) s failure ↔
      Fails (rule.step inside []) s failure ∨
      (∃ t, outcome (rule.step inside []) s = .ok (none, t) ∧
        Fails (rule.ending inside) t failure) ∨
      ∃ elements t, outcome (rule.step inside []) s = .ok (some elements, t) ∧
        Fails (rule.parser inside) t failure := by
  have loop := outcome_repeatParse (rule.steady_step inside) ends []
  have whole : Fails (rule.parser inside) s failure ↔
      ((outcome (repeatParse (rule.step inside) []) s).bind fun result =>
        outcome (rule.ending inside) result.2) = .error failure := by
    rw [Fails, parser, outcome_bind]
  rw [whole, loop]
  cases found : outcome (rule.step inside []) s with
  | error other => simp [Fails, found, Except.bind]
  | ok result =>
    obtain ⟨further, t⟩ := result
    cases further with
    | none => simp [Fails, found, Except.bind, outcome_pure]
    | some further =>
      have alike := iterate_alike (rule.course_step inside) t.rest.length further (s := t)
      have later : Fails (repeatParse (rule.step inside) further >>= fun _ => rule.ending inside) t
          failure ↔ Fails (rule.parser inside) t failure := fails_bind_congr alike
      rw [Fails, outcome_bind] at later
      refine later.trans ⟨fun fails => Or.inr (Or.inr ⟨further, t, rfl, fails⟩), ?_⟩
      rintro (fails | ⟨_, stops, -⟩ | ⟨elements, u, goesOn, fails⟩)
      · exact absurd (found.symm.trans fails) (by simp)
      · simp at stops
      · simp only [Except.ok.injEq, Prod.mk.injEq] at goesOn
        rw [goesOn.2]
        exact fails

def FailsInside (rule : Rule) (s : State) (failure : Failure) : Prop :=
  ∃ way ∈ rule.ways inside, s.isAtWord way.word = true ∧
    ∃ t, outcome way.part s = .ok ((), t) ∧ Fails (way.inner.parser inside) t failure

end Rule

private theorem eatIf_of_true {test : State → Bool} (passes : test s = true) :
    eatIf test s = (some (advance s).1, (advance s).2) := by
  have parts : eatIf test s =
      (if test s = true then some <$> advance else pure none : Read (Option Token)) s := rfl
  rw [parts, if_pos passes]
  rfl

private theorem eatIf_of_false {test : State → Bool} (fails : test s = false) :
    eatIf test s = (none, s) := by
  have parts : eatIf test s =
      (if test s = true then some <$> advance else pure none : Read (Option Token)) s := rfl
  rw [parts, if_neg (by simp [fails])]
  rfl

private theorem State.currentKind_of_isAtWord {word : String} (here : s.isAtWord word = true) :
    s.currentKind = .identifier := by
  simp only [State.isAtWord, Token.isWord, Bool.and_eq_true, beq_iff_eq] at here
  exact here.1

private theorem State.isAtWord_eq {word : String} (here : s.isAtWord word = true) (other : String) :
    s.isAtWord other = decide (word = other) := by
  simp only [State.isAtWord, Token.isWord, Bool.and_eq_true, beq_iff_eq] at here ⊢
  simp only [here.1, here.2, beq_self_eq_true, Bool.true_and]
  rw [Bool.eq_iff_iff, beq_iff_eq, decide_eq_true_eq, Option.some.injEq, String.toList_inj]

private theorem fails_block (ends : s.eof.kind = .eof) (inside : Bool) :
    Fails (block inside) s failure ↔
      Fails ((Rule.statements .block).parser inside) s failure := by
  have same : outcome (block inside) s =
      outcome (repeatParse (statementStep (block inside) inside .block) [] >>= fun statements =>
        (pure (.list statements) : Parse Element)) s := by
    rw [outcome_bind, ← statements_eq ends (Nat.le_refl _), block, outcome_get_bind]
    exact outcome_bind _ _ s
  have loop : Fails ((Rule.statements .block).parser inside) s failure ↔
      Fails (repeatParse (statementStep (block inside) inside .block) []) s failure := fails_unit
  rw [loop, Fails, same]
  exact fails_bind_unfailing

private theorem exists_outcome_lift {head : Read Unit} {post : State → Prop} :
    (∃ t, outcome (liftM head : Parse Unit) s = .ok ((), t) ∧ post t) ↔ post (head s).2 := by
  constructor
  · rintro ⟨t, opens, holds⟩
    rw [outcome_lift, outcome_read, Except.ok.injEq] at opens
    rw [opens]
    exact holds
  · exact fun holds => ⟨_, rfl, holds⟩

private theorem ends_read {head : Read α} [Forward head] (ends : s.eof.kind = .eof) :
    (head s).2.eof.kind = .eof :=
  (Forward.moves s _ _ (outcome_read head s) : s.Moves (head s).2).ends ends

private theorem fails_after (inside : Bool) (ends : s.eof.kind = .eof) (head : Read Unit)
    [Forward head] :
    Fails ((Rule.statements .block).parser inside) (head s).2 failure ↔
      Fails (block inside) (head s).2 failure := (fails_block (ends_read ends) inside).symm

section

variable (body : Parse Element) (inside : Bool)

/-! What can fail in each construct: the rules inside it, read on from where its head stops. -/

private theorem fails_clause :
    Fails (clause body inside) s failure ↔ Fails body (clauseHead inside s).2 failure := by
  simp only [clause, fails_lift_bind, fails_bind_unfailing]
  exact Iff.rfl

private theorem fails_functionDeclaration (kind : Kind) :
    Fails (functionDeclaration body kind) s failure ↔ Fails body (functionHead s).2 failure := by
  simp only [functionDeclaration, fails_lift_bind]
  exact fails_bind_unfailing

private theorem fails_memberBlock (kind : Kind) :
    Fails (memberBlock kind body) s failure ↔ Fails body (memberHead s).2 failure := by
  simp only [memberBlock, fails_lift_bind, fails_get_bind]
  rw [fails_optionally fun state => state.isAt .openParenthesis && !state.previousEndsLine]
  exact fails_bind_unfailing

private theorem fails_classDeclaration :
    Fails (classDeclaration body) s failure ↔
      Fails (members (classMember body)) (classHead s).2 failure := by
  simp only [classDeclaration, fails_lift_bind, fails_get_bind]
  rw [fails_optionally (·.isAt .openParenthesis), fails_lift_bind, fails_get_bind,
    fails_optionally (·.isAt .less)]
  exact fails_bind_unfailing

private theorem fails_loopStatement (kind : Kind) :
    Fails (loopStatement body inside kind) s failure ↔
      Fails body (clauseHead inside s).2 failure :=
  fails_bind_unfailing.trans (fails_clause body inside)

private theorem fails_elseClause :
    Fails (elseClause body) s failure ↔
      s.isAtWord "else" = true ∧ Fails body (advance s).2 failure := by
  unfold elseClause
  rw [fails_lift_bind]
  cases here : s.isAtWord "else" with
  | false =>
    rw [eatWord, eatIf_of_false here]
    simpa using Unfailing.not_fails s failure
  | true =>
    rw [eatWord, eatIf_of_true here, eq_self, true_and]
    exact fails_bind_unfailing

private theorem fails_catchClause :
    Fails (catchClause body) s failure ↔
      s.isAtWord "catch" = true ∧ Fails body (handlerHead s).2 failure := by
  unfold catchClause
  rw [fails_lift_bind]
  cases here : s.isAtWord "catch" with
  | false =>
    rw [eatWord, eatIf_of_false here]
    simpa using Unfailing.not_fails s failure
  | true =>
    rw [eatWord, eatIf_of_true here, eq_self, true_and]
    simp only [fails_lift_bind]
    exact fails_bind_unfailing

private theorem fails_switchCase {word : String} (here : s.isAtWord word = true) :
    Fails (switchCase body inside) s failure ↔
      Fails body (if word = "case" then (clauseHead inside s).2 else (wordHead s).2) failure := by
  simp only [switchCase, fails_lift_bind, fails_get_bind, s.isAtWord_eq here, decide_eq_true_eq]
  split
  · rw [fails_map_bind, fails_lift_bind]
    exact fails_bind_unfailing
  · rw [fails_pure_bind, fails_lift_bind]
    exact fails_bind_unfailing

private theorem fails_separatorOr :
    Fails (separatorOr body) s failure ↔ s.isAtSeparator = false ∧ Fails body s failure := by
  unfold separatorOr
  rw [fails_get_bind]
  cases s.isAtSeparator with
  | false => simp
  | true => simpa using Unfailing.not_fails s failure

private theorem fails_members (body : ClassBody) :
    Fails (members (body.member (block inside))) s failure ↔
      Fails ((Rule.members body).parser inside) s failure :=
  fails_bind_unfailing.trans fails_unit.symm

private theorem fails_switchStatement :
    Fails (switchStatement (block inside) inside) s failure ↔
      Fails (Rule.cases.parser inside) (clauseHead inside s).2 failure := by
  have loop (t : State) : Fails (Rule.cases.parser inside) t failure ↔
      Fails (repeatParse (switchStep (block inside) inside) []) t failure := fails_unit
  simp only [switchStatement, fails_lift_bind, loop]
  exact fails_bind_unfailing

private theorem fails_ifStatement :
    Fails (ifStatement (block inside) inside) s failure ↔
      Fails (block inside) (clauseHead inside s).2 failure ∨
      ∃ t, outcome (do let _ ← clause (block inside) inside : Parse Unit) s = .ok ((), t) ∧
        Fails (Rule.alternatives.parser inside) t failure := by
  have parts : Rule.alternatives.parser inside = (do
      let _ ← repeatParse (elseifStep (block inside) inside) []
      let _ ← elseClause (block inside)) := rfl
  rw [← fails_clause, parts]
  refine fails_bind_forget fun _ _ => fails_bind_iff fun _ _ => ?_
  rw [fails_bind_unfailing, fails_bind_unfailing]

private theorem fails_handler_ending :
    Fails (Rule.handler.ending inside) s failure ↔ Fails (catchClause (block inside)) s failure :=
  fails_unit

private theorem fails_handler (ends : s.eof.kind = .eof) :
    Fails (Rule.handler.parser inside) s failure ↔
      Fails (catchClause (block inside)) s failure := by
  have step : outcome (Rule.handler.step inside []) s = .ok (none, s) := rfl
  rw [Rule.fails_parser_iff inside Rule.handler ends, Fails, step]
  simp [fails_handler_ending]

private theorem fails_tryStatement (ends : s.eof.kind = .eof) :
    Fails (tryStatement (block inside)) s failure ↔
      Fails (block inside) (wordHead s).2 failure ∨
      ∃ t, outcome (do wordHead; let _ ← block inside : Parse Unit) s = .ok ((), t) ∧
        Fails (Rule.handler.parser inside) t failure := by
  have parts : Fails (tryStatement (block inside)) s failure ↔
      Fails (block inside) (wordHead s).2 failure ∨
      ∃ t, outcome (do let _ ← block inside : Parse Unit) (wordHead s).2 = .ok ((), t) ∧
        Fails (catchClause (block inside)) t failure := by
    simp only [tryStatement, fails_lift_bind]
    exact fails_bind_forget fun _ _ => fails_bind_unfailing
  rw [parts]
  refine or_congr_right (exists_congr fun t => and_congr_right fun opens => ?_)
  have forward : Forward (do wordHead; let _ ← block inside : Parse Unit) := inferInstance
  have moves := forward.moves s () t opens
  exact (fails_handler inside (moves.ends ends)).symm

private theorem fails_statement (ends : s.eof.kind = .eof) (scope : Scope) :
    Fails (statement (block inside) inside) s failure ↔
      (Rule.statements scope).FailsInside inside s failure := by
  simp only [statement, fails_get_bind, Rule.FailsInside, Rule.ways, List.mem_cons,
    List.not_mem_nil, or_false, exists_eq_or_imp, exists_eq_left, exists_outcome_lift,
    fails_after inside ends]
  by_cases function : s.isAtWord "function" = true
  · simp only [s.isAtWord_eq function]
    simp [fails_functionDeclaration]
  by_cases class_ : s.isAtWord "classdef" = true
  · simp only [s.isAtWord_eq class_]
    simpa [fails_classDeclaration, ClassBody.member] using fails_members inside .blocks
  by_cases switch : s.isAtWord "switch" = true
  · simp only [s.isAtWord_eq switch]
    simp [fails_switchStatement]
  by_cases while_ : s.isAtWord "while" = true
  · simp only [s.isAtWord_eq while_]
    simp [fails_loopStatement]
  by_cases if_ : s.isAtWord "if" = true
  · simp only [s.isAtWord_eq if_]
    simpa using fails_ifStatement inside
  by_cases for_ : s.isAtWord "for" = true
  · simp only [s.isAtWord_eq for_]
    simp [fails_loopStatement]
  by_cases parfor : s.isAtWord "parfor" = true
  · simp only [s.isAtWord_eq parfor]
    simp [fails_loopStatement]
  by_cases try_ : s.isAtWord "try" = true
  · simp only [s.isAtWord_eq try_]
    simpa using fails_tryStatement inside ends
  · simp only [function, class_, switch, while_, if_, for_, parfor, try_]
    simpa using Unfailing.not_fails s failure

private theorem fails_progressingParse (expected : Kind) (parse : Parse Element) :
    Fails (progressingParse expected parse) s failure ↔ Fails parse s failure := by
  unfold progressingParse
  rw [fails_get_bind]
  exact fails_bind_unfailing

private theorem opens_statement {scope : Scope} {way : Way}
    (member : way ∈ (Rule.statements scope).ways inside) (here : s.isAtWord way.word = true) :
    s.isAtEnd = false ∧ s.isAtTerminator = false ∧ s.isAtAny expressionFirst = true := by
  have kind := State.currentKind_of_isAtWord here
  refine ⟨by simp [State.isAtEnd, State.isAt, kind], ?_, by
    simp [State.isAtAny, kind, expressionFirst, KindSet.contains_ofList]⟩
  simp only [Rule.ways, List.mem_cons, List.not_mem_nil, or_false] at member
  simp only [State.isAtTerminator, Word.terminators, List.any_cons, List.any_nil,
    s.isAtWord_eq here]
  rcases member with rfl | rfl | rfl | rfl | rfl | rfl | rfl | rfl | rfl | rfl <;> simp

private theorem fails_statements (ends : s.eof.kind = .eof) (scope : Scope) :
    Fails ((Rule.statements scope).step inside []) s failure ↔
      (Rule.statements scope).FailsInside inside s failure := by
  rw [← fails_statement inside ends scope]
  unfold Rule.step statementStep
  rw [fails_get_bind]
  constructor
  · intro fails
    split at fails
    · exact absurd fails (Unfailing.not_fails s failure)
    split at fails
    · cases scope <;> exact absurd fails (Unfailing.not_fails s failure)
    split at fails
    · exact absurd fails (Unfailing.not_fails s failure)
    · exact (fails_progressingParse _ _).mp (fails_bind_unfailing.mp fails)
  · intro fails
    obtain ⟨way, member, here, -⟩ := (fails_statement inside ends scope).mp fails
    obtain ⟨more, open_, first⟩ := opens_statement inside member here
    simp only [more, open_, first, Bool.not_true, Bool.and_false, Bool.false_eq_true, if_false]
    exact fails_bind_unfailing.mpr ((fails_progressingParse _ _).mpr fails)

private theorem fails_alternatives (ends : s.eof.kind = .eof) :
    (Fails (Rule.alternatives.step inside []) s failure ∨
      ∃ t, outcome (Rule.alternatives.step inside []) s = .ok (none, t) ∧
        Fails (Rule.alternatives.ending inside) t failure) ↔
      Rule.alternatives.FailsInside inside s failure := by
  have last (t : State) : Fails (Rule.alternatives.ending inside) t failure ↔
      Fails (elseClause (block inside)) t failure := fails_unit
  simp only [Rule.FailsInside, Rule.ways, List.mem_cons, List.not_mem_nil, or_false,
    exists_eq_or_imp, exists_eq_left, exists_outcome_lift, fails_after inside ends, last,
    fails_elseClause]
  unfold Rule.step elseifStep
  rw [fails_get_bind, outcome_get_bind]
  by_cases elseif_ : s.isAtWord "elseif" = true
  · have goesOn (t : State) : outcome (clause (block inside) inside >>= fun slots =>
        (pure (some ([] ++ [Element.node .elseifClause slots []])) :
          Parse (Option (List Element)))) s ≠ .ok (none, t) := by
      rw [outcome_bind]
      cases outcome (clause (block inside) inside) s <;> simp [Except.bind, outcome_pure]
    simp only [s.isAtWord_eq elseif_, decide_true, if_true, goesOn, false_and, exists_false,
      or_false, fails_bind_unfailing, fails_clause]
    simp
  · rw [if_neg elseif_]
    constructor
    · rintro (fails | ⟨t, stays, here, fails⟩)
      · exact absurd fails (Unfailing.not_fails s failure)
      · obtain rfl : s = t := by simpa [outcome_pure] using stays
        exact Or.inr ⟨here, fails⟩
    · rintro (⟨here, -⟩ | ⟨here, fails⟩)
      · exact absurd here elseif_
      · exact Or.inr ⟨s, outcome_pure _ _, here, fails⟩

private theorem fails_cases (ends : s.eof.kind = .eof) :
    Fails (Rule.cases.step inside []) s failure ↔
      Rule.cases.FailsInside inside s failure := by
  simp only [Rule.FailsInside, Rule.ways, List.mem_cons, List.not_mem_nil, or_false,
    exists_eq_or_imp, exists_eq_left, exists_outcome_lift, fails_after inside ends]
  unfold Rule.step switchStep
  rw [fails_get_bind]
  by_cases case_ : s.isAtWord "case" = true
  · simp only [s.isAtWord_eq case_]
    simp [fails_map, fails_switchCase _ _ case_]
  by_cases otherwise_ : s.isAtWord "otherwise" = true
  · simp only [s.isAtWord_eq otherwise_]
    simp [fails_map, fails_switchCase _ _ otherwise_]
  · simp only [case_, otherwise_]
    simpa using Unfailing.not_fails s failure

private theorem fails_handling (ends : s.eof.kind = .eof) :
    (Fails (Rule.handler.step inside []) s failure ∨
      ∃ t, outcome (Rule.handler.step inside []) s = .ok (none, t) ∧
        Fails (Rule.handler.ending inside) t failure) ↔
      Rule.handler.FailsInside inside s failure := by
  have step : outcome (Rule.handler.step inside []) s = .ok (none, s) := rfl
  rw [Fails, step]
  simp [fails_handler_ending, fails_catchClause, fails_block (ends_read ends), Rule.FailsInside,
    Rule.ways, exists_outcome_lift]

private theorem fails_classMember (ends : s.eof.kind = .eof) :
    Fails (classMember (block inside)) s failure ↔
      s.isAtSeparator = false ∧ ((Rule.members .blocks).FailsInside inside s failure ∨
        ClassBody.blocks.admits s = false ∧ failure = s.unexpectedMember) := by
  unfold classMember
  rw [fails_separatorOr, fails_get_bind]
  refine and_congr_right fun _ => ?_
  simp only [Rule.FailsInside, Rule.ways, List.mem_cons, List.not_mem_nil, or_false,
    exists_eq_or_imp, exists_eq_left, exists_outcome_lift, fails_after inside ends,
    ClassBody.admits, List.any_cons,
    List.any_nil]
  by_cases properties : s.isAtWord "properties" = true
  · simp only [s.isAtWord_eq properties]
    simp [fails_memberBlock]
  by_cases methods : s.isAtWord "methods" = true
  · simp only [s.isAtWord_eq methods]
    simpa [fails_memberBlock, ClassBody.member] using fails_members inside .methods
  by_cases events : s.isAtWord "events" = true
  · simp only [s.isAtWord_eq events]
    simpa [fails_memberBlock, ClassBody.member] using fails_members inside .events
  by_cases enumeration : s.isAtWord "enumeration" = true
  · simp only [s.isAtWord_eq enumeration]
    simpa [fails_memberBlock, ClassBody.member] using fails_members inside .enumerators
  · simp only [properties, methods, events, enumeration]
    simp [fails_throw]

private theorem fails_method (ends : s.eof.kind = .eof) :
    Fails (method (block inside)) s failure ↔
      s.isAtSeparator = false ∧ ((Rule.members .methods).FailsInside inside s failure ∨
        ClassBody.methods.admits s = false ∧ failure = s.unexpectedMember) := by
  unfold method
  rw [fails_separatorOr, fails_get_bind]
  refine and_congr_right fun _ => ?_
  simp only [Rule.FailsInside, Rule.ways, List.mem_cons, List.not_mem_nil, or_false,
    exists_eq_left, exists_outcome_lift, ← fails_block (ends_read ends) inside, ClassBody.admits]
  by_cases function : s.isAtWord "function" = true
  · have kind := State.currentKind_of_isAtWord function
    simp [function, fails_functionDeclaration, State.isAt, kind]
  · split
    · contradiction
    split
    · rename_i first
      simpa [function, first] using Unfailing.not_fails s failure
    · rename_i first
      simp [function, first, fails_throw]

private theorem fails_simpleMember {other : Parse Element} [Unfailing other] :
    Fails (separatorOr (get >>= fun state : State =>
        if state.isAt .identifier = true then other else throw state.unexpectedMember)) s failure ↔
      s.isAtSeparator = false ∧ s.isAt .identifier = false ∧ failure = s.unexpectedMember := by
  rw [fails_separatorOr, fails_get_bind]
  refine and_congr_right fun _ => ?_
  cases here : s.isAt .identifier with
  | false => simp [fails_throw]
  | true => simpa using Unfailing.not_fails s failure

private theorem fails_member (ends : s.eof.kind = .eof) (body : ClassBody) :
    Fails (body.member (block inside)) s failure ↔
      s.isAtSeparator = false ∧ ((Rule.members body).FailsInside inside s failure ∨
        body.admits s = false ∧ failure = s.unexpectedMember) := by
  cases body with
  | blocks => exact fails_classMember inside ends
  | methods => exact fails_method inside ends
  | events =>
    simpa [Rule.FailsInside, Rule.ways, ClassBody.member, ClassBody.admits, event] using
      fails_simpleMember
  | enumerators =>
    simpa [Rule.FailsInside, Rule.ways, ClassBody.member, ClassBody.admits, enumerator] using
      fails_simpleMember

private theorem opens_member {body : ClassBody} {way : Way}
    (member : way ∈ (Rule.members body).ways inside)
    (here : s.isAtWord way.word = true) :
    s.isAtEnd = false ∧ s.isAtWord "end" = false ∧ s.isAtSeparator = false := by
  have kind := State.currentKind_of_isAtWord here
  refine ⟨by simp [State.isAtEnd, State.isAt, kind], ?_, by
    simp [State.isAtSeparator, State.isAt, kind]⟩
  rw [s.isAtWord_eq here]
  cases body <;> simp only [Rule.ways, List.mem_cons, List.not_mem_nil, or_false] at member
  case blocks => rcases member with rfl | rfl | rfl | rfl <;> simp
  case methods => simp [member]

private theorem fails_memberStep (ends : s.eof.kind = .eof) (body : ClassBody) :
    Fails ((Rule.members body).step inside []) s failure ↔
      (Rule.members body).FailsInside inside s failure ∨
        body.refuses s = true ∧ failure = s.unexpectedMember := by
  have step : Fails ((Rule.members body).step inside []) s failure ↔
      (s.isAtEnd = false ∧ s.isAtWord "end" = false) ∧
        Fails (body.member (block inside)) s failure := by
    unfold Rule.step memberStep
    rw [fails_get_bind]
    split
    · rename_i stops
      rw [Bool.or_eq_true] at stops
      refine iff_of_false (Unfailing.not_fails s failure) fun ⟨goesOn, _⟩ => ?_
      rcases stops with stops | stops
      · exact Bool.false_ne_true (goesOn.1.symm.trans stops)
      · exact Bool.false_ne_true (goesOn.2.symm.trans stops)
    · rename_i goesOn
      rw [Bool.or_eq_true, not_or, Bool.not_eq_true, Bool.not_eq_true] at goesOn
      rw [fails_bind_unfailing]
      exact (and_iff_right goesOn).symm
  rw [step, fails_member inside ends body]
  constructor
  · rintro ⟨⟨more, open_⟩, single, fails | ⟨refused, rfl⟩⟩
    · exact Or.inl fails
    · exact Or.inr ⟨by simp [ClassBody.refuses, more, open_, single, refused], rfl⟩
  · rintro (fails | ⟨refused, rfl⟩)
    · obtain ⟨way, member, here, -⟩ := id fails
      obtain ⟨more, open_, single⟩ := opens_member inside member here
      exact ⟨⟨more, open_⟩, single, Or.inl fails⟩
    · simp only [ClassBody.refuses, Bool.and_eq_true, Bool.not_eq_true'] at refused
      exact ⟨refused.1.1, refused.1.2, Or.inr ⟨refused.2, rfl⟩⟩

private theorem fails_round (ends : s.eof.kind = .eof) (rule : Rule) :
    (Fails (rule.step inside []) s failure ∨
      ∃ t, outcome (rule.step inside []) s = .ok (none, t) ∧
        Fails (rule.ending inside) t failure) ↔
      rule.FailsInside inside s failure ∨ rule.refuses s = true ∧ failure = s.unexpectedMember := by
  have loop (plain : rule.ending inside = pure ()) :
      ¬∃ t, outcome (rule.step inside []) s = .ok (none, t) ∧
        Fails (rule.ending inside) t failure := by
    rintro ⟨t, -, fails⟩
    rw [plain] at fails
    exact Unfailing.not_fails t failure fails
  cases rule with
  | statements scope =>
    rw [or_iff_left (loop rfl), fails_statements inside ends scope]
    simp [Rule.refuses]
  | alternatives =>
    rw [fails_alternatives inside ends]
    simp [Rule.refuses]
  | cases =>
    rw [or_iff_left (loop rfl), fails_cases inside ends]
    simp [Rule.refuses]
  | handler =>
    rw [fails_handling inside ends]
    simp [Rule.refuses]
  | members body =>
    rw [or_iff_left (loop rfl)]
    exact fails_memberStep inside ends body

private theorem fails_leads (ends : s.eof.kind = .eof) (rule : Rule) :
    Fails (rule.parser inside) s failure ↔
      (∃ later : Rule × State, Rule.Leads inside (rule, s) later ∧
        Fails (later.1.parser inside) later.2 failure) ∨
      rule.refuses s = true ∧ failure = s.unexpectedMember := by
  rw [rule.fails_parser_iff inside ends, ← or_assoc, fails_round inside ends]
  constructor
  · rintro ((⟨way, member, here, t, opens, fails⟩ | refused) | ⟨elements, t, goesOn, fails⟩)
    · exact Or.inl ⟨(way.inner, t), .within member here opens, fails⟩
    · exact Or.inr refused
    · exact Or.inl ⟨(rule, t), .further goesOn, fails⟩
  · rintro (⟨_, leads, fails⟩ | refused)
    · cases leads with
      | further goesOn => exact Or.inr ⟨_, _, goesOn, fails⟩
      | within member here opens => exact Or.inl (Or.inl ⟨_, member, here, _, opens, fails⟩)
    · exact Or.inl (Or.inr refused)

end

namespace Rule

variable {inside : Bool} {rule later : Rule} {t : State}

private theorem Reaches.fails {before after : Rule × State} (reaches : Reaches inside before after)
    (ends : before.2.eof.kind = .eof) (fails : Fails (after.1.parser inside) after.2 failure) :
    Fails (before.1.parser inside) before.2 failure := by
  induction reaches using Relation.ReflTransGen.head_induction_on with
  | refl => exact fails
  | @head before between leads _ ih =>
    have later := ih ((leads.moves ends).1.ends ends)
    exact (fails_leads inside ends before.1).mpr (Or.inl ⟨between, leads, later⟩)

end Rule

private theorem fails_iff (inside : Bool) (ends : s.eof.kind = .eof) (rule : Rule) :
    Fails (rule.parser inside) s failure ↔
      ∃ body t, Rule.Reaches inside (rule, s) (.members body, t) ∧ body.refuses t = true ∧
        failure = t.unexpectedMember := by
  constructor
  · intro fails
    obtain ⟨length, bound⟩ : ∃ length, s.rest.length = length := ⟨_, rfl⟩
    induction length using Nat.strongRecOn generalizing rule s with
    | _ length ih =>
      rcases (fails_leads inside ends rule).mp fails with ⟨later, leads, fails⟩ | ⟨refused, same⟩
      · obtain ⟨moves, shorter⟩ := leads.moves ends
        obtain ⟨body, t, reaches, refused⟩ :=
          ih _ (bound ▸ shorter) (moves.ends ends) later.1 fails rfl
        exact ⟨body, t, .head leads reaches, refused⟩
      · cases rule with
        | members body => exact ⟨body, s, .refl, refused, same⟩
        | statements _ | alternatives | cases | handler => cases refused
  · rintro ⟨body, t, reaches, refused, same⟩
    have last : Fails ((Rule.members body).parser inside) t failure :=
      (fails_leads inside ((reaches.moves ends).ends ends) _).mpr
        (Or.inr ⟨refused, same⟩)
    exact reaches.fails ends last

end

/-- A script that has tokens fails at a token that is no member of a class. -/
theorem outcome_script_eq_error {stream : TokenStream} (ends : stream.eof.kind = .eof)
    (inside : Bool) (failure : Failure) :
    outcome (scriptStatements inside (stream.tokens.length + 1)) (.ofStream stream) =
        .error failure ↔
      ∃ body t, Rule.Reaches inside (.statements .script, .ofStream stream) (.members body, t) ∧
        body.refuses t = true ∧ failure = t.unexpectedMember := by
  have enough : (State.ofStream stream).rest.length ≤ stream.tokens.length + 1 := Nat.le_succ _
  rw [scriptStatements, statements_eq ends enough, ← fails_iff inside ends]
  exact fails_unit.symm

private theorem State.Moves.current_mem {s t : State} (moves : s.Moves t) (more : t.rest ≠ []) :
    t.current ∈ s.rest := by
  obtain ⟨used, rest, -⟩ := moves.used
  rw [State.current, List.headD_eq_head?_getD, List.head?_eq_some_head more, rest]
  exact List.mem_append_right _ (List.head_mem more)

/-- A token that a class refuses is a token of the text and does not end the class. -/
theorem ClassBody.current_of_refuses {body : ClassBody} {t : State} (ends : t.eof.kind = .eof)
    (refused : body.refuses t = true) :
    t.rest ≠ [] ∧ t.current.kind ≠ .eof ∧ t.current.token.isWord "end" = false := by
  simp only [refuses, Bool.and_eq_true, Bool.not_eq_true'] at refused
  obtain ⟨⟨⟨more, open_⟩, -⟩, -⟩ := refused
  exact ⟨State.more_of_not_isAtEnd ends (by simp [more]),
    by simpa [State.isAtEnd, State.isAt, State.currentKind] using more, open_⟩

end Grammar

/-- What a failure shows of the text: a bracket without partner, or a token that is no member of the
class in which it stands. -/
def Failure.Shows (failure : Failure) (text : List Char) : Prop :=
  match failure.diagnostic.problem with
  | .unmatchedClosingBracket kind | .unmatchedOpeningBracket kind =>
    ∃ spelled, kind.fixedText? = some spelled ∧ failure.diagnostic.range.cut? text = some spelled
  | .unexpectedClassMember spelled =>
    failure.diagnostic.range.cut? text = some spelled ∧
      ∃ stream, tokenize text = .ok stream ∧ ∃ placed ∈ stream.tokens, placed.kind ≠ .eof ∧
        placed.token.isWord "end" = false ∧ failure.diagnostic.range = placed.range
  | _ => False

namespace Tree

open Grammar (Rule ClassBody State)

theorem parse_eq_error (text : List Char) (options : Options) (name : Option String)
    (failure : Failure) :
    Tree.parse text options name = .error failure ↔
      tokenize text = .error failure ∨
      ∃ stream, tokenize text = .ok stream ∧ ∃ body t,
        Rule.Reaches options.insideBrackets (.statements .script, .ofStream stream)
          (.members body, t) ∧
        body.refuses t = true ∧ failure = t.unexpectedMember := by
  cases lexed : tokenize text with
  | error other => simp [parse_of_failure lexed]
  | ok stream =>
    obtain ⟨-, ends, -⟩ := Lexer.tokens_ok lexed
    have fails := Grammar.outcome_script_eq_error ends options.insideBrackets failure
    rw [parse_of_tokens lexed]
    simp only [reduceCtorEq, false_or, Except.ok.injEq, exists_eq_left', ← fails]
    cases Grammar.outcome (Grammar.scriptStatements options.insideBrackets
        (stream.tokens.length + 1)) (.ofStream stream) <;> simp [Except.map]

theorem exists_parse_iff {text : List Char}
    (plain : ∀ stream, tokenize text = .ok stream →
      ∀ placed ∈ stream.tokens, placed.token.isWord "classdef" = false)
    (options : Options) (name : Option String) :
    (∃ tree, Tree.parse text options name = .ok tree) ↔ ∃ stream, tokenize text = .ok stream := by
  cases parsed : Tree.parse text options name with
  | ok tree =>
    cases lexed : tokenize text with
    | ok stream => simp
    | error failure => simp [parse_of_failure lexed] at parsed
  | error failure =>
    refine iff_of_false (by simp) ?_
    rintro ⟨stream, lexed⟩
    rcases (parse_eq_error text options name failure).mp parsed with
      failed | ⟨_, lexed', body, t, reaches, -⟩
    · rw [lexed] at failed
      cases failed
    · obtain rfl : stream = _ := Except.ok.inj (lexed.symm.trans lexed')
      obtain ⟨-, ends, -⟩ := Lexer.tokens_ok lexed
      obtain ⟨s, moves, here⟩ := reaches.isAtClass ends rfl fun _ same => by cases same
      have member : s.current ∈ stream.tokens :=
        moves.current_mem (State.more_of_isAtWord (moves.ends ends) here)
      have other := plain stream lexed s.current member
      rw [State.isAtWord, other] at here
      exact Bool.false_ne_true here

theorem shows_of_parse {text : List Char} {options : Options} {name : Option String}
    {failure : Failure} (failed : Tree.parse text options name = .error failure) :
    failure.Shows text := by
  obtain ⟨tokens, brackets⟩ := (Lexer.start_inPlace text).tokens
  rcases (parse_eq_error text options name failure).mp failed with
    failed | ⟨stream, lexed, body, t, reaches, refused, rfl⟩
  · obtain ⟨kind, spelled, problem | problem, cut⟩ := brackets failure failed
    · simpa only [Failure.Shows, problem] using ⟨spelled, cut⟩
    · simpa only [Failure.Shows, problem] using ⟨spelled, cut⟩
  · obtain ⟨-, ends, -⟩ := Lexer.tokens_ok lexed
    have moves := reaches.moves ends
    obtain ⟨more, notEnd, open_⟩ := body.current_of_refuses (moves.ends ends) refused
    have member : t.current ∈ stream.tokens := moves.current_mem more
    obtain ⟨trimmed, cut⟩ := tokens stream lexed t.current (List.mem_append_left _ member)
    obtain ⟨spelled, trimmed⟩ := Option.isSome_iff_exists.mp trimmed
    refine ⟨?_, stream, lexed, t.current, member, notEnd, open_, rfl⟩
    rw [trimmed] at cut
    simpa [State.unexpectedMember, trimmed] using cut

theorem parse_fails (text : List Char) (options : Options) (name : Option String) :
    (∀ failure, Tree.parse text options name = .error failure ↔
      tokenize text = .error failure ∨
      ∃ stream, tokenize text = .ok stream ∧ ∃ body t,
        Rule.Reaches options.insideBrackets (.statements .script, .ofStream stream)
          (.members body, t) ∧
        body.refuses t = true ∧ failure = t.unexpectedMember) ∧
    ((∀ stream, tokenize text = .ok stream →
        ∀ placed ∈ stream.tokens, placed.token.isWord "classdef" = false) →
      ((∃ tree, Tree.parse text options name = .ok tree) ↔
        ∃ stream, tokenize text = .ok stream)) ∧
    ∀ failure, Tree.parse text options name = .error failure → failure.Shows text :=
  ⟨parse_eq_error text options name, fun plain => exists_parse_iff plain options name,
    fun _ => shows_of_parse⟩

theorem parse_fails_method :
    let text := "try\nclassdef a\nmethods\n+\nend end".toList
    let other := "while case = 'a".toList
    let failure : Failure := ⟨⟨.unexpectedClassMember ['+'], ⟨23, 24⟩⟩⟩
    Tree.parse text {} none = .error failure ∧ failure.Shows text ∧
      (∃ stream, tokenize text = .ok stream ∧ ∃ body t,
        Rule.Reaches false (.statements .script, .ofStream stream) (.members body, t) ∧
        body.refuses t = true) ∧
      (∀ stream, tokenize other = .ok stream →
        ∀ placed ∈ stream.tokens, placed.token.isWord "classdef" = false) ∧
      ∃ tree, Tree.parse other {} none = .ok tree := by
  intro text other failure
  have failed : Tree.parse text {} none = .error failure := by
    have found : (match Tree.parse text {} none with
      | .error found => decide (found = failure)
      | .ok _ => false) = true := by decide +kernel
    split at found
    · simp_all
    · cases found
  have plain : (tokenize other).toOption.any (fun stream =>
      stream.tokens.all fun placed => !placed.token.isWord "classdef") = true := by
    decide +kernel
  obtain ⟨stream, lexed, plain⟩ := exists_ok_of_any plain
  have words : ∀ stream, tokenize other = .ok stream →
      ∀ placed ∈ stream.tokens, placed.token.isWord "classdef" = false := by
    intro same lexed'
    obtain rfl := Except.ok.inj (lexed.symm.trans lexed')
    simpa using plain
  obtain ⟨fails, -, shows_⟩ := parse_fails text {} none
  refine ⟨failed, shows_ failure failed, ?_, words,
    ((parse_fails other {} none).2.1 words).mpr ⟨stream, lexed⟩⟩
  rcases (fails failure).mp failed with lost | ⟨stream, lexed, body, t, reaches, refused, -⟩
  · have kept : (tokenize text).isOk = true := by decide +kernel
    rw [lost] at kept
    cases kept
  · exact ⟨stream, lexed, body, t, reaches, refused⟩

end Tree

end MatrixScript
