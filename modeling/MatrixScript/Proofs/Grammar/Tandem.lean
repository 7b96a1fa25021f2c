import Mathlib.Data.List.Forall2
import MatrixScript.Proofs.Grammar.Links

/-!
Two runs of a parser side by side.

Whatever the grammar does is made of six moves: it uses up a token, puts in one that is missing,
wraps one in an error node, leaves a slot empty, or joins the slots filled last into a node; of a
node with an operator it is known besides what the first run has looked at around the operator.
`Tandem` is the relation of two runs that make the same moves, each on its own tokens. What holds of
the elements and of the problems of a parse follows by induction over the moves, and what two texts
have in common follows from their runs in tandem.

`Agrees` says of two parsers that they both fail, or else leave a relation between their results.
-/

set_option autoImplicit false

namespace MatrixScript

def Token.bare (token : Token) : Token where
  kind := token.kind
  text := token.trimmed?.getD []
  value := token.value
  isMissing := token.isMissing

namespace Element

mutual

/-- A tree without trivia and problems: its nodes, its empty slots, and its tokens by what is
significant in them. -/
def bare : Element → Element
  | .leaf token => .leaf token.bare
  | .node kind slots _ => .node kind (bareSlots slots) []

def bareSlots : List (Option Element) → List (Option Element)
  | [] => []
  | none :: rest => none :: bareSlots rest
  | some element :: rest => some element.bare :: bareSlots rest

end

@[simp]
theorem bare_leaf (token : Token) : (leaf token).bare = leaf token.bare := by
  simp [bare]

@[simp]
theorem bare_node (kind : Kind) (slots : List (Option Element)) (diagnostics : List Diagnostic) :
    (node kind slots diagnostics).bare = node kind (slots.map (Option.map bare)) [] := by
  rw [bare]
  congr
  induction slots with
  | nil => rfl
  | cons slot slots ih => cases slot <;> simp [bareSlots, ih]

@[simp]
theorem kind_bare (element : Element) : element.bare.kind = element.kind := by
  cases element <;> simp [kind, Token.bare]

end Element

/-- Tokens that a parser cannot tell apart. -/
structure Token.Alike (token token' : Token) : Prop where
  kind : token'.kind = token.kind
  trimmed : token'.trimmed? = token.trimmed?
  value : token'.value = token.value
  isMissing : token'.isMissing = token.isMissing
  endsLine : token'.endsLine = token.endsLine
  trailing : token'.trailing.isEmpty = token.trailing.isEmpty

namespace Token.Alike

private theorem refl (token : Token) : token.Alike token := ⟨rfl, rfl, rfl, rfl, rfl, rfl⟩

variable {token token' : Token}

theorem bare (alike : token.Alike token') : token'.bare = token.bare := by
  simp only [Token.bare, alike.kind, alike.trimmed, alike.value, alike.isMissing]

private theorem isWord (alike : token.Alike token') (word : String) :
    token'.isWord word = token.isWord word := by
  simp only [Token.isWord, alike.kind, alike.trimmed]

end Token.Alike

namespace Grammar

/-- States that a parser cannot tell apart: token by token the tokens around it are alike. -/
structure State.Alike (s s' : State) : Prop where
  previous : Option.Rel Token.Alike s.previous s'.previous
  rest : List.Forall₂ (fun placed placed' => placed.token.Alike placed'.token) s.rest s'.rest
  eof : s.eof.token.Alike s'.eof.token
  ends : s.eof.kind = .eof

namespace State.Alike

variable {s s' : State}

theorem refl (ends : s.eof.kind = .eof) : s.Alike s := by
  refine ⟨?_, List.forall₂_same.mpr fun _ _ => .refl _, .refl _, ends⟩
  cases s.previous with
  | none => exact .none
  | some token => exact .some (.refl token)

theorem length_eq (alike : s.Alike s') : s'.rest.length = s.rest.length := alike.rest.length_eq.symm

theorem current (alike : s.Alike s') : s.current.token.Alike s'.current.token := by
  have rest := alike.rest
  unfold State.current
  cases ahead : s.rest with
  | nil =>
    rw [ahead, List.forall₂_nil_left_iff] at rest
    rw [rest]
    exact alike.eof
  | cons placed later =>
    rw [ahead, List.forall₂_cons_left_iff] at rest
    obtain ⟨placed', later', same, -, ahead'⟩ := rest
    rw [ahead']
    exact same

theorem currentKind_eq (alike : s.Alike s') : s'.currentKind = s.currentKind := alike.current.kind

theorem isAt_eq (alike : s.Alike s') (kind : Kind) : s'.isAt kind = s.isAt kind := by
  rw [State.isAt, alike.currentKind_eq, State.isAt]

theorem isAtEnd_eq (alike : s.Alike s') : s'.isAtEnd = s.isAtEnd := alike.isAt_eq .eof

theorem isAtAny_eq (alike : s.Alike s') (kinds : KindSet) :
    s'.isAtAny kinds = s.isAtAny kinds := by
  rw [State.isAtAny, alike.currentKind_eq, State.isAtAny]

theorem isAtSeparator_eq (alike : s.Alike s') : s'.isAtSeparator = s.isAtSeparator := by
  simp only [State.isAtSeparator, alike.isAt_eq]

theorem isAtWord_eq (alike : s.Alike s') (word : String) : s'.isAtWord word = s.isAtWord word :=
  alike.current.isWord word

theorem isAtTerminator_eq (alike : s.Alike s') : s'.isAtTerminator = s.isAtTerminator := by
  have same : s'.isAtWord = s.isAtWord := funext alike.isAtWord_eq
  rw [State.isAtTerminator, same, State.isAtTerminator]

theorem previousEndsLine_eq (alike : s.Alike s') : s'.previousEndsLine = s.previousEndsLine := by
  have previous := alike.previous
  unfold State.previousEndsLine
  generalize s.previous = token, s'.previous = token' at previous ⊢
  cases previous with
  | none => rfl
  | some same => exact same.endsLine

theorem previousHasTrailing_eq (alike : s.Alike s') :
    s'.previousHasTrailing = s.previousHasTrailing := by
  have previous := alike.previous
  unfold State.previousHasTrailing
  generalize s.previous = token, s'.previous = token' at previous ⊢
  cases previous with
  | none => rfl
  | some same => simp only [Option.any_some, same.trailing]

theorem nextKind_eq (alike : s.Alike s') : s'.nextKind = s.nextKind := by
  have rest := List.forall₂_drop 1 alike.rest
  unfold State.nextKind
  cases ahead : s.rest.drop 1 with
  | nil =>
    rw [ahead, List.forall₂_nil_left_iff] at rest
    rw [rest]
    exact alike.eof.kind
  | cons placed later =>
    rw [ahead, List.forall₂_cons_left_iff] at rest
    obtain ⟨placed', later', same, -, ahead'⟩ := rest
    rw [ahead']
    exact same.kind

theorem isAtDottedName_eq (alike : s.Alike s') : s'.isAtDottedName = s.isAtDottedName := by
  simp only [State.isAtDottedName, alike.isAt_eq, alike.nextKind_eq, alike.previousHasTrailing_eq]

theorem startsSignedElement_eq (alike : s.Alike s') :
    s'.startsSignedElement = s.startsSignedElement := by
  simp only [State.startsSignedElement, alike.isAt_eq, alike.previousHasTrailing_eq,
    alike.current.trailing]

end State.Alike

namespace State

def afterToken (s : State) (placed : PlacedToken) (rest : List PlacedToken) : State :=
  { s with previous := some placed.token, rest := rest }

def afterReport (s : State) (diagnostic : Diagnostic) : State :=
  { s with diagnostics := s.diagnostics ++ [diagnostic] }

section

variable (s : State) (placed : PlacedToken) (rest : List PlacedToken) (diagnostic : Diagnostic)

@[simp]
theorem afterToken_rest : (s.afterToken placed rest).rest = rest := rfl

@[simp]
theorem afterToken_diagnostics : (s.afterToken placed rest).diagnostics = s.diagnostics := rfl

@[simp]
theorem afterReport_rest : (s.afterReport diagnostic).rest = s.rest := rfl

@[simp]
theorem afterReport_diagnostics :
    (s.afterReport diagnostic).diagnostics = s.diagnostics ++ [diagnostic] := rfl

end

end State

def errorElement (expected : Kind) (token : Token) : Element :=
  .node .error [some (.leaf token)] [⟨.unexpectedToken expected token.kind, token.span 0⟩]

abbrev Row := List (Option Element)

/-- Two runs that make the same moves: what each of them holds, and where it stands. -/
inductive Tandem (init init' : State) : Row → State → Row → State → Prop
  | start (alike : init.Alike init') : Tandem init init' [] init [] init'
  /-- Both use up a token. -/
  | use {held held' : Row} {s s' : State} {placed placed' : PlacedToken}
      {rest rest' : List PlacedToken} (before : Tandem init init' held s held' s')
      (ahead : s.rest = placed :: rest) (ahead' : s'.rest = placed' :: rest') :
      Tandem init init' (held ++ [some (.leaf placed.token)]) (s.afterToken placed rest)
        (held' ++ [some (.leaf placed'.token)]) (s'.afterToken placed' rest')
  /-- Both put in a token that is missing. -/
  | lack {held held' : Row} {s s' : State} (kind : Kind) (proper : kind ≠ .badToken)
      (before : Tandem init init' held s held' s') :
      Tandem init init' (held ++ [some (.leaf (lackingToken kind))])
        (s.afterReport ⟨.missingToken kind, Range.empty s.current.range.start⟩)
        (held' ++ [some (.leaf (lackingToken kind))])
        (s'.afterReport ⟨.missingToken kind, Range.empty s'.current.range.start⟩)
  /-- Both wrap a token in an error node. -/
  | wrap {held held' : Row} {s s' : State} {placed placed' : PlacedToken}
      {rest rest' : List PlacedToken} (expected : Kind)
      (before : Tandem init init' held s held' s')
      (ahead : s.rest = placed :: rest) (ahead' : s'.rest = placed' :: rest') :
      Tandem init init' (held ++ [some (errorElement expected placed.token)])
        ((s.afterReport ⟨.unexpectedToken expected placed.kind, placed.range⟩).afterToken placed
          rest)
        (held' ++ [some (errorElement expected placed'.token)])
        ((s'.afterReport ⟨.unexpectedToken expected placed'.kind, placed'.range⟩).afterToken
          placed' rest')
  /-- Both leave a slot empty. -/
  | leave {held held' : Row} {s s' : State} (before : Tandem init init' held s held' s') :
      Tandem init init' (held ++ [none]) s (held' ++ [none]) s'
  /-- Both join the slots filled last into a node without an operator. -/
  | join {held held' slots slots' : Row} {s s' : State} (kind : Kind) (plain : kind.isPlain = true)
      (same : slots'.length = slots.length)
      (before : Tandem init init' (held ++ slots) s (held' ++ slots') s') :
      Tandem init init' (held ++ [some (.node kind slots [])]) s
        (held' ++ [some (.node kind slots' [])]) s'
  /-- Both join an operator with what stands around it. `before` leads to the operator, and `after`
  to the end of the node. -/
  | link {held held' left left' right slots' : Row} {s s' t t' : State} {placed : PlacedToken}
      {rest : List PlacedToken} {kind : Kind}
      (before : Tandem init init' (held ++ left) s (held' ++ left') s')
      (ahead : s.rest = placed :: rest) (links : s.Links placed.token rest kind left right)
      (same : slots'.length = (left ++ some (.leaf placed.token) :: right).length)
      (after : Tandem init init' (held ++ (left ++ some (.leaf placed.token) :: right)) t
        (held' ++ slots') t') :
      Tandem init init' (held ++ [some (.node kind (left ++ some (.leaf placed.token) :: right) [])])
        t (held' ++ [some (.node kind slots' [])]) t'

namespace Tandem

variable {init init' s s' : State} {held held' : Row}

theorem alike (tandem : Tandem init init' held s held' s') : s.Alike s' := by
  induction tandem with
  | start alike => exact alike
  | use before ahead ahead' ih =>
    have rest := ih.rest
    rw [ahead, ahead', List.forall₂_cons] at rest
    exact ⟨.some rest.1, rest.2, ih.eof, ih.ends⟩
  | lack kind proper before ih => exact ⟨ih.previous, ih.rest, ih.eof, ih.ends⟩
  | wrap expected before ahead ahead' ih =>
    have rest := ih.rest
    rw [ahead, ahead', List.forall₂_cons] at rest
    exact ⟨.some rest.1, rest.2, ih.eof, ih.ends⟩
  | leave before ih => exact ih
  | join kind plain same before ih => exact ih
  | link before ahead links same after _ ih => exact ih

theorem ends (tandem : Tandem init init' held s held' s') : s.eof.kind = .eof := tandem.alike.ends

theorem bare_eq (tandem : Tandem init init' held s held' s') :
    held'.map (Option.map Element.bare) = held.map (Option.map Element.bare) := by
  induction tandem with
  | start alike => rfl
  | @use _ _ s s' placed placed' rest rest' before ahead ahead' ih =>
    have alike := before.alike.rest
    rw [ahead, ahead', List.forall₂_cons] at alike
    simp [ih, alike.1.bare]
  | lack kind proper before ih => simp [ih]
  | @wrap _ _ s s' placed placed' rest rest' expected before ahead ahead' ih =>
    have alike := before.alike.rest
    rw [ahead, ahead', List.forall₂_cons] at alike
    simp [ih, errorElement, alike.1.bare]
  | leave before ih => simp [ih]
  | join kind plain same before ih | link before ahead links same after _ ih =>
    rw [List.map_append, List.map_append] at ih
    obtain ⟨front, back⟩ := List.append_inj' ih (by simp [same])
    simp [front, back]

theorem kinds_eq {elements elements' : List Element} (same : elements'.length = elements.length)
    (tandem : Tandem init init' (held ++ elements.map some) s (held' ++ elements'.map some) s') :
    elements'.map Element.kind = elements.map Element.kind := by
  have bare := tandem.bare_eq
  rw [List.map_append, List.map_append] at bare
  have last := (List.append_inj' bare (by simp [same])).2
  simp only [List.map_map] at last
  have kinds := congrArg
    (List.map fun slot : Option Element => slot.elim Kind.eof Element.kind) last
  simpa [List.map_map, Function.comp_def] using kinds

theorem kind_eq {element element' : Element}
    (tandem : Tandem init init' (held ++ [some element]) s (held' ++ [some element']) s') :
    element'.kind = element.kind := by
  have kinds := @kinds_eq init init' s s' held held' [element] [element'] rfl tandem
  simpa using kinds

theorem ofChildren {children children' : List Element} {kind : Kind} (plain : kind.isPlain = true)
    (same : children'.length = children.length)
    (tandem : Tandem init init' (held ++ children.map some) s (held' ++ children'.map some) s') :
    Tandem init init' (held ++ [some (.ofChildren kind children)]) s
      (held' ++ [some (.ofChildren kind children')]) s' :=
  tandem.join kind plain (by simpa using same)

theorem ofOperator (front back : List Element) {children children' : List Element} {left' : Row}
    {t t' : State} {placed : PlacedToken} {rest : List PlacedToken} {kind : Kind}
    (parts : children = front ++ .leaf placed.token :: back)
    (same : children'.length = children.length)
    (before : Tandem init init' (held ++ front.map some) s (held' ++ left') s')
    (ahead : s.rest = placed :: rest)
    (links : s.Links placed.token rest kind (front.map some) (back.map some))
    (after : Tandem init init' (held ++ children.map some) t (held' ++ children'.map some) t') :
    Tandem init init' (held ++ [some (.ofChildren kind children)]) t
      (held' ++ [some (.ofChildren kind children')]) t' := by
  subst parts
  rw [List.map_append, List.map_cons] at after
  have linked := before.link ahead links (by simpa using same) after
  rwa [← List.map_cons, ← List.map_append] at linked

theorem list {children children' : List Element} (same : children'.length = children.length)
    (tandem : Tandem init init' (held ++ children.map some) s (held' ++ children'.map some) s') :
    Tandem init init' (held ++ [some (.list children)]) s
      (held' ++ [some (.list children')]) s' :=
  tandem.ofChildren (by decide) same

theorem slot {token token' : Option Token}
    (tandem : token.isSome = token'.isSome ∧
      Tandem init init' (held ++ token.toList.map fun token => some (.leaf token)) s
        (held' ++ token'.toList.map fun token => some (.leaf token)) s') :
    Tandem init init' (held ++ [token.map .leaf]) s (held' ++ [token'.map .leaf]) s' := by
  obtain ⟨same, tandem⟩ := tandem
  cases token with
  | none =>
    cases token' with
    | none => simpa using tandem.leave
    | some token' => cases same
  | some token =>
    cases token' with
    | none => cases same
    | some token' => exact tandem

end Tandem

section

variable {m : Type → Type} [Monad m] [MonadStateOf State m] [Outcome m] {α β : Type}

/-- Two parsers both fail with one problem, or leave a relation between what they yield. -/
def Agrees (f f' : m α) (s s' : State) (post : α → α → State → State → Prop) : Prop :=
  match outcome f s, outcome f' s' with
  | .ok (a, t), .ok (a', t') => post a a' t t'
  | .error failure, .error failure' => failure'.diagnostic.problem = failure.diagnostic.problem
  | _, _ => False

namespace Agrees

variable {s s' : State} {f f' : m α} {g g' : α → m β} {mid : α → α → State → State → Prop}
  {post : β → β → State → State → Prop}

private theorem of_ok {a a' : α} {t t' : State} (found : outcome f s = .ok (a, t))
    (found' : outcome f' s' = .ok (a', t')) (holds : mid a a' t t') : Agrees f f' s s' mid := by
  rw [Agrees, found, found']
  exact holds

theorem pure {a a' : α} (holds : mid a a' s s') :
    Agrees (Pure.pure a : m α) (Pure.pure a') s s' mid :=
  of_ok (outcome_pure a s) (outcome_pure a' s') holds

private theorem congr {h h' : m α} {t t' : State} (left : outcome h s = outcome f t)
    (right : outcome h' s' = outcome f' t') (agrees : Agrees f f' t t' mid) :
    Agrees h h' s s' mid := by
  rw [Agrees, left, right]
  exact agrees

theorem andThen (first : Agrees f f' s s' mid)
    (next : ∀ a a' t t', mid a a' t t' → Agrees (g a) (g' a') t t' post) :
    Agrees (f >>= g) (f' >>= g') s s' post := by
  rw [Agrees] at first
  rw [Agrees, outcome_bind, outcome_bind]
  cases found : outcome f s with
  | error failure =>
    cases found' : outcome f' s' with
    | error failure' =>
      rw [found, found'] at first
      exact first
    | ok result' => simp [found, found'] at first
  | ok result =>
    cases found' : outcome f' s' with
    | error failure' => simp [found, found'] at first
    | ok result' =>
      rw [found, found'] at first
      exact next result.1 result'.1 result.2 result'.2 first

theorem get {h h' : State → m β} (next : Agrees (h s) (h' s') s s' post) :
    Agrees (MonadState.get >>= h) (MonadState.get >>= h') s s' post :=
  congr (outcome_get_bind h s) (outcome_get_bind h' s') next

theorem mono {post : α → α → State → State → Prop} (first : Agrees f f' s s' mid)
    (weaker : ∀ a a' t t', mid a a' t t' → post a a' t t') : Agrees f f' s s' post := by
  rw [Agrees] at first ⊢
  split at first
  · exact weaker _ _ _ _ first
  · exact first
  · exact first.elim

theorem map {h h' : α → β} (first : Agrees f f' s s' fun a a' => post (h a) (h' a')) :
    Agrees (h <$> f) (h' <$> f') s s' post := by
  rw [Agrees] at first
  rw [Agrees, outcome_map, outcome_map]
  cases found : outcome f s with
  | error failure =>
    cases found' : outcome f' s' with
    | error failure' =>
      rw [found, found'] at first
      exact first
    | ok result' => simp [found, found'] at first
  | ok result =>
    cases found' : outcome f' s' with
    | error failure' => simp [found, found'] at first
    | ok result' =>
      rw [found, found'] at first
      exact first

theorem ite {c c' : Prop} [Decidable c] [Decidable c'] {h h' : m α} (same : c' ↔ c)
    (yes : c → Agrees f f' s s' mid) (no : ¬c → Agrees h h' s s' mid) :
    Agrees (if c then f else h) (if c' then f' else h') s s' mid := by
  by_cases holds : c
  · rw [if_pos holds, if_pos (same.mpr holds)]
    exact yes holds
  · rw [if_neg holds, if_neg (mt same.mp holds)]
    exact no holds

theorem iteThen {c c' : Prop} [Decidable c] [Decidable c'] {h h' : m α} (same : c' ↔ c)
    (yes : c → Agrees f f' s s' mid) (no : ¬c → Agrees h h' s s' mid)
    (next : ∀ a a' t t', mid a a' t t' → Agrees (g a) (g' a') t t' post) :
    Agrees (if c then f >>= g else h >>= g) (if c' then f' >>= g' else h' >>= g') s s' post :=
  ite same (fun holds => (yes holds).andThen next) fun fails => (no fails).andThen next

theorem lift {f f' : Read α} (agrees : Agrees f f' s s' mid) :
    Agrees (liftM f : Parse α) (liftM f') s s' mid := agrees

theorem failing {failure failure' : Failure}
    (same : failure'.diagnostic.problem = failure.diagnostic.problem) :
    Agrees (throw failure : Parse α) (throw failure') s s' mid := same

theorem given {first : α → State → Prop} (gives : Gives f s first) (agrees : Agrees f f' s s' mid) :
    Agrees f f' s s' fun a a' t t' => first a t ∧ mid a a' t t' := by
  rw [Agrees] at agrees ⊢
  split at agrees
  · rename_i a t a' t' found found'
    exact ⟨gives a t found, agrees⟩
  · exact agrees
  · exact agrees.elim

/-- A run beside itself. -/
theorem gives (agrees : Agrees f f s s mid) : Gives f s fun a t => mid a a t t := by
  intro a t found
  rw [Agrees, found] at agrees
  exact agrees

end Agrees

def BothGo (invariant : α → α → State → State → Prop) (value value' : α) :
    Option α → Option α → State → State → Prop
  | some a, some a', t, t' => invariant a a' t t'
  | none, none, t, t' => invariant value value' t t'
  | _, _, _, _ => False

namespace Agrees

variable {s s' : State} {step step' : α → m (Option α)}
  {invariant : α → α → State → State → Prop}

private theorem iterate
    (round : ∀ value value' t t', invariant value value' t t' →
      Agrees (step value) (step' value') t t' (BothGo invariant value value'))
    (count : Nat) {value value' : α} (holds : invariant value value' s s') :
    Agrees (Grammar.iterate step count value) (Grammar.iterate step' count value') s s'
      invariant := by
  induction count generalizing value value' s s' with
  | zero => exact pure holds
  | succ count ih =>
    refine (round value value' s s' holds).andThen fun further further' t t' kept => ?_
    cases further with
    | none =>
      cases further' with
      | none => exact pure kept
      | some further' => exact kept.elim
    | some further =>
      cases further' with
      | none => exact kept.elim
      | some further' => exact ih kept

theorem repeated (alike : s.Alike s') {value value' : α} (holds : invariant value value' s s')
    (round : ∀ value value' t t', invariant value value' t t' →
      Agrees (step value) (step' value') t t' (BothGo invariant value value')) :
    Agrees (MonadState.get >>= fun state : State => Grammar.iterate step state.rest.length value)
      (MonadState.get >>= fun state : State => Grammar.iterate step' state.rest.length value')
      s s' invariant := by
  refine get ?_
  rw [alike.length_eq]
  exact iterate round _ holds

end Agrees

end

/-! The relations between what two parsers yield: a token, an element, or several elements that
both hold besides what they held before. -/

section

variable (init init' : State) (held held' : Row)

@[simp]
abbrev AddsToken (token token' : Token) (t t' : State) : Prop :=
  Tandem init init' (held ++ [some (.leaf token)]) t (held' ++ [some (.leaf token')]) t'

@[simp]
abbrev AddsElement (element element' : Element) (t t' : State) : Prop :=
  Tandem init init' (held ++ [some element]) t (held' ++ [some element']) t'

@[simp]
abbrev AddsSlot (slot slot' : Option Element) (t t' : State) : Prop :=
  Tandem init init' (held ++ [slot]) t (held' ++ [slot']) t'

@[simp]
abbrev AddsSlots (slots slots' : Row) (t t' : State) : Prop :=
  slots'.length = slots.length ∧ Tandem init init' (held ++ slots) t (held' ++ slots') t'

@[simp]
abbrev AddsElements (elements elements' : List Element) (t t' : State) : Prop :=
  elements'.length = elements.length ∧
    Tandem init init' (held ++ elements.map some) t (held' ++ elements'.map some) t'

@[simp]
abbrev AddsFound (found found' : Option Token) (t t' : State) : Prop :=
  found.isSome = found'.isSome ∧
    Tandem init init' (held ++ found.toList.map fun token => some (.leaf token)) t
      (held' ++ found'.toList.map fun token => some (.leaf token)) t'

end

/-! Tokens, and the pieces of which rules are made. -/

section

variable {init init' s s' : State} {held held' : Row}

theorem advance_agrees (tandem : Tandem init init' held s held' s') (more : s.rest ≠ []) :
    Agrees advance advance s s' (AddsToken init init' held held') := by
  obtain ⟨placed, rest, ahead⟩ := List.exists_cons_of_ne_nil more
  have later := tandem.alike.rest
  rw [ahead, List.forall₂_cons_left_iff] at later
  obtain ⟨placed', rest', -, -, ahead'⟩ := later
  exact Agrees.of_ok (outcome_advance ahead) (outcome_advance ahead')
    (tandem.use ahead ahead')

theorem use_agrees (tandem : Tandem init init' held s held' s') {placed : PlacedToken}
    {rest : List PlacedToken} (ahead : s.rest = placed :: rest) :
    Agrees advance advance s s' fun token token' t t' =>
      (token = placed.token ∧ t = s.afterToken placed rest) ∧
        AddsToken init init' held held' token token' t t' := by
  refine Agrees.given (fun token t yields => ?_) (advance_agrees tandem (by simp [ahead]))
  rw [outcome_advance ahead, Except.ok.injEq, Prod.mk.injEq] at yields
  exact ⟨yields.1.symm, yields.2.symm⟩

theorem missing_agrees (tandem : Tandem init init' held s held' s') {kind : Kind}
    (proper : kind ≠ .badToken) :
    Agrees (missing kind) (missing kind) s s' (AddsToken init init' held held') :=
  Agrees.of_ok (outcome_missing kind s) (outcome_missing kind s') (tandem.lack kind proper)

theorem eatIf_agrees (tandem : Tandem init init' held s held' s') {test : State → Bool}
    (same : test s' = test s) (more : test s = true → s.rest ≠ []) :
    Agrees (eatIf test) (eatIf test) s s' (AddsFound init init' held held') := by
  unfold eatIf
  refine Agrees.get (Agrees.ite (by rw [same]) (fun passes => ?_) fun _ => ?_)
  · refine (advance_agrees tandem (more passes)).andThen fun token token' t t' tandem => ?_
    exact Agrees.pure ⟨rfl, tandem⟩
  · exact Agrees.pure ⟨rfl, by simpa using tandem⟩

theorem eat_agrees (tandem : Tandem init init' held s held' s') {kind : Kind}
    (other : kind ≠ .eof) :
    Agrees (eat kind) (eat kind) s s' (AddsFound init init' held held') :=
  eatIf_agrees tandem (tandem.alike.isAt_eq kind) fun here =>
    State.more_of_isAt tandem.ends here other

theorem eatWord_agrees (tandem : Tandem init init' held s held' s') (word : String) :
    Agrees (eatWord word) (eatWord word) s s' (AddsFound init init' held held') :=
  eatIf_agrees tandem (tandem.alike.isAtWord_eq word) fun here =>
    State.more_of_isAtWord tandem.ends here

theorem eatSeparator_agrees (tandem : Tandem init init' held s held' s') :
    Agrees eatSeparator eatSeparator s s' fun token token' =>
      AddsSlot init init' held held' (token.map .leaf) (token'.map .leaf) := by
  have same : (!s'.previousEndsLine && s'.isAtSeparator) =
      (!s.previousEndsLine && s.isAtSeparator) := by
    rw [tandem.alike.previousEndsLine_eq, tandem.alike.isAtSeparator_eq]
  refine (eatIf_agrees tandem same fun here => ?_).mono fun _ _ _ _ found => Tandem.slot found
  rw [Bool.and_eq_true] at here
  exact State.more_of_isAtSeparator tandem.ends here.2

theorem expect_agrees (tandem : Tandem init init' held s held' s') {kind : Kind}
    (other : kind ≠ .eof) (proper : kind ≠ .badToken) :
    Agrees (expect kind) (expect kind) s s' (AddsToken init init' held held') := by
  cases here : s.isAt kind with
  | true =>
    have here' := (tandem.alike.isAt_eq kind).trans here
    exact Agrees.congr (outcome_expect_of_true here) (outcome_expect_of_true here')
      (advance_agrees tandem (State.more_of_isAt tandem.ends here other))
  | false =>
    have here' := (tandem.alike.isAt_eq kind).trans here
    exact Agrees.congr (outcome_expect_of_false here) (outcome_expect_of_false here')
      (missing_agrees tandem proper)

theorem expectWord_agrees (tandem : Tandem init init' held s held' s') (word : String) :
    Agrees (expectWord word) (expectWord word) s s' (AddsToken init init' held held') := by
  cases here : s.isAtWord word with
  | true =>
    have here' := (tandem.alike.isAtWord_eq word).trans here
    exact Agrees.congr (outcome_expectWord_of_true here) (outcome_expectWord_of_true here')
      (advance_agrees tandem (State.more_of_isAtWord tandem.ends here))
  | false =>
    have here' := (tandem.alike.isAtWord_eq word).trans here
    exact Agrees.congr (outcome_expectWord_of_false here) (outcome_expectWord_of_false here')
      (missing_agrees tandem (by decide))

private theorem outcome_errorNode {s : State} {placed : PlacedToken} {rest : List PlacedToken}
    (ahead : s.rest = placed :: rest) (expected : Kind) :
    outcome (errorNode expected) s =
      .ok (errorElement expected placed.token,
        (s.afterReport ⟨.unexpectedToken expected placed.kind, placed.range⟩).afterToken placed
          rest) := by
  have current : s.current = placed := by simp [State.current, ahead]
  have told (diagnostic : Diagnostic) :
      outcome (report diagnostic) s = .ok ((), s.afterReport diagnostic) := outcome_report _ s
  have used (diagnostic : Diagnostic) : outcome advance (s.afterReport diagnostic) =
      .ok (placed.token, (s.afterReport diagnostic).afterToken placed rest) :=
    outcome_advance ahead
  unfold errorNode
  rw [outcome_get_bind, outcome_bind_of_ok (told _), current, outcome_bind_of_ok (used _),
    outcome_pure]
  rfl

theorem errorNode_agrees (tandem : Tandem init init' held s held' s') (more : s.rest ≠ [])
    (expected : Kind) :
    Agrees (errorNode expected) (errorNode expected) s s' (AddsElement init init' held held') := by
  obtain ⟨placed, rest, ahead⟩ := List.exists_cons_of_ne_nil more
  have later := tandem.alike.rest
  rw [ahead, List.forall₂_cons_left_iff] at later
  obtain ⟨placed', rest', -, -, ahead'⟩ := later
  exact Agrees.of_ok (outcome_errorNode ahead expected) (outcome_errorNode ahead' expected)
    (tandem.wrap expected ahead ahead')

theorem errorNodes_agree (tandem : Tandem init init' held s held' s') (more : s.rest ≠ [])
    (expected : Kind) :
    Agrees (do return [← errorNode expected]) (do return [← errorNode expected]) s s'
      (AddsElements init init' held held') := by
  refine (errorNode_agrees tandem more expected).andThen fun error error' t t' tandem => ?_
  exact Agrees.pure ⟨rfl, tandem⟩

theorem tokens_agree (tandem : Tandem init init' held s held' s') (more : s.rest ≠ []) :
    Agrees (do return [Element.leaf (← advance)]) (do return [Element.leaf (← advance)]) s s'
      (AddsElements init init' held held') := by
  refine (advance_agrees tandem more).andThen fun token token' t t' tandem => ?_
  exact Agrees.pure ⟨rfl, tandem⟩

theorem progressing_agrees (alike : s.Alike s') (more : s.rest ≠ []) {expected : Kind}
    {read read' : Read Element}
    (agrees : Agrees read read' s s' (AddsElement init init' held held')) :
    Agrees (progressing expected read) (progressing expected read') s s'
      (AddsElements init init' held held') := by
  unfold progressing
  refine Agrees.get (agrees.andThen fun element element' t t' tandem => Agrees.get ?_)
  rw [tandem.alike.length_eq, alike.length_eq]
  refine Agrees.ite Iff.rfl (fun same => ?_) fun _ => Agrees.pure ⟨rfl, tandem⟩
  have left : t.rest ≠ [] := by
    rw [← List.length_pos_iff, same, List.length_pos_iff]
    exact more
  refine (errorNode_agrees tandem left expected).andThen fun error error' u u' tandem => ?_
  exact Agrees.pure ⟨rfl, by simpa using tandem⟩

theorem progressingParse_agrees (alike : s.Alike s') (more : s.rest ≠ []) {expected : Kind}
    {parse parse' : Parse Element}
    (agrees : Agrees parse parse' s s' (AddsElement init init' held held')) :
    Agrees (progressingParse expected parse) (progressingParse expected parse') s s'
      (AddsElements init init' held held') := by
  unfold progressingParse
  refine Agrees.get (agrees.andThen fun element element' t t' tandem => Agrees.get ?_)
  rw [tandem.alike.length_eq, alike.length_eq]
  refine Agrees.ite Iff.rfl (fun same => ?_) fun _ => Agrees.pure ⟨rfl, tandem⟩
  have left : t.rest ≠ [] := by
    rw [← List.length_pos_iff, same, List.length_pos_iff]
    exact more
  refine (errorNode_agrees tandem left expected).lift.andThen fun error error' u u' tandem => ?_
  exact Agrees.pure ⟨rfl, by simpa using tandem⟩

theorem listUntil_agrees (tandem : Tandem init init' held s held' s') {close : Kind}
    {item item' : List Element → Read (List Element)}
    (items : ∀ elements elements' t t', AddsElements init init' held held' elements elements' t t' →
      t.rest ≠ [] → Agrees (item elements) (item' elements') t t'
        (AddsElements init init' (held ++ elements.map some) (held' ++ elements'.map some))) :
    Agrees (listUntil close item) (listUntil close item') s s'
      (AddsElement init init' held held') := by
  have loop : Agrees (repeatRead (listStep close item) []) (repeatRead (listStep close item') [])
      s s' (AddsElements init init' held held') := by
    refine Agrees.repeated tandem.alike ⟨rfl, by simpa using tandem⟩
      fun elements elements' t t' before => ?_
    have alike := before.2.alike
    unfold listStep
    refine Agrees.get (Agrees.ite ?_ (fun _ => Agrees.pure before) fun here => ?_)
    · rw [alike.isAt_eq, alike.isAtEnd_eq]
    · rw [Bool.or_eq_true, not_or] at here
      have more := State.more_of_not_isAtEnd alike.ends here.2
      refine (items elements elements' t t' before more).andThen fun added added' u u' after => ?_
      exact Agrees.pure ⟨by simp [before.1, after.1], by simpa using after.2⟩
  exact loop.andThen fun elements elements' t t' after => Agrees.pure (after.2.list after.1)

section

variable {m : Type → Type} [Monad m] [MonadStateOf State m] [Outcome m]

theorem optional_agrees {f f' : m Element}
    (agrees : Agrees f f' s s' (AddsElement init init' held held')) :
    Agrees (some <$> f) (some <$> f') s s' (AddsSlot init init' held held') :=
  Agrees.map agrees

theorem absent_agrees (tandem : Tandem init init' held s held' s') :
    Agrees (pure none : m (Option Element)) (pure none) s s' (AddsSlot init init' held held') :=
  Agrees.pure tandem.leave

theorem foundThen_agrees {α : Type} {f f' : m (Option Token)} {g g' : Option Token → m α}
    {post : α → α → State → State → Prop}
    (first : Agrees f f' s s' (AddsFound init init' held held'))
    (absent : ∀ t t', Tandem init init' held t held' t' → Agrees (g none) (g' none) t t' post)
    (present : ∀ token token' t t', AddsToken init init' held held' token token' t t' →
      Agrees (g (some token)) (g' (some token')) t t' post) :
    Agrees (f >>= g) (f' >>= g') s s' post := by
  refine first.andThen fun found found' t t' after => ?_
  obtain ⟨same, tandem⟩ := after
  cases found with
  | none =>
    cases found' with
    | none => exact absent t t' (by simpa using tandem)
    | some token' => cases same
  | some token =>
    cases found' with
    | none => cases same
    | some token' => exact present token token' t t' tandem

end

end

end Grammar

end MatrixScript
