import MatrixScript.Proofs.Grammar.Progress
import MatrixScript.Proofs.Lexer.Restart

/-!
The same tokens in a longer text.

`Frame.Embeds` relates the state of a parser to a state in which the same tokens stand further on
and may be followed by others. `Follows` says that a parser does the same in both, or else that the
run in the shorter text is spoiled: it has met the end of that text in a way that the longer text
shows. A frame after which nothing follows spoils nothing.
-/

set_option autoImplicit false

namespace MatrixScript.Grammar

/-- How the tokens of a text stand in a longer one: how far on, and what comes after them. -/
structure Frame where
  bytes : Nat
  lines : Nat
  more : List PlacedToken
  eof : PlacedToken
  /-- Whether other text may come after the tokens. -/
  goesOn : Prop
  ends : eof.kind = .eof
  startsAfresh : ∀ placed ∈ more.head?, placed.kind ≠ .unquotedStringLiteral

/-- The state of a parser and its state in a longer text. Where the text goes on, its first part
stops at the end of a line, and not after a `~`. -/
structure Frame.Embeds (frame : Frame) (s s' : State) : Prop where
  previous : s'.previous = s.previous
  rest : s'.rest = s.rest.map (·.shift frame.bytes frame.lines) ++ frame.more
  eof : s'.eof = frame.eof
  diagnostics : s'.diagnostics = s.diagnostics.map (·.shift frame.bytes)
  ends : s.eof.kind = .eof
  fits : ∀ placed ∈ s.rest, placed.token.Fits
  stops : ¬frame.goesOn → frame.more = [] ∧ frame.eof = s.eof.shift frame.bytes frame.lines ∧
    s.eof.token.Fits
  line : frame.goesOn → ∃ last, (s.rest.getLast?.map PlacedToken.token).or s.previous = some last ∧
    last.endsLine = true ∧ last.kind ≠ .tilde

theorem Frame.sees_or_done (frame : Frame) (s : State) :
    (frame.goesOn → s.rest ≠ []) ∨ frame.goesOn ∧ s.rest = [] := by
  by_cases done : s.rest = []
  · by_cases goesOn : frame.goesOn
    · exact Or.inr ⟨goesOn, done⟩
    · exact Or.inl fun holds => absurd holds goesOn
  · exact Or.inl fun _ => done

namespace Frame.Embeds

variable {frame : Frame} {s s' : State}

theorem current_eq (embeds : frame.Embeds s s') (sees : frame.goesOn → s.rest ≠ []) :
    s'.current = s.current.shift frame.bytes frame.lines := by
  rw [State.current, State.current, embeds.rest, embeds.eof]
  cases ahead : s.rest with
  | nil =>
    have last : ¬frame.goesOn := fun goesOn => sees goesOn ahead
    obtain ⟨more, eof, -⟩ := embeds.stops last
    simp [more, eof]
  | cons placed rest => simp

theorem currentKind_eq (embeds : frame.Embeds s s') (sees : frame.goesOn → s.rest ≠ []) :
    s'.currentKind = s.currentKind := by
  rw [State.currentKind, embeds.current_eq sees]
  rfl

theorem isAt_eq (embeds : frame.Embeds s s') (sees : frame.goesOn → s.rest ≠ []) (kind : Kind) :
    s'.isAt kind = s.isAt kind := by
  rw [State.isAt, embeds.currentKind_eq sees]
  rfl

theorem isAtEnd_eq (embeds : frame.Embeds s s') (sees : frame.goesOn → s.rest ≠ []) :
    s'.isAtEnd = s.isAtEnd := embeds.isAt_eq sees .eof

theorem isAtAny_eq (embeds : frame.Embeds s s') (sees : frame.goesOn → s.rest ≠ [])
    (kinds : KindSet) : s'.isAtAny kinds = s.isAtAny kinds := by
  rw [State.isAtAny, embeds.currentKind_eq sees]
  rfl

theorem isAtSeparator_eq (embeds : frame.Embeds s s') (sees : frame.goesOn → s.rest ≠ []) :
    s'.isAtSeparator = s.isAtSeparator := by
  simp only [State.isAtSeparator, embeds.isAt_eq sees]

theorem isAtWord_eq (embeds : frame.Embeds s s') (sees : frame.goesOn → s.rest ≠ [])
    (word : String) : s'.isAtWord word = s.isAtWord word := by
  rw [State.isAtWord, embeds.current_eq sees]
  rfl

theorem isAtTerminator_eq (embeds : frame.Embeds s s') (sees : frame.goesOn → s.rest ≠ []) :
    s'.isAtTerminator = s.isAtTerminator := by
  have same : s'.isAtWord = s.isAtWord := funext (embeds.isAtWord_eq sees)
  rw [State.isAtTerminator, same]
  rfl

theorem startsSignedElement_eq (embeds : frame.Embeds s s') (sees : frame.goesOn → s.rest ≠ []) :
    s'.startsSignedElement = s.startsSignedElement := by
  simp only [State.startsSignedElement, embeds.isAt_eq sees, embeds.current_eq sees,
    State.previousHasTrailing, embeds.previous]
  rfl

theorem previousEndsLine_eq (embeds : frame.Embeds s s') :
    s'.previousEndsLine = s.previousEndsLine := by
  rw [State.previousEndsLine, embeds.previous]
  rfl

theorem previousHasTrailing_eq (embeds : frame.Embeds s s') :
    s'.previousHasTrailing = s.previousHasTrailing := by
  rw [State.previousHasTrailing, embeds.previous]
  rfl

theorem length_eq (embeds : frame.Embeds s s') :
    s'.rest.length = s.rest.length + frame.more.length := by
  simp [embeds.rest]

theorem ends' (embeds : frame.Embeds s s') : s'.eof.kind = .eof := by
  rw [embeds.eof]
  exact frame.ends

theorem range_eq (embeds : frame.Embeds s s') (sees : frame.goesOn → s.rest ≠ []) :
    s'.current.range = s.current.range.shift frame.bytes := by
  rw [embeds.current_eq sees]
  refine PlacedToken.range_shift ?_ frame.bytes frame.lines
  cases ahead : s.rest with
  | nil =>
    have last : ¬frame.goesOn := fun goesOn => sees goesOn ahead
    simpa [State.current, ahead] using (embeds.stops last).2.2
  | cons placed rest => simpa [State.current, ahead] using embeds.fits placed (by simp [ahead])

theorem at_line (embeds : frame.Embeds s s') (goesOn : frame.goesOn) (done : s.rest = []) :
    ∃ last, s.previous = some last ∧ last.endsLine = true ∧ last.kind ≠ .tilde := by
  obtain ⟨last, found, line⟩ := embeds.line goesOn
  rw [done] at found
  exact ⟨last, by simpa using found, line⟩

private theorem previousEndsLine_of_done (embeds : frame.Embeds s s') (goesOn : frame.goesOn)
    (done : s.rest = []) : s.previousEndsLine = true := by
  obtain ⟨last, found, line, -⟩ := embeds.at_line goesOn done
  simp [State.previousEndsLine, found, line]

theorem sees_of_line (embeds : frame.Embeds s s') (inside : s.previousEndsLine = false) :
    frame.goesOn → s.rest ≠ [] := by
  intro goesOn done
  rw [embeds.previousEndsLine_of_done goesOn done] at inside
  exact Bool.noConfusion inside

theorem isAt_line_eq (embeds : frame.Embeds s s') (kind : Kind) :
    (s'.isAt kind && !s'.previousEndsLine) = (s.isAt kind && !s.previousEndsLine) := by
  rw [embeds.previousEndsLine_eq]
  cases line : s.previousEndsLine with
  | true => simp
  | false => rw [embeds.isAt_eq (embeds.sees_of_line line)]

theorem isAt_unquoted_eq (embeds : frame.Embeds s s') :
    s'.isAt .unquotedStringLiteral = s.isAt .unquotedStringLiteral := by
  by_cases sees : frame.goesOn → s.rest ≠ []
  · exact embeds.isAt_eq sees _
  · rw [Classical.not_imp, ne_eq, Classical.not_not] at sees
    obtain ⟨-, done⟩ := sees
    rw [State.isAt_of_done embeds.ends done (by decide)]
    have rest := embeds.rest
    rw [done, List.map_nil, List.nil_append] at rest
    cases ahead : frame.more with
    | nil => exact State.isAt_of_done embeds.ends' (by rw [rest, ahead]) (by decide)
    | cons placed more =>
      have other := frame.startsAfresh placed (by simp [ahead])
      simp [State.isAt, State.currentKind, State.current, rest, ahead, other]

end Frame.Embeds

namespace State

def Marked (s : State) : Prop := s.diagnostics ≠ []

/-- Only a dot is left, right after a name: in a longer text it may be part of the name. -/
def AtLastDot (s : State) : Prop :=
  ∃ dot, s.rest = [dot] ∧ dot.kind = .dot ∧ s.previousHasTrailing = false

def Dotted (s : State) : Prop := s.Marked ∨ s.AtLastDot

/-- A problem has been found, or what has been read may go on after the end. -/
def Loose (s : State) : Prop := s.Marked ∨ s.rest = [] ∨ s.AtLastDot

theorem Dotted.loose {s : State} (dotted : s.Dotted) : s.Loose := by
  rcases dotted with marked | dot
  · exact Or.inl marked
  · exact Or.inr (Or.inr dot)

/-- What holds of all later states once it holds. -/
class Persists (spoiled : State → Prop) : Prop where
  later {s t : State} : s.Moves t → spoiled s → spoiled t

instance : Persists Marked where
  later moves found := moves.diagnostics_ne_nil found

instance : Persists Loose where
  later {s t} moves loose := by
    rcases loose with found | done | ⟨dot, rest, kind, trailing⟩
    · exact Or.inl (moves.diagnostics_ne_nil found)
    · exact Or.inr (Or.inl (moves.rest_eq_nil done))
    · obtain ⟨used, split, previous⟩ := moves.used
      rw [rest] at split
      cases used with
      | nil =>
        refine Or.inr (Or.inr ⟨dot, split.symm, kind, ?_⟩)
        simpa [previousHasTrailing, previous] using trailing
      | cons first used =>
        have done : t.rest = [] := by
          have lengths := congrArg List.length split
          simp only [List.length_cons, List.length_nil, List.length_append] at lengths
          exact List.length_eq_zero_iff.mp (by omega)
        exact Or.inr (Or.inl done)

end State

theorem Frame.Embeds.isAtDottedName_eq {frame : Frame} {s s' : State} (embeds : frame.Embeds s s')
    (inside : frame.goesOn → ¬s.AtLastDot) : s'.isAtDottedName = s.isAtDottedName := by
  rcases frame.sees_or_done s with sees | ⟨goesOn, done⟩
  · simp only [State.isAtDottedName, embeds.isAt_eq sees, embeds.previousHasTrailing_eq]
    cases dot : s.isAt .dot with
    | false => simp
    | true =>
      cases trailing : s.previousHasTrailing with
      | true => simp
      | false =>
        suffices next : s'.nextKind = s.nextKind by rw [next]
        obtain ⟨first, rest, ahead⟩ :=
          List.exists_cons_of_ne_nil (State.more_of_isAt embeds.ends dot (by decide))
        rw [State.nextKind, State.nextKind, embeds.rest, embeds.eof, ahead]
        cases rest with
        | nil =>
          have last : ¬frame.goesOn := by
            intro goesOn
            refine inside goesOn ⟨first, ahead, ?_, trailing⟩
            simpa [State.isAt, State.currentKind, State.current, ahead] using dot
          obtain ⟨more, eof, -⟩ := embeds.stops last
          simp only [more, eof]
          rfl
        | cons second rest => rfl
  · obtain ⟨last, previous, line, -⟩ := embeds.at_line goesOn done
    have trailing : s.previousHasTrailing = true := by
      rw [State.previousHasTrailing, previous]
      cases pieces : last.trailing with
      | nil => simp [Token.endsLine, pieces] at line
      | cons piece rest => simp [pieces]
    simp [State.isAtDottedName, embeds.previousHasTrailing_eq, trailing]

section

variable {m : Type → Type} [Monad m] [MonadStateOf State m] [Outcome m] {α β : Type}

theorem Gives.persists {spoiled : State → Prop} [State.Persists spoiled] {f : m α} [Forward f]
    {s : State} (holds : spoiled s) : Gives f s fun _ t => spoiled t :=
  (Forward.moves s).mono fun _ _ moves => State.Persists.later moves holds

/-- A parser does in a longer text what its counterpart does in the shorter one, unless the text
goes on and the run in the shorter one is spoiled. -/
def FollowsUnless (frame : Frame) (spoiled : α → State → Prop) (f f' : m α) (s s' : State) : Prop :=
  match outcome f s with
  | .ok (a, t) => frame.goesOn ∧ spoiled a t ∨
      ∃ t', outcome f' s' = .ok (a, t') ∧ frame.Embeds t t'
  | .error failure => ¬frame.goesOn → outcome f' s' = .error (failure.shift frame.bytes)

abbrev Follows (frame : Frame) (spoiled : State → Prop) (f f' : m α) (s s' : State) : Prop :=
  FollowsUnless frame (fun _ => spoiled) f f' s s'

namespace FollowsUnless

variable {frame : Frame} {s s' : State} {f f' : m α} {g g' : α → m β}
  {mid : α → State → Prop} {spoiled : β → State → Prop}

theorem pure {a : α} (embeds : frame.Embeds s s') :
    FollowsUnless frame mid (Pure.pure a : m α) (Pure.pure a) s s' := by
  rw [FollowsUnless, outcome_pure]
  exact Or.inr ⟨s', outcome_pure a s', embeds⟩

theorem spoil (goesOn : frame.goesOn) (gives : Gives f s mid) :
    FollowsUnless frame mid f f' s s' := by
  rw [FollowsUnless]
  split
  · rename_i a t found
    exact Or.inl ⟨goesOn, gives a t found⟩
  · exact fun stops => absurd goesOn stops

private theorem congr {h h' : m α} {t t' : State} (left : outcome h s = outcome f t)
    (right : outcome h' s' = outcome f' t') (follows : FollowsUnless frame mid f f' t t') :
    FollowsUnless frame mid h h' s s' := by
  rw [FollowsUnless, left, right]
  exact follows

theorem mono {other : α → State → Prop} (first : FollowsUnless frame mid f f' s s')
    (weaker : ∀ a t, mid a t → other a t) : FollowsUnless frame other f f' s s' := by
  rw [FollowsUnless] at first ⊢
  split
  · rename_i a t found
    rw [found] at first
    exact first.imp_left fun spoiled => ⟨spoiled.1, weaker a t spoiled.2⟩
  · rename_i failure found
    rw [found] at first
    exact first

theorem given {post : α → State → Prop} (gives : Gives f s post)
    (follows : FollowsUnless frame mid f f' s s') :
    FollowsUnless frame (fun a t => post a t ∧ mid a t) f f' s s' := by
  rw [FollowsUnless] at follows ⊢
  split
  · rename_i a t found
    rw [found] at follows
    exact follows.imp_left fun spoiled => ⟨spoiled.1, gives a t found, spoiled.2⟩
  · rename_i failure found
    rw [found] at follows
    exact follows

theorem andThen [Forward f] (embeds : frame.Embeds s s')
    (first : FollowsUnless frame mid f f' s s')
    (next : ∀ a t t', outcome f s = .ok (a, t) → frame.Embeds t t' →
      FollowsUnless frame spoiled (g a) (g' a) t t')
    (spoils : frame.goesOn → ∀ a t, t.eof.kind = .eof → mid a t → Gives (g a) t spoiled) :
    FollowsUnless frame spoiled (f >>= g) (f' >>= g') s s' := by
  rw [FollowsUnless] at first ⊢
  rw [outcome_bind, outcome_bind]
  cases found : outcome f s with
  | error failure =>
    rw [found] at first
    intro stops
    rw [first stops]
    rfl
  | ok result =>
    obtain ⟨a, t⟩ := result
    have moves : s.Moves t := Forward.moves s a t found
    rw [found] at first
    rcases first with ⟨goesOn, spoiled⟩ | ⟨t', found', embeds'⟩
    · have ends := moves.ends embeds.ends
      have whole : FollowsUnless frame _ (g a) (f' >>= g') t s' :=
        spoil goesOn (spoils goesOn a t ends spoiled)
      rw [FollowsUnless, outcome_bind] at whole
      exact whole
    · rw [found']
      exact next a t t' found embeds'

theorem get {h h' : State → m β} (next : FollowsUnless frame spoiled (h s) (h' s') s s') :
    FollowsUnless frame spoiled (MonadState.get >>= h) (MonadState.get >>= h') s s' := by
  refine congr ?_ ?_ next
  · rw [outcome_bind, outcome_get]
    rfl
  · rw [outcome_bind, outcome_get]
    rfl

theorem ite {c c' : Prop} [Decidable c] [Decidable c'] {h h' : m α} (same : c' ↔ c)
    (yes : c → FollowsUnless frame mid f f' s s') (no : ¬c → FollowsUnless frame mid h h' s s') :
    FollowsUnless frame mid (if c then f else h) (if c' then f' else h') s s' := by
  by_cases holds : c
  · rw [if_pos holds, if_pos (same.mpr holds)]
    exact yes holds
  · rw [if_neg holds, if_neg (mt same.mp holds)]
    exact no holds

theorem lift {f f' : Read α} (follows : FollowsUnless frame mid f f' s s') :
    FollowsUnless frame mid (liftM f : Parse α) (liftM f') s s' := follows

theorem map {h : α → β} (first : FollowsUnless frame (fun a => spoiled (h a)) f f' s s') :
    FollowsUnless frame spoiled (h <$> f) (h <$> f') s s' := by
  rw [FollowsUnless] at first ⊢
  rw [outcome_map, outcome_map]
  cases found : outcome f s with
  | error failure =>
    rw [found] at first
    intro stops
    rw [first stops]
    rfl
  | ok result =>
    rw [found] at first
    refine first.imp_right ?_
    rintro ⟨t', found', embeds⟩
    rw [found']
    exact ⟨t', rfl, embeds⟩

theorem iteThen {c c' : Prop} [Decidable c] [Decidable c'] {h h' : m α} [Forward f] [Forward h]
    (embeds : frame.Embeds s s') (same : c' ↔ c) (yes : c → FollowsUnless frame mid f f' s s')
    (no : ¬c → FollowsUnless frame mid h h' s s')
    (next : ∀ a t t', s.Moves t → frame.Embeds t t' →
      FollowsUnless frame spoiled (g a) (g' a) t t')
    (spoils : frame.goesOn → ∀ a t, t.eof.kind = .eof → mid a t → Gives (g a) t spoiled) :
    FollowsUnless frame spoiled (if c then f >>= g else h >>= g)
      (if c' then f' >>= g' else h' >>= g') s s' :=
  ite same
    (fun holds => andThen embeds (yes holds)
      (fun a t t' found => next a t t' (Forward.moves s a t found)) spoils)
    fun fails => andThen embeds (no fails)
      (fun a t t' found => next a t t' (Forward.moves s a t found)) spoils

theorem failing {failure failure' : Failure}
    (moved : ¬frame.goesOn → failure' = failure.shift frame.bytes) :
    FollowsUnless frame mid (throw failure : Parse α) (throw failure') s s' :=
  fun stops => congrArg Except.error (moved stops)

end FollowsUnless

namespace Follows

variable {frame : Frame} {s s' : State} {f f' : m α} {g g' : α → m β} {spoiled : State → Prop}

theorem chain [State.Persists spoiled] [Forward f] [∀ a, Forward (g a)]
    (embeds : frame.Embeds s s') (first : Follows frame spoiled f f' s s')
    (next : ∀ a t t', outcome f s = .ok (a, t) → frame.Embeds t t' →
      Follows frame spoiled (g a) (g' a) t t') :
    Follows frame spoiled (f >>= g) (f' >>= g') s s' :=
  FollowsUnless.andThen embeds first next fun _ _ _ _ holds => Gives.persists holds

theorem iteChain [State.Persists spoiled] {c c' : Prop} [Decidable c] [Decidable c'] {h h' : m α}
    [Forward f] [Forward h] [∀ a, Forward (g a)] (embeds : frame.Embeds s s') (same : c' ↔ c)
    (yes : c → Follows frame spoiled f f' s s') (no : ¬c → Follows frame spoiled h h' s s')
    (next : ∀ a t t', s.Moves t → frame.Embeds t t' → Follows frame spoiled (g a) (g' a) t t') :
    Follows frame spoiled (if c then f >>= g else h >>= g) (if c' then f' >>= g' else h' >>= g')
      s s' :=
  FollowsUnless.iteThen embeds same yes no next fun _ _ _ _ holds => Gives.persists holds

end Follows

end

private theorem Frame.Embeds.advance {frame : Frame} {s s' : State} (embeds : frame.Embeds s s')
    {placed : PlacedToken} {rest : List PlacedToken} (ahead : s.rest = placed :: rest) :
    frame.Embeds { s with previous := some placed.token, rest := rest }
      { s' with
        previous := some placed.token
        rest := rest.map (·.shift frame.bytes frame.lines) ++ frame.more } where
  previous := rfl
  rest := rfl
  eof := embeds.eof
  diagnostics := embeds.diagnostics
  ends := embeds.ends
  fits placed' member := embeds.fits placed' (by rw [ahead]; exact List.mem_cons_of_mem _ member)
  stops := embeds.stops
  line goesOn := by
    obtain ⟨last, found, line⟩ := embeds.line goesOn
    refine ⟨last, ?_, line⟩
    rw [ahead] at found
    cases rest with
    | nil => simpa using found
    | cons second rest =>
      rw [List.getLast?_cons_cons, List.getLast?_eq_some_getLast (by simp)] at found
      rw [List.getLast?_eq_some_getLast (by simp)]
      exact found

private theorem Frame.Embeds.report {frame : Frame} {s s' : State} (embeds : frame.Embeds s s')
    (diagnostic : Diagnostic) :
    frame.Embeds { s with diagnostics := s.diagnostics ++ [diagnostic] }
      { s' with diagnostics := s'.diagnostics ++ [diagnostic.shift frame.bytes] } where
  previous := embeds.previous
  rest := embeds.rest
  eof := embeds.eof
  diagnostics := by simp [embeds.diagnostics]
  ends := embeds.ends
  fits := embeds.fits
  stops := embeds.stops
  line := embeds.line

section

variable {frame : Frame} {s s' : State}

/-- The state after one more token. -/
structure State.Advances (s : State) (token : Token) (t : State) : Prop where
  rest : t.rest = s.rest.tail
  shorter : t.rest.length < s.rest.length
  previous : t.previous = some token

private theorem outcome_advance_embedded (embeds : frame.Embeds s s') (more : s.rest ≠ []) :
    ∃ token t t', outcome advance s = .ok (token, t) ∧ outcome advance s' = .ok (token, t') ∧
      s.Advances token t ∧ frame.Embeds t t' := by
  obtain ⟨placed, rest, ahead⟩ := List.exists_cons_of_ne_nil more
  have ahead' : s'.rest = placed.shift frame.bytes frame.lines ::
      (rest.map (·.shift frame.bytes frame.lines) ++ frame.more) := by
    rw [embeds.rest, ahead]
    rfl
  have found' := outcome_advance ahead'
  exact ⟨placed.token, _, _, outcome_advance ahead, found',
    ⟨by simp [ahead], by simp [ahead], rfl⟩, embeds.advance ahead⟩

private theorem advance_follows (embeds : frame.Embeds s s') (more : s.rest ≠ [])
    {spoiled : State → Prop} :
    Follows frame spoiled advance advance s s' := by
  obtain ⟨token, t, t', found, found', -, embeds'⟩ := outcome_advance_embedded embeds more
  rw [Follows, FollowsUnless, found]
  exact Or.inr ⟨t', found', embeds'⟩

theorem FollowsUnless.advance {m : Type → Type} [Monad m] [MonadStateOf State m] [Outcome m]
    {β : Type} {spoiled : β → State → Prop} {f : m Token} {g g' : Token → m β}
    (is : ∀ t, outcome f t = outcome Grammar.advance t) (embeds : frame.Embeds s s')
    (more : s.rest ≠ [])
    (next : ∀ token t t', s.Advances token t → frame.Embeds t t' →
      FollowsUnless frame spoiled (g token) (g' token) t t') :
    FollowsUnless frame spoiled (f >>= g) (f >>= g') s s' := by
  obtain ⟨token, t, t', found, found', after, embeds'⟩ := outcome_advance_embedded embeds more
  refine congr ?_ ?_ (next token t t' after embeds')
  · rw [outcome_bind, is, found]
    rfl
  · rw [outcome_bind, is, found']
    rfl

theorem missing_marks (kind : Kind) (s : State) : Gives (missing kind) s fun _ t => t.Marked := by
  intro token t yields
  rw [outcome_missing, Except.ok.injEq, Prod.mk.injEq] at yields
  rw [← yields.2]
  simp [State.Marked]

theorem expect_marks {kind : Kind} (other : s.isAt kind = false) :
    Gives (expect kind) s fun _ t => t.Marked := by
  intro token t yields
  rw [outcome_expect_of_false other] at yields
  exact missing_marks kind s token t yields

private theorem expectWord_marks {word : String} (other : s.isAtWord word = false) :
    Gives (expectWord word) s fun _ t => t.Marked := by
  intro token t yields
  rw [outcome_expectWord_of_false other] at yields
  exact missing_marks .identifier s token t yields

theorem currentKind_of_lastDot (dot : s.AtLastDot) : s.currentKind = .dot := by
  obtain ⟨placed, rest, kind, -⟩ := dot
  simp [State.currentKind, State.current, rest, kind]

theorem expect_resolves (ends : s.eof.kind = .eof) (loose : s.Loose) {kind : Kind}
    (notEnd : kind ≠ .eof) (notDot : kind ≠ .dot) :
    Gives (expect kind) s fun _ t => t.Marked := by
  rcases loose with marked | done | dot
  · exact Gives.persists marked
  · exact expect_marks (State.isAt_of_done ends done notEnd)
  · exact expect_marks (by simp [State.isAt, currentKind_of_lastDot dot, notDot.symm])

theorem isAtWord_of_loose (ends : s.eof.kind = .eof) (loose : s.Loose) (word : String) :
    s.Marked ∨ s.isAtWord word = false := by
  rcases loose with marked | done | dot
  · exact Or.inl marked
  · exact Or.inr (State.isAtWord_of_done ends done word)
  · refine Or.inr (State.isAtWord_of_other ?_ word)
    rw [currentKind_of_lastDot dot]
    decide

theorem expectWord_resolves (ends : s.eof.kind = .eof) (loose : s.Loose) (word : String) :
    Gives (expectWord word) s fun _ t => t.Marked := by
  rcases isAtWord_of_loose ends loose word with marked | other
  · exact Gives.persists marked
  · exact expectWord_marks other

theorem missing_follows (embeds : frame.Embeds s s') (kind : Kind) :
    Follows frame State.Marked (missing kind) (missing kind) s s' := by
  by_cases goesOn : frame.goesOn
  · exact FollowsUnless.spoil goesOn (missing_marks kind s)
  · have range := embeds.range_eq fun holds => absurd holds goesOn
    have start : s'.current.range.start = s.current.range.start + frame.bytes := by
      rw [range]
      rfl
    have told := embeds.report ⟨.missingToken kind, Range.empty s.current.range.start⟩
    rw [Follows, FollowsUnless, outcome_missing]
    refine Or.inr ⟨_, outcome_missing kind s', ?_⟩
    rw [start]
    exact told

theorem expect_follows (embeds : frame.Embeds s s') {kind : Kind} (notEnd : kind ≠ .eof) :
    Follows frame State.Marked (expect kind) (expect kind) s s' := by
  rcases frame.sees_or_done s with sees | ⟨goesOn, done⟩
  · have same := embeds.isAt_eq sees kind
    cases here : s.isAt kind with
    | true =>
      have more := State.more_of_isAt embeds.ends here notEnd
      rw [here] at same
      exact FollowsUnless.congr (outcome_expect_of_true here) (outcome_expect_of_true same)
        (advance_follows embeds more)
    | false =>
      rw [here] at same
      exact FollowsUnless.congr (outcome_expect_of_false here) (outcome_expect_of_false same)
        (missing_follows embeds kind)
  · exact FollowsUnless.spoil goesOn (expect_marks (State.isAt_of_done embeds.ends done notEnd))

theorem expectWord_follows (embeds : frame.Embeds s s') (word : String) :
    Follows frame State.Marked (expectWord word) (expectWord word) s s' := by
  rcases frame.sees_or_done s with sees | ⟨goesOn, done⟩
  · have same := embeds.isAtWord_eq sees word
    cases here : s.isAtWord word with
    | true =>
      have more := State.more_of_isAtWord embeds.ends here
      rw [here] at same
      exact FollowsUnless.congr (outcome_expectWord_of_true here) (outcome_expectWord_of_true same)
        (advance_follows embeds more)
    | false =>
      rw [here] at same
      exact FollowsUnless.congr (outcome_expectWord_of_false here)
        (outcome_expectWord_of_false same) (missing_follows embeds .identifier)
  · exact FollowsUnless.spoil goesOn
      (expectWord_marks (State.isAtWord_of_done embeds.ends done word))

theorem eatIf_follows (embeds : frame.Embeds s s') {test : State → Bool} {spoiled : State → Prop}
    (same : test s' = test s) (more : test s = true → s.rest ≠ []) :
    Follows frame spoiled (eatIf test) (eatIf test) s s' := by
  unfold eatIf
  refine FollowsUnless.get (FollowsUnless.ite (by rw [same]) (fun here => ?_) fun _ => ?_)
  · exact FollowsUnless.advance (fun _ => rfl) embeds (more here) fun _ _ _ _ embeds =>
      FollowsUnless.pure embeds
  · exact FollowsUnless.pure embeds

theorem eatWord_follows (embeds : frame.Embeds s s') (sees : frame.goesOn → s.rest ≠ [])
    {word : String} {spoiled : State → Prop} :
    Follows frame spoiled (eatWord word) (eatWord word) s s' :=
  eatIf_follows embeds (embeds.isAtWord_eq sees _) fun here =>
    State.more_of_isAtWord embeds.ends here

private theorem FollowsUnless.report {β : Type} {spoiled : β → State → Prop} {g g' : Unit → Read β}
    {diagnostic diagnostic' : Diagnostic} (moved : diagnostic' = diagnostic.shift frame.bytes)
    (next : FollowsUnless frame spoiled (g ()) (g' ())
      { s with diagnostics := s.diagnostics ++ [diagnostic] }
      { s' with diagnostics := s'.diagnostics ++ [diagnostic.shift frame.bytes] }) :
    FollowsUnless frame spoiled (Grammar.report diagnostic >>= g)
      (Grammar.report diagnostic' >>= g') s s' := by
  rw [moved]
  exact next

theorem errorNode_follows (embeds : frame.Embeds s s') (more : s.rest ≠ []) (expected : Kind) :
    Follows frame State.Marked (errorNode expected) (errorNode expected) s s' := by
  have current := embeds.current_eq fun _ => more
  have range := embeds.range_eq fun _ => more
  have kind : s'.current.kind = s.current.kind := by
    rw [current]
    rfl
  unfold errorNode
  refine FollowsUnless.get ?_
  simp only [kind, range]
  refine FollowsUnless.report rfl ?_
  exact FollowsUnless.advance (fun _ => rfl) (embeds.report _) more fun _ _ _ _ embeds =>
    FollowsUnless.pure embeds

theorem eatSeparator_follows (embeds : frame.Embeds s s') {spoiled : State → Prop} :
    Follows frame spoiled eatSeparator eatSeparator s s' := by
  refine eatIf_follows embeds ?_ fun here => ?_
  · cases line : s.previousEndsLine with
    | true => simp [embeds.previousEndsLine_eq, line]
    | false =>
      have sees := embeds.sees_of_line line
      simp [embeds.previousEndsLine_eq, line, embeds.isAtSeparator_eq sees]
  · rw [Bool.and_eq_true] at here
    exact State.more_of_isAtSeparator embeds.ends here.2

theorem progressing_follows (embeds : frame.Embeds s s') (more : s.rest ≠ []) {expected : Kind}
    {read read' : Read Element} [Forward read]
    (follows : Follows frame State.Marked read read' s s') :
    Follows frame State.Marked (progressing expected read) (progressing expected read') s s' := by
  unfold progressing
  refine FollowsUnless.get (Follows.chain embeds follows fun element t t' _ embeds' => ?_)
  refine FollowsUnless.get (FollowsUnless.ite ?_ (fun same => ?_) fun _ => ?_)
  · rw [embeds'.length_eq, embeds.length_eq]
    omega
  · have left : t.rest ≠ [] := by
      rw [← List.length_pos_iff, same, List.length_pos_iff]
      exact more
    exact Follows.chain embeds' (errorNode_follows embeds' left expected) fun _ _ _ _ embeds =>
      FollowsUnless.pure embeds
  · exact FollowsUnless.pure embeds'

end

section

variable {m : Type → Type} [Monad m] [MonadStateOf State m] [Outcome m] {α : Type}
  {frame : Frame} {s s' : State} {step step' : α → m (Option α)}
  [∀ value, Forward (step value)] {mid spoiled : α → State → Prop} {bound : Nat}

/-- What a round of a loop spoils: the loop goes on from what is not sound, or stops with it. -/
def spoiledRound (mid spoiled : α → State → Prop) (value : α) : Option α → State → Prop
  | some further, t => mid further t
  | none, t => spoiled value t

private theorem FollowsUnless.iterate (steady : Steady step)
    (round : ∀ value t t', frame.Embeds t t' → t.rest.length ≤ bound →
      FollowsUnless frame (spoiledRound mid spoiled value) (step value) (step' value) t t')
    (keeps : frame.goesOn → ∀ count value t, t.eof.kind = .eof → t.rest.length ≤ count →
      mid value t → Gives (Grammar.iterate step count value) t spoiled)
    (count : Nat) (embeds : frame.Embeds s s') (enough : s.rest.length ≤ count)
    (short : s.rest.length ≤ bound) (value : α) :
    FollowsUnless frame spoiled (Grammar.iterate step count value)
      (Grammar.iterate step' count value) s s' := by
  induction count generalizing value s s' with
  | zero => exact FollowsUnless.pure embeds
  | succ count ih =>
    have first := round value s s' embeds short
    rw [FollowsUnless] at first
    cases found : outcome (step value) s with
    | error failure =>
      rw [found] at first
      rw [FollowsUnless, Grammar.iterate, outcome_bind, found]
      intro stops
      rw [Grammar.iterate, outcome_bind, first stops]
      rfl
    | ok result =>
      obtain ⟨further, t⟩ := result
      rw [found] at first
      have moves : s.Moves t := Forward.moves s further t found
      have left := outcome_iterate_succ found count
      rcases first with ⟨goesOn, lost⟩ | ⟨t', found', embeds'⟩
      · refine FollowsUnless.spoil goesOn fun b u yields => ?_
        rw [left] at yields
        cases further with
        | none =>
          have stopped : Gives (Pure.pure value : m α) t spoiled := Gives.pure lost
          exact stopped b u yields
        | some further =>
          have shorter := steady.uses value s embeds.ends _ _ found rfl
          have ends := moves.ends embeds.ends
          exact keeps goesOn count further t ends (by omega) lost b u yields
      · have right := outcome_iterate_succ found' count
        refine FollowsUnless.congr left right ?_
        cases further with
        | none => exact FollowsUnless.pure embeds'
        | some further =>
          have shorter := steady.uses value s embeds.ends _ _ found rfl
          exact ih embeds' (by omega) (by omega) further

theorem FollowsUnless.repeated (steady : Steady step) (embeds : frame.Embeds s s')
    (short : s.rest.length ≤ bound)
    (round : ∀ value t t', frame.Embeds t t' → t.rest.length ≤ bound →
      FollowsUnless frame (spoiledRound mid spoiled value) (step value) (step' value) t t')
    (keeps : frame.goesOn → ∀ count value t, t.eof.kind = .eof → t.rest.length ≤ count →
      mid value t → Gives (Grammar.iterate step count value) t spoiled) (value : α) :
    FollowsUnless frame spoiled
      (MonadState.get >>= fun state : State => Grammar.iterate step state.rest.length value)
      (MonadState.get >>= fun state : State => Grammar.iterate step' state.rest.length value)
      s s' := by
  have longer := embeds.length_eq
  -- The bound of the longer text does for the shorter one, so both loops run on one bound.
  refine FollowsUnless.get (FollowsUnless.congr ?_ rfl
    (FollowsUnless.iterate steady round keeps s'.rest.length embeds (by omega) short value))
  exact iterate_enough steady embeds.ends (Nat.le_refl _) (by omega) value

theorem Follows.repeated {spoiled : State → Prop} [State.Persists spoiled] (steady : Steady step)
    (embeds : frame.Embeds s s') (short : s.rest.length ≤ bound)
    (round : ∀ value t t', frame.Embeds t t' → t.rest.length ≤ bound →
      Follows frame spoiled (step value) (step' value) t t') (value : α) :
    Follows frame spoiled
      (MonadState.get >>= fun state : State => Grammar.iterate step state.rest.length value)
      (MonadState.get >>= fun state : State => Grammar.iterate step' state.rest.length value)
      s s' := by
  have rounds (value : α) (t t' : State) (embeds : frame.Embeds t t')
      (short : t.rest.length ≤ bound) :
      FollowsUnless frame (spoiledRound (fun _ => spoiled) (fun _ => spoiled) value) (step value)
        (step' value) t t' := by
    refine (round value t t' embeds short).mono fun further u holds => ?_
    cases further <;> exact holds
  exact FollowsUnless.repeated steady embeds short rounds
    (fun _ _ _ _ _ _ holds => Gives.persists holds) value

end

end MatrixScript.Grammar
