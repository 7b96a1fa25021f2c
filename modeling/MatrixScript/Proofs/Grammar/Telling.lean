import MatrixScript.Proofs.Grammar.Failing
import MatrixScript.Proofs.Grammar.Reports
import MatrixScript.Proofs.Lexer.Places
import MatrixScript.Proofs.Lexer.Ranges

/-!
What is told of a script can be shown in its text.

A parser tells that a token is missing in front of one that is to come, or that one is not expected
where it stands; either way at the range of a token of the text (`Tandem.told`), and so on the way
to where a script fails as well (`Rule.Reaches.told`). So with the problems that the lexer finds,
all that is told of a script stands between characters of its text, in the list of the tree, on its
elements, and where there is no tree (`Tree.parse_shown`).
-/

set_option autoImplicit false

namespace MatrixScript

namespace Grammar

/-- What a parser can tell of the tokens to come. -/
inductive State.Tells (s : State) : Diagnostic → Prop
  | missing {placed : PlacedToken} (kind : Kind) (member : placed ∈ s.toCome) :
    s.Tells ⟨.missingToken kind, Range.empty placed.range.start⟩
  /-- The end of the text is never unexpected. -/
  | unexpected {placed : PlacedToken} (expected : Kind) (member : placed ∈ s.rest) :
    s.Tells ⟨.unexpectedToken expected placed.kind, placed.range⟩

/-- A state after another, in which nothing is told but of the tokens to come there. -/
structure State.Told (init s : State) : Prop where
  rest : s.rest <:+ init.rest
  eof : s.eof = init.eof
  told : ∀ diagnostic ∈ s.diagnostics, diagnostic ∈ init.diagnostics ∨ init.Tells diagnostic

namespace State.Told

variable {init s : State} {placed : PlacedToken} {rest : List PlacedToken}

private theorem start (init : State) : init.Told init :=
  ⟨List.suffix_refl _, rfl, fun _ member => Or.inl member⟩

private theorem used (told : init.Told s) (ahead : s.rest = placed :: rest) :
    init.Told (s.afterToken placed rest) where
  rest := (ahead ▸ List.suffix_cons placed rest : rest <:+ s.rest).trans told.rest
  eof := told.eof
  told := told.told

private theorem reported (told : init.Told s) {diagnostic : Diagnostic}
    (tells : init.Tells diagnostic) :
    init.Told (s.afterReport diagnostic) where
  rest := told.rest
  eof := told.eof
  told := by
    intro other member
    rcases List.mem_append.mp member with before | here
    · exact told.told other before
    · rw [List.mem_singleton.mp here]
      exact Or.inr tells

private theorem toCome (told : init.Told s) : ∀ placed ∈ s.toCome, placed ∈ init.toCome := by
  intro placed member
  rw [State.toCome, told.eof] at member
  rcases List.mem_append.mp member with ahead | last
  · exact List.mem_append_left _ (told.rest.mem ahead)
  · exact List.mem_append_right _ last

private theorem current_mem (told : init.Told s) : s.current ∈ init.toCome := by
  obtain ⟨later, toCome⟩ := s.toCome_eq_cons
  exact told.toCome s.current (by simp [toCome])

private theorem tells (told : init.Told s) {diagnostic : Diagnostic} (tells : s.Tells diagnostic) :
    init.Tells diagnostic := by
  cases tells with
  | missing kind member => exact .missing kind (told.toCome _ member)
  | unexpected expected member => exact .unexpected expected (told.rest.mem member)

private theorem trans {t : State} (first : init.Told s) (second : s.Told t) : init.Told t where
  rest := second.rest.trans first.rest
  eof := second.eof.trans first.eof
  told diagnostic member := by
    rcases second.told diagnostic member with before | tells
    · exact first.told diagnostic before
    · exact Or.inr (first.tells tells)

end State.Told

/-- Whatever moves a parser makes, it tells of tokens to come. -/
theorem Tandem.told {init init' s s' : State} {held held' : Row}
    (tandem : Tandem init init' held s held' s') : init.Told s := by
  induction tandem with
  | start alike => exact .start init
  | use before ahead _ ih => exact ih.used ahead
  | lack kind proper before ih => exact ih.reported (.missing kind ih.current_mem)
  | @wrap _ _ s _ placed _ rest _ expected before ahead _ ih =>
    have member : placed ∈ init.rest := ih.rest.mem (by simp [ahead])
    exact (ih.reported (.unexpected expected member)).used ahead
  | leave before ih => exact ih
  | join kind plain same before ih => exact ih
  | link before ahead links same after _ ih => exact ih

private theorem block_agrees {init init' : State} (inside : Bool) (held held' : Row) (s s' : State)
    (tandem : Tandem init init' held s held' s') :
    Agrees (block inside) (block inside) s s' (AddsElement init init' held held') := by
  refine Agrees.get ?_
  rw [tandem.alike.length_eq]
  exact blockWithin_agrees inside _ tandem

/-! Of parsers that can fail it has to be said part by part what they tell on the way. -/

section

variable {m : Type → Type} [Monad m] [MonadStateOf State m] [Outcome m] {α β : Type} {s : State}

def Telling (f : m α) (s : State) : Prop := Gives f s fun _ t => s.Told t

namespace Telling

private theorem pure (a : α) (s : State) : Telling (Pure.pure a : m α) s := Gives.pure (.start s)

private theorem andThen {f : m α} {g : α → m β} (ends : s.eof.kind = .eof) (first : Telling f s)
    (next : ∀ a t, t.eof.kind = .eof → Telling (g a) t) : Telling (f >>= g) s := by
  refine Gives.andThen first fun a t told => ?_
  have ends' : t.eof.kind = .eof := by rw [told.eof, ends]
  exact (next a t ends').mono fun _ _ later => told.trans later

private theorem get {g : State → m β} (next : Telling (g s) s) : Telling (MonadState.get >>= g) s :=
  Gives.get next

private theorem ite {c : Prop} [Decidable c] {f g : m α} (yes : c → Telling f s)
    (no : ¬c → Telling g s) :
    Telling (if c then f else g) s := Gives.ite yes no

private theorem lift {f : Read α} (first : Telling f s) : Telling (liftM f : Parse α) s := first

private theorem of_agrees {f : m α} {post : α → α → State → State → Prop}
    (ends : s.eof.kind = .eof)
    (agrees : Tandem s s [] s [] s → Agrees f f s s post)
    (moves : ∀ a t, post a a t t → ∃ held, Tandem s s held t held t) : Telling f s := by
  refine (agrees (.start (.refl ends))).gives.mono fun a t after => ?_
  obtain ⟨held, tandem⟩ := moves a t after
  exact tandem.told

private theorem advance (s : State) : Telling Grammar.advance s := by
  intro token t yields
  cases ahead : s.rest with
  | nil =>
    simp only [outcome_read, Grammar.advance, ahead, Except.ok.injEq, Prod.mk.injEq] at yields
    rw [← yields.2]
    exact .start s
  | cons placed rest =>
    rw [outcome_advance ahead, Except.ok.injEq, Prod.mk.injEq] at yields
    rw [← yields.2]
    exact (State.Told.start s).used ahead

private theorem eatIf (test : State → Bool) (s : State) : Telling (Grammar.eatIf test) s :=
  Gives.eatIf (fun _ => advance s) fun _ => .start s

variable (ends : s.eof.kind = .eof)

include ends

private theorem element {f : m Element} (agrees : Tandem s s [] s [] s →
    Agrees f f s s (AddsElement s s [] [])) : Telling f s :=
  of_agrees ends agrees fun _ _ tandem => ⟨_, tandem⟩

private theorem expect {kind : Kind} (other : kind ≠ .eof) (proper : kind ≠ .badToken) :
    Telling (Grammar.expect kind) s :=
  of_agrees ends (fun tandem => expect_agrees tandem other proper) fun _ _ tandem => ⟨_, tandem⟩

theorem expression (inside : Bool) : Telling (Grammar.expression inside) s :=
  element ends fun tandem => expression_agrees tandem inside

private theorem slots {f : m (List (Option Element))} (agrees : Tandem s s [] s [] s →
    Agrees f f s s (AddsSlots s s [] [])) : Telling f s :=
  of_agrees ends agrees fun _ _ after => ⟨_, after.2⟩

/-- A round of a loop over elements. -/
theorem step {f : m (Option (List Element))} (agrees : Tandem s s [] s [] s →
    Agrees f f s s (BothGo (AddsElements s s [] []) [] [])) : Telling f s := by
  refine of_agrees ends agrees fun further t after => ?_
  cases further with
  | none => exact ⟨_, after.2⟩
  | some elements => exact ⟨_, after.2⟩

private theorem optionally {test : State → Bool} {part : Read Element}
    (present : test s = true → Telling part s) : Telling (Grammar.optionally test part) s :=
  .get (.ite (fun here => (present here).andThen ends fun _ _ _ => .pure _ _) fun _ => .pure _ _)

private theorem attributes (more : s.rest ≠ []) : Telling attributeList s :=
  element ends fun tandem => attributeList_agrees tandem more

private theorem bases (more : s.rest ≠ []) : Telling baseClassList s :=
  element ends fun tandem => baseClassList_agrees tandem more

theorem block (inside : Bool) : Telling (Grammar.block inside) s :=
  element ends fun tandem => block_agrees inside _ _ _ _ tandem

end Telling

/-! The heads of rules. -/

section

variable (ends : s.eof.kind = .eof)

include ends

private theorem wordHead_telling : Telling wordHead s :=
  .andThen ends (.advance s) fun _ t ends => .andThen ends (.eatIf _ t) fun _ _ _ => .pure _ _

private theorem clauseHead_telling (inside : Bool) : Telling (clauseHead inside) s :=
  .andThen ends (.advance s) fun _ _ ends => .andThen ends (.expression ends inside)
    fun _ t ends => .andThen ends (.eatIf _ t) fun _ _ _ => .pure _ _

private theorem functionHead_telling : Telling functionHead s :=
  .andThen ends (.advance s) fun _ _ ends => .andThen ends (.slots ends signature_agrees)
    fun _ _ _ => .pure _ _

private theorem handlerHead_telling : Telling handlerHead s :=
  .andThen ends (.advance s) fun _ t ends => .andThen ends (.eatIf _ t)
    fun _ t ends => .andThen ends (.eatIf _ t) fun _ _ _ => .pure _ _

private theorem memberHead_telling : Telling memberHead s :=
  .andThen ends (.advance s) fun _ _ ends => .optionally ends fun here =>
    .attributes ends (State.more_of_isAt ends (Bool.and_eq_true_iff.mp here).1 (by decide))

private theorem classHead_telling : Telling classHead s :=
  .andThen ends (.advance s) fun _ t ends => .andThen ends
    (.optionally ends fun here => .attributes ends (State.more_of_isAt ends here (by decide)))
    fun _ t ends => .andThen ends (.expect ends (by decide) (by decide))
    fun _ t ends => .optionally ends fun here =>
      .bases ends (State.more_of_isAt ends here (by decide))

private theorem clause_telling (more : s.rest ≠ []) (inside : Bool) :
    Telling (clause (block inside) inside) s :=
  .slots ends fun tandem => clause_agrees (block_agrees inside) tandem more inside

end

private theorem Rule.part_telling {inside : Bool} {rule : Rule} {way : Way}
    (member : way ∈ rule.ways inside) (ends : s.eof.kind = .eof) (more : s.rest ≠ []) :
    Telling way.part s := by
  have word := (wordHead_telling ends).lift
  have clause := (clauseHead_telling ends inside).lift
  have function := (functionHead_telling ends).lift
  cases rule with
  | statements scope =>
    simp only [ways, List.mem_cons, List.not_mem_nil, or_false] at member
    rcases member with rfl | rfl | rfl | rfl | rfl | rfl | rfl | rfl | rfl | rfl
    · exact function
    · exact (classHead_telling ends).lift
    · exact clause
    · exact clause
    · exact clause
    · exact .andThen ends (clause_telling ends more inside) fun _ _ _ => .pure _ _
    · exact clause
    · exact clause
    · exact word
    · exact .andThen ends word fun _ _ ends =>
        .andThen ends (.block ends inside) fun _ _ _ => .pure _ _
  | alternatives =>
    simp only [ways, List.mem_cons, List.not_mem_nil, or_false] at member
    rcases member with rfl | rfl
    · exact clause
    · exact (Telling.andThen ends (.advance s) fun _ _ _ => .pure _ _).lift
  | cases =>
    simp only [ways, List.mem_cons, List.not_mem_nil, or_false] at member
    rcases member with rfl | rfl
    · exact clause
    · exact word
  | handler =>
    simp only [ways, List.mem_cons, List.not_mem_nil, or_false] at member
    rw [member]
    exact (handlerHead_telling ends).lift
  | members body =>
    cases body <;> simp only [ways, List.mem_cons, List.not_mem_nil, or_false] at member
    case blocks =>
      rcases member with rfl | rfl | rfl | rfl <;> exact (memberHead_telling ends).lift
    case methods =>
      rw [member]
      exact function

private theorem ClassBody.member_telling (inside : Bool) (body : ClassBody)
    (ends : s.eof.kind = .eof)
    (more : s.rest ≠ []) : Telling (body.member (block inside)) s := by
  refine .element ends fun tandem => ?_
  cases body with
  | blocks => exact classMember_agrees (block_agrees inside) tandem more
  | methods => exact method_agrees (block_agrees inside) tandem more
  | events => exact event_agrees tandem more
  | enumerators => exact enumerator_agrees tandem more

/-- In one round of the loop of a rule, nothing is told but of the tokens ahead. -/
theorem Rule.step_telling (inside : Bool) (rule : Rule) (ends : s.eof.kind = .eof) :
    Telling (rule.step inside []) s := by
  have start (tandem : Tandem s s [] s [] s) : AddsElements s s [] [] [] [] s s := ⟨rfl, tandem⟩
  cases rule with
  | statements scope =>
    exact .step ends fun tandem =>
      statementStep_agrees (block_agrees inside) (start tandem) inside scope
  | alternatives =>
    refine .get (.ite (fun here => ?_) fun _ => .pure _ _)
    exact .andThen ends (clause_telling ends (State.more_of_isAtWord ends here) inside)
      fun _ _ _ => .pure _ _
  | cases =>
    exact .step ends fun tandem => switchStep_agrees (block_agrees inside) (start tandem) inside
  | handler => exact .pure _ _
  | members body =>
    refine .get (.ite (fun _ => .pure _ _) fun here => ?_)
    rw [Bool.or_eq_true, not_or] at here
    exact .andThen ends (body.member_telling inside ends (State.more_of_not_isAtEnd ends here.1))
      fun _ _ _ => .pure _ _

end

namespace Rule

variable {inside : Bool} {before after : Rule × State}

theorem Leads.told (leads : Leads inside before after) (ends : before.2.eof.kind = .eof) :
    before.2.Told after.2 := by
  cases leads with
  | @further rule s t elements goesOn => exact rule.step_telling inside ends _ _ goesOn
  | @within rule s t way member here opens =>
    exact part_telling member ends (State.more_of_isAtWord ends here) _ _ opens

/-- Wherever a rule comes, nothing has been told but of the tokens that were ahead of it. -/
theorem Reaches.told (reaches : Reaches inside before after) (ends : before.2.eof.kind = .eof) :
    before.2.Told after.2 := by
  induction reaches with
  | refl => exact .start _
  | tail earlier leads ih => exact ih.trans (leads.told ((Reaches.moves earlier ends).ends ends))

end Rule

private theorem script_told {stream : TokenStream} {inside : Bool} (ends : stream.eof.kind = .eof)
    (kinds : ∀ placed ∈ stream.tokens, placed.kind ≠ .eof) :
    Gives (script inside) (.ofStream stream) fun _ t =>
      ∀ diagnostic ∈ t.diagnostics, (State.ofStream stream).Tells diagnostic := by
  refine (script_tandem ends kinds).mono fun root t facts => ?_
  obtain ⟨statements, moves, -⟩ := facts
  intro diagnostic member
  rcases moves.told.told diagnostic member with before | tells
  · cases before
  · exact tells

end Grammar

private theorem PlacedToken.range_shown {text : List Char} {stream : TokenStream}
    (lexed : tokenize text = .ok stream) :
    ∀ placed ∈ stream.toList, placed.range.ShownIn text := by
  intro placed member
  obtain ⟨trimmed, cut⟩ := (Lexer.start_inPlace text).tokens.1 stream lexed placed member
  rw [← cut] at trimmed
  exact .of_cut? trimmed

private theorem Grammar.State.Tells.shown {text : List Char} {stream : TokenStream}
    (lexed : tokenize text = .ok stream) {diagnostic : Diagnostic}
    (tells : (State.ofStream stream).Tells diagnostic) : diagnostic.range.ShownIn text := by
  cases tells with
  | missing kind member => exact .empty (PlacedToken.range_shown lexed _ member).start
  | unexpected expected member =>
    exact PlacedToken.range_shown lexed _ (List.mem_append_left _ member)

private theorem TokenStream.diagnostics_shown {text : List Char} {stream : TokenStream}
    (lexed : tokenize text = .ok stream) :
    ∀ diagnostic ∈ stream.diagnostics, diagnostic.range.ShownIn text := by
  intro diagnostic member
  obtain ⟨placed, here, own⟩ := List.mem_flatMap.mp member
  obtain ⟨call, yields⟩ := Lexer.exists_call lexed here
  rw [(Lexer.diagnostics_eq_found yields).1] at own
  exact (Lexer.after_inPlace text call).shown_found diagnostic own

private theorem Token.place_of_mem_lacks {tokens : List Token} {offset : Nat} {lack : Lack}
    (empty : ∀ token ∈ tokens, token.isMissing = true → token.text = [])
    (member : lack ∈ lacks offset tokens) :
    ∃ front back, front ++ back = tokens ∧
      lack.place = offset + Text.byteSize (front.flatMap Token.text) := by
  induction tokens generalizing offset with
  | nil => simp [lacks] at member
  | cons token tokens ih =>
    rw [List.forall_mem_cons] at empty
    have behind {start : Nat} (later : lack ∈ lacks start tokens)
        (start_eq : start = offset + token.width) : ∃ front back, front ++ back = token :: tokens ∧
          lack.place = offset + Text.byteSize (front.flatMap Token.text) := by
      obtain ⟨front, back, rfl, place⟩ := ih empty.2 later
      refine ⟨token :: front, back, rfl, ?_⟩
      rw [place, start_eq, List.flatMap_cons, Text.byteSize_append, Nat.add_assoc, Token.width]
    rw [lacks] at member
    split at member
    · rename_i missing
      rcases List.mem_cons.mp member with rfl | later
      · exact ⟨[], token :: tokens, rfl, rfl⟩
      · exact behind later (by simp [Token.width, empty.1 missing])
    · exact behind member rfl

private theorem Failure.Shows.shown {failure : Failure} {text : List Char}
    (shows : failure.Shows text) :
    failure.diagnostic.range.ShownIn text := by
  unfold Shows at shows
  refine .of_cut? ?_
  split at shows
  · obtain ⟨spelled, -, cut⟩ := shows
    rw [cut]
    rfl
  · obtain ⟨spelled, -, cut⟩ := shows
    rw [cut]
    rfl
  · rw [shows.1]
    rfl
  · exact shows.elim

namespace Tree

variable {text : List Char} {options : Options} {name : Option String} {tree : Tree}

private theorem parse_told (parsed : Tree.parse text options name = .ok tree) :
    ∃ stream state, tokenize text = .ok stream ∧
      Grammar.script options.insideBrackets (.ofStream stream) = .ok (tree.root, state) ∧
      tree.diagnostics = Diagnostic.sortByStart (stream.diagnostics ++ state.diagnostics) := by
  cases lexed : tokenize text with
  | error failure => simp [Tree.parse_eq, lexed, bind, Except.bind] at parsed
  | ok stream =>
    cases read : Grammar.script options.insideBrackets (.ofStream stream) with
    | error failure => simp [Tree.parse_eq, lexed, bind, Except.bind, read] at parsed
    | ok result =>
      simp only [Tree.parse_eq, lexed, bind, Except.bind, read, pure, Except.pure,
        Except.ok.injEq] at parsed
      rw [← parsed]
      exact ⟨stream, result.2, rfl, read, rfl⟩

private theorem diagnostics_shown (parsed : Tree.parse text options name = .ok tree) :
    ∀ diagnostic ∈ tree.diagnostics, diagnostic.range.ShownIn text := by
  obtain ⟨stream, state, lexed, read, listed⟩ := parse_told parsed
  obtain ⟨-, ends, kinds, -⟩ := Lexer.tokens_ok lexed
  intro diagnostic member
  rw [listed, (Diagnostic.sortByStart_perm _).mem_iff, List.mem_append] at member
  rcases member with own | told
  · exact TokenStream.diagnostics_shown lexed diagnostic own
  · exact (Grammar.script_told ends kinds tree.root state read diagnostic told).shown lexed

private theorem attached_shown (parsed : Tree.parse text options name = .ok tree) :
    ∀ diagnostic ∈ tree.root.attached, diagnostic.range.ShownIn text := by
  obtain ⟨others, lacks, -⟩ := parse_problems parsed
  intro diagnostic member
  cases missing : diagnostic.isMissing with
  | false =>
    have kept : diagnostic ∈ tree.root.attached.filter (!·.isMissing) :=
      List.mem_filter.mpr ⟨member, by rw [missing]; rfl⟩
    rw [others.mem_iff] at kept
    exact diagnostics_shown parsed diagnostic (List.mem_of_mem_filter kept)
  | true =>
    have kept : diagnostic ∈ tree.root.attached.filter (·.isMissing) :=
      List.mem_filter.mpr ⟨member, missing⟩
    rw [lacks] at kept
    obtain ⟨lack, here, rfl⟩ := List.mem_map.mp kept
    obtain ⟨-, -, -, -, -, empty, whole, -⟩ := parse_conserves parsed
    obtain ⟨front, back, parts, place⟩ := Token.place_of_mem_lacks empty here
    refine .empty ⟨front.flatMap Token.text, back.flatMap Token.text, ?_, ?_⟩
    · rw [← List.flatMap_append, parts]
      exact whole
    · rw [place, Nat.zero_add]

/-- All that is told of a text can be shown in it: what a tree lists, in the order of starts and what
the lexer finds first; what is kept on the elements of the tree; and why there is no tree. The lexer
finds no problem in front of the token that it reads, so it can be counted from there. -/
theorem parse_shown (text : List Char) (options : Options) (name : Option String) :
    (∀ tree, Tree.parse text options name = .ok tree →
      (∀ diagnostic ∈ tree.diagnostics, diagnostic.range.ShownIn text) ∧
      (∃ stream state, tokenize text = .ok stream ∧
        Grammar.script options.insideBrackets (.ofStream stream) = .ok (tree.root, state) ∧
        Diagnostic.Merged stream.diagnostics state.diagnostics tree.diagnostics) ∧
      ∀ place ∈ (Located.root tree.root).preorder,
        (∀ diagnostic ∈ place.attached, diagnostic.range.ShownIn text) ∧
        (Text.byteSize text ≤ Diagnostic.offsetLimit →
          place.diagnostics? = some place.attached)) ∧
    (∀ failure, Tree.parse text options name = .error failure →
      failure.diagnostic.range.ShownIn text) ∧
    ∀ count, let lexer := (Lexer.start text).after count
      let found := lexer.reading.found lexer.position.offset
      (∀ diagnostic ∈ found, diagnostic.range.ShownIn text) ∧
      found.mapM (·.since? lexer.position.offset) = some lexer.reading.diagnostics ∧
      ∀ placed, lexer.next.1 = .ok placed →
        placed.token.diagnostics = lexer.reading.diagnostics ∧ placed.diagnostics = found := by
  refine ⟨fun tree parsed => ⟨diagnostics_shown parsed, ?_, fun place member => ?_⟩,
    fun failure failed => (shows_of_parse failed).shown, fun count => ?_⟩
  · obtain ⟨stream, state, lexed, read, listed⟩ := parse_told parsed
    refine ⟨stream, state, lexed, read, ?_⟩
    rw [listed]
    exact Diagnostic.merged_sortByStart _ _
  · have shown : ∀ diagnostic ∈ place.attached, diagnostic.range.ShownIn text :=
      fun diagnostic here =>
        attached_shown parsed diagnostic (List.mem_flatMap.mpr ⟨place, member, here⟩)
    exact ⟨shown, fun bound => Located.diagnostics?_eq fun diagnostic here =>
      Nat.le_trans (shown diagnostic here).inside bound⟩
  · refine ⟨(Lexer.after_inPlace text count).shown_found, Reading.since?_found _ _, ?_⟩
    intro placed yields
    obtain ⟨found, own⟩ := Lexer.diagnostics_eq_found yields
    exact ⟨own, found⟩

/-- A number that lacks its digits in front of a wide character, which is an unknown symbol; and a
string that ends with the text, where an operand is missing. -/
theorem parse_shown_wide :
    ∃ tree, Tree.parse "x = 1eß;\ny = \n'é".toList {} none = .ok tree ∧
      tree.diagnostics.map Diagnostic.range = [⟨6, 8⟩, ⟨6, 8⟩, ⟨6, 8⟩, ⟨15, 18⟩, ⟨15, 15⟩] ∧
      ∀ diagnostic ∈ tree.diagnostics,
        diagnostic.range.ShownIn "x = 1eß;\ny = \n'é".toList := by
  have told : (Tree.parse "x = 1eß;\ny = \n'é".toList {} none).toOption.any (fun tree =>
      tree.diagnostics.map Diagnostic.range ==
        [⟨6, 8⟩, ⟨6, 8⟩, ⟨6, 8⟩, ⟨15, 18⟩, ⟨15, 15⟩]) = true := by
    decide +kernel
  obtain ⟨tree, parsed, told⟩ := exists_ok_of_any told
  exact ⟨tree, parsed, beq_iff_eq.mp told, ((parse_shown _ _ _).1 tree parsed).1⟩

end Tree

end MatrixScript
