import MatrixScript.Proofs.Grammar.Locality

/-!
Classes and statements in a longer text.

What ends with `end` shows at that word whether something inside it was left open. Only a function
outside a class can do without `end`, and then it goes on to the end of the text; so a statement
that is not the same in a longer text has a problem or is such a function.
-/

set_option autoImplicit false

namespace MatrixScript

def Element.lacksEnd : Element → Bool
  | .node .functionDeclaration slots _ => (slots[5]?).join.isNone
  | _ => false

namespace Grammar

section

variable {frame : Frame} {s s' : State}

private theorem attributeValue_follows (embeds : frame.Embeds s s') :
    Follows frame State.Loose attributeValue attributeValue s s' := by
  rcases frame.sees_or_done s with sees | ⟨goesOn, done⟩
  · unfold attributeValue
    have equals : Follows frame State.Loose (eat .equals) (eat .equals) s s' :=
      eatIf_follows embeds (embeds.isAt_eq sees _) fun here =>
        State.more_of_isAt embeds.ends here (by decide)
    refine FollowsUnless.andThen embeds equals (fun found t t' _ embeds => ?_)
      fun _ found _ _ loose => ?_
    · cases found with
      | none => exact FollowsUnless.pure embeds
      | some equals =>
        refine FollowsUnless.map ?_
        unfold attributeAssignment
        exact Follows.chain embeds (expression_follows embeds false).loose
          fun _ _ _ _ embeds => FollowsUnless.pure embeds
    · cases found <;> exact Gives.persists loose
  · exact Follows.atEnd goesOn done

private theorem classAttribute_follows (embeds : frame.Embeds s s') (more : s.rest ≠ []) :
    Follows frame State.Loose classAttribute classAttribute s s' := by
  unfold classAttribute
  have negation : Follows frame State.Loose (eat .tilde) (eat .tilde) s s' :=
    eatIf_follows embeds (embeds.isAt_eq (fun _ => more) _) fun _ => more
  refine Follows.chain embeds negation fun negation t t' _ embeds => ?_
  refine Follows.chain embeds (expect_follows embeds (by decide)).loose fun name t t' _ embeds => ?_
  exact Follows.chain embeds (attributeValue_follows embeds) fun _ _ _ _ embeds =>
    FollowsUnless.pure embeds

private theorem attributeList_follows (embeds : frame.Embeds s s') (more : s.rest ≠ []) :
    Follows frame State.Marked attributeList attributeList s s' := by
  unfold attributeList
  refine FollowsUnless.advance (fun _ => rfl) embeds more fun opening t t' _ embeds => ?_
  refine closed_follows (by decide) (by decide) embeds ?_ fun _ _ _ _ embeds _ =>
    FollowsUnless.pure embeds
  refine listUntil_follows (fun _ _ more => Uses.attributeItem more) embeds (Nat.le_refl _)
    fun _ u u' embeds _ more => ?_
  have sees : frame.goesOn → u.rest ≠ [] := fun _ => more
  unfold attributeItem
  refine FollowsUnless.get (FollowsUnless.ite ?_ (fun _ => ?_) fun _ =>
    FollowsUnless.ite ?_ (fun _ => ?_) fun _ => ?_)
  · rw [embeds.isAt_eq sees]
  · exact FollowsUnless.advance (fun _ => rfl) embeds more fun _ _ _ _ embeds =>
      FollowsUnless.pure embeds
  · simp only [embeds.isAt_eq sees]
  · exact Follows.chain embeds (classAttribute_follows embeds more) fun _ _ _ _ embeds =>
      FollowsUnless.pure embeds
  · exact Follows.chain embeds (errorNode_follows embeds more _).loose fun _ _ _ _ embeds =>
      FollowsUnless.pure embeds

private theorem baseClassStep_follows (embeds : frame.Embeds s s') (bases : List Element) :
    Follows frame State.Loose (baseClassStep bases) (baseClassStep bases) s s' := by
  rcases frame.sees_or_done s with sees | ⟨goesOn, done⟩
  · unfold baseClassStep
    have ampersand : Follows frame State.Loose (eat .ampersand) (eat .ampersand) s s' :=
      eatIf_follows embeds (embeds.isAt_eq sees _) fun here =>
        State.more_of_isAt embeds.ends here (by decide)
    refine FollowsUnless.andThen embeds ampersand (fun found t t' _ embeds => ?_)
      fun _ found _ _ loose => ?_
    · cases found with
      | none => exact FollowsUnless.pure embeds
      | some ampersand =>
        have name := (compoundName_follows embeds).mono fun _ _ dotted => dotted.loose
        exact Follows.chain embeds name fun _ _ _ _ embeds => FollowsUnless.pure embeds
    · cases found <;> exact Gives.persists loose
  · exact Follows.atEnd goesOn done

private theorem baseClassList_follows (embeds : frame.Embeds s s') (more : s.rest ≠ []) :
    Follows frame State.Loose baseClassList baseClassList s s' := by
  unfold baseClassList
  refine FollowsUnless.advance (fun _ => rfl) embeds more fun less t t' _ embeds => ?_
  have name := (compoundName_follows embeds).mono fun _ _ dotted => dotted.loose
  refine Follows.chain embeds name fun first u u' _ embeds => ?_
  have loop := Follows.repeated Steady.baseClassStep embeds (Nat.le_refl _)
    (fun bases _ _ embeds _ => baseClassStep_follows embeds bases) [first]
  exact Follows.chain embeds loop fun _ _ _ _ embeds => FollowsUnless.pure embeds

private theorem members_follows {member member' : Parse Element} [Forward member] {bound : Nat}
    (uses : ∀ t, t.rest ≠ [] → Uses member t) (embeds : frame.Embeds s s')
    (short : s.rest.length ≤ bound)
    (items : ∀ t t', frame.Embeds t t' → t.rest.length ≤ bound → t.rest ≠ [] →
      Follows frame State.Loose member member' t t') :
    Follows frame State.Loose (members member) (members member') s s' := by
  have steady : Steady (memberStep member) := Steady.memberStep fun t _ more => uses t more
  have loop : Follows frame State.Loose (repeatParse (memberStep member) [])
      (repeatParse (memberStep member') []) s s' := by
    refine Follows.repeated steady embeds short (fun elements t t' embeds short => ?_) []
    rcases frame.sees_or_done t with sees | ⟨goesOn, done⟩
    · unfold memberStep
      refine FollowsUnless.get (FollowsUnless.ite ?_ (fun _ => FollowsUnless.pure embeds)
        fun here => ?_)
      · rw [embeds.isAtEnd_eq sees, embeds.isAtWord_eq sees]
      · rw [Bool.or_eq_true, not_or] at here
        have more := State.more_of_not_isAtEnd embeds.ends here.1
        exact Follows.chain embeds (items t t' embeds short more) fun _ _ _ _ embeds =>
          FollowsUnless.pure embeds
    · exact Follows.atEnd goesOn done
  unfold members
  exact Follows.chain embeds loop fun _ _ _ _ embeds => FollowsUnless.pure embeds

private theorem ended_follows {α : Type} {f f' : Parse α} [Forward f] {build : α → Token → Element}
    (embeds : frame.Embeds s s') (first : Follows frame State.Loose f f' s s') :
    Follows frame State.Marked
      (f >>= fun a => (liftM (expectWord "end") : Parse Token) >>= fun closing =>
        pure (build a closing))
      (f' >>= fun a => (liftM (expectWord "end") : Parse Token) >>= fun closing =>
        pure (build a closing)) s s' := by
  refine FollowsUnless.andThen embeds first (fun a t t' _ embeds => ?_) fun _ a t ends loose => ?_
  · exact Follows.chain embeds (expectWord_follows embeds "end").lift fun _ _ _ _ embeds =>
      FollowsUnless.pure embeds
  · exact (expectWord_resolves ends loose "end").lift.andThen fun _ _ marked => Gives.pure marked

private theorem ended_marks {α : Type} {f : Parse α} [Forward f] {build : α → Token → Element}
    (ends : s.eof.kind = .eof) (loose : s.Loose) :
    Gives (f >>= fun a => (liftM (expectWord "end") : Parse Token) >>= fun closing =>
      pure (build a closing)) s fun _ t => t.Marked := by
  refine (Forward.moves s).andThen fun a t moves => ?_
  have ends := moves.ends ends
  exact (expectWord_resolves ends (State.Persists.later moves loose) "end").lift.andThen
    fun _ _ marked => Gives.pure marked

private theorem separatorOr_follows (embeds : frame.Embeds s s') (more : s.rest ≠ [])
    {other other' : Parse Element} {spoiled : State → Prop}
    (follows : Follows frame spoiled other other' s s') :
    Follows frame spoiled (separatorOr other) (separatorOr other') s s' := by
  unfold separatorOr
  refine FollowsUnless.get (FollowsUnless.ite ?_ (fun _ => ?_) fun _ => follows)
  · rw [embeds.isAtSeparator_eq fun _ => more]
  · exact FollowsUnless.advance (fun _ => rfl) embeds more fun _ _ _ _ embeds =>
      FollowsUnless.pure embeds

private theorem unexpectedMember_follows (embeds : frame.Embeds s s') (more : s.rest ≠ [])
    {spoiled : State → Prop} :
    Follows frame spoiled (throw s.unexpectedMember : Parse Element) (throw s'.unexpectedMember)
      s s' := by
  refine FollowsUnless.failing fun _ => ?_
  have current := embeds.current_eq fun _ => more
  have range := embeds.range_eq fun _ => more
  simp only [State.unexpectedMember, range]
  rw [current]
  rfl

private theorem event_follows (embeds : frame.Embeds s s') (more : s.rest ≠ []) :
    Follows frame State.Loose event event s s' := by
  refine separatorOr_follows embeds more (FollowsUnless.get (FollowsUnless.ite ?_ (fun _ => ?_)
    fun _ => unexpectedMember_follows embeds more))
  · rw [embeds.isAt_eq fun _ => more]
  · exact FollowsUnless.advance (fun _ => rfl) embeds more fun _ _ _ _ embeds =>
      FollowsUnless.pure embeds

private theorem enumerationValue_follows (embeds : frame.Embeds s s') (more : s.rest ≠ []) :
    Follows frame State.Marked enumerationValue enumerationValue s s' := by
  have longer := embeds.length_eq
  have inner (inside : Bool) (floor : Precedence) (t t' : State) (embeds : frame.Embeds t t')
      (short : t.rest.length < s.rest.length + 1) :
      Follows frame State.Marked (expressionWithin (s.rest.length + 1) inside floor)
        (expressionWithin (s'.rest.length + 1) inside floor) t t' := by
    have longer' := embeds.length_eq
    exact expressionWithin_follows embeds short (by omega) inside floor
  unfold enumerationValue
  refine FollowsUnless.get ?_
  exact Follows.chain embeds
    (arguments_follows inner embeds more (Nat.le_succ _) (by decide) (by decide))
    fun _ _ _ _ embeds => FollowsUnless.pure embeds

private theorem enumerationItem_follows (embeds : frame.Embeds s s') (more : s.rest ≠ []) :
    Follows frame State.Marked enumerationItem enumerationItem s s' := by
  unfold enumerationItem
  refine FollowsUnless.advance (fun _ => rfl) embeds more fun name t t' _ embeds => ?_
  refine FollowsUnless.get (Follows.iteChain embeds ?_ (fun here => ?_)
    (fun _ => FollowsUnless.pure embeds) fun _ _ _ _ embeds => FollowsUnless.pure embeds)
  · rw [embeds.isAt_line_eq]
  · rw [Bool.and_eq_true] at here
    have more := State.more_of_isAt embeds.ends here.1 (by decide)
    exact FollowsUnless.map (enumerationValue_follows embeds more)

private theorem enumerator_follows (embeds : frame.Embeds s s') (more : s.rest ≠ []) :
    Follows frame State.Loose enumerator enumerator s s' := by
  refine separatorOr_follows embeds more (FollowsUnless.get (FollowsUnless.ite ?_ (fun _ => ?_)
    fun _ => unexpectedMember_follows embeds more))
  · rw [embeds.isAt_eq fun _ => more]
  · exact (enumerationItem_follows embeds more).loose.lift

private theorem memberBlock_follows (embeds : frame.Embeds s s') (more : s.rest ≠ []) {kind : Kind}
    {items items' : Parse Element} [Forward items]
    (follows : ∀ t t', frame.Embeds t t' → t.rest.length < s.rest.length →
      Follows frame State.Loose items items' t t') :
    Follows frame State.Marked (memberBlock kind items) (memberBlock kind items') s s' := by
  unfold memberBlock
  refine FollowsUnless.advance (fun _ => rfl) embeds more fun keyword t t' after embeds => ?_
  have shorter := after.shorter
  refine FollowsUnless.get (Follows.iteChain embeds ?_ (fun here => ?_)
    (fun _ => FollowsUnless.pure embeds) fun attributes u u' moves embeds => ?_)
  · rw [embeds.isAt_line_eq]
  · rw [Bool.and_eq_true] at here
    have more := State.more_of_isAt embeds.ends here.1 (by decide)
    exact FollowsUnless.map (attributeList_follows embeds more).lift
  · have fewer := moves.length_le
    exact ended_follows embeds (follows u u' embeds (by omega))

end

/-! Functions, classes and statements. The reader of the statements inside is asked to read fewer
than `bound` tokens. -/

section

variable {frame : Frame} {s s' : State} {block block' : Parse Element} [Forward block] {bound : Nat}
  (block_follows : ∀ t t', frame.Embeds t t' → t.rest.length < bound →
    Follows frame State.Loose block block' t t')

/-- A problem has been found, or the statements end with a function that may go on. -/
def Unfinished (statements : List Element) (t : State) : Prop :=
  t.Marked ∨ t.Loose ∧ statements.any Element.lacksEnd = true

private theorem Unfinished.loose {statements : List Element} {t : State}
    (unfinished : Unfinished statements t) : t.Loose := by
  rcases unfinished with marked | ⟨loose, -⟩
  · exact Or.inl marked
  · exact loose

theorem Unfinished.later {statements further : List Element} {t u : State}
    (unfinished : Unfinished statements t) (moves : t.Moves u)
    (kept : ∀ element ∈ statements, element ∈ further) : Unfinished further u := by
  rcases unfinished with marked | ⟨loose, lacks⟩
  · exact Or.inl (State.Persists.later moves marked)
  · refine Or.inr ⟨State.Persists.later moves loose, ?_⟩
    rw [List.any_eq_true] at lacks ⊢
    obtain ⟨element, member, lacks⟩ := lacks
    exact ⟨element, kept element member, lacks⟩

private theorem Follows.unfinished {f f' : Parse Element}
    (follows : Follows frame State.Marked f f' s s') :
    FollowsUnless frame (fun element => Unfinished [element]) f f' s s' :=
  follows.mono fun _ _ marked => Or.inl marked

private theorem signature_length (s : State) : Gives signature s fun head _ => head.length = 3 := by
  unfold signature
  have output (t : State) : Gives (some <$> outputDescription) t fun _ u => t.Moves u :=
    Forward.moves t
  have input (t : State) : Gives (some <$> inputDescription) t fun _ u => t.Moves u :=
    Forward.moves t
  refine Gives.get (Gives.iteThen (fun _ => output s) (fun _ => Gives.pure (.refl s))
    fun _ t _ => ?_)
  refine (Forward.moves t).andThen fun _ u _ => Gives.get ?_
  exact Gives.iteThen (fun _ => input u) (fun _ => Gives.pure (.refl u)) fun _ _ _ => Gives.pure rfl

private theorem eatEnd_unfinished (ends : s.eof.kind = .eof) (loose : s.Loose) (keyword : Token)
    {head : List (Option Element)} (three : head.length = 3) (body : Element) :
    Gives ((liftM (eatWord "end") : Parse (Option Token)) >>= fun closing =>
      pure (Element.node .functionDeclaration
        ([some (.leaf keyword)] ++ head ++ [some body, closing.map .leaf]) [])) s
      fun element t => Unfinished [element] t := by
  rcases isAtWord_of_loose ends loose "end" with marked | other
  · exact (Gives.persists marked).mono fun _ _ marked => Or.inl marked
  · have closing : Gives (eatWord "end") s fun closing t => closing = none ∧ t.Loose := by
      refine Gives.eatIf (fun here => ?_) fun _ => ⟨rfl, loose⟩
      rw [other] at here
      exact absurd here Bool.false_ne_true
    refine closing.lift.andThen fun closing t found => Gives.pure (Or.inr ⟨found.2, ?_⟩)
    match head, three with
    | [output, name, input], _ => simp [found.1, Element.lacksEnd]

include block_follows

private theorem functionDeclaration_follows (embeds : frame.Embeds s s') (more : s.rest ≠ [])
    (short : s.rest.length ≤ bound) :
    FollowsUnless frame (fun element => Unfinished [element])
      (functionDeclaration block .functionDeclaration)
      (functionDeclaration block' .functionDeclaration) s s' := by
  unfold functionDeclaration
  refine FollowsUnless.advance (fun _ => rfl) embeds more fun keyword t t' after embeds => ?_
  have shorter := after.shorter
  refine FollowsUnless.andThen embeds
    ((signature_follows embeds).given (signature_length t)).lift
    (fun head u u' found embeds => ?_) fun _ head u ends facts => ?_
  · have three : head.length = 3 := signature_length t head u found
    have fewer := (Forward.moves (f := signature) t head u found).length_le
    refine FollowsUnless.andThen embeds (block_follows u u' embeds (by omega))
      (fun body v v' _ embeds => ?_) fun _ body v ends loose => ?_
    · rcases frame.sees_or_done v with sees | ⟨goesOn, done⟩
      · have closing : Follows frame State.Marked (eatWord "end") (eatWord "end") v v' :=
          eatWord_follows embeds sees
        refine FollowsUnless.andThen embeds closing.lift
          (fun _ _ _ _ embeds => FollowsUnless.pure embeds) fun _ _ _ _ marked => ?_
        exact Gives.pure (Or.inl marked)
      · exact FollowsUnless.spoil goesOn
          (eatEnd_unfinished embeds.ends (Or.inr (Or.inl done)) keyword three body)
    · exact eatEnd_unfinished ends loose keyword three body
  · obtain ⟨three, loose⟩ := facts
    refine (Forward.moves u).andThen fun body v moves => ?_
    have ends := moves.ends ends
    exact eatEnd_unfinished ends (State.Persists.later moves loose) keyword three body

private theorem methodDefinition_follows (embeds : frame.Embeds s s') (more : s.rest ≠ [])
    (short : s.rest.length ≤ bound) :
    Follows frame State.Marked (functionDeclaration block .methodDefinition)
      (functionDeclaration block' .methodDefinition) s s' := by
  unfold functionDeclaration
  refine FollowsUnless.advance (fun _ => rfl) embeds more fun keyword t t' after embeds => ?_
  have shorter := after.shorter
  have closing (u : State) (ends : u.eof.kind = .eof) (loose : u.Loose) :
      Gives (some <$> (liftM (expectWord "end") : Parse Token)) u fun _ v => v.Marked :=
    Gives.map (expectWord_resolves ends loose "end").lift
  refine FollowsUnless.andThen embeds (signature_follows embeds).lift
    (fun head u u' found embeds => ?_) fun _ head u ends loose => ?_
  · have fewer := (Forward.moves (f := signature) t head u found).length_le
    refine FollowsUnless.andThen embeds (block_follows u u' embeds (by omega))
      (fun body v v' _ embeds => ?_) fun _ body v ends loose => ?_
    · exact Follows.chain embeds (FollowsUnless.map (expectWord_follows embeds "end").lift)
        fun _ _ _ _ embeds => FollowsUnless.pure embeds
    · exact (closing v ends loose).andThen fun _ _ marked => Gives.pure marked
  · refine (Forward.moves u).andThen fun body v moves => ?_
    have ends := moves.ends ends
    exact (closing v ends (State.Persists.later moves loose)).andThen fun _ _ marked =>
      Gives.pure marked

private theorem method_follows (embeds : frame.Embeds s s') (more : s.rest ≠ [])
    (short : s.rest.length ≤ bound) :
    Follows frame State.Loose (method block) (method block') s s' := by
  refine separatorOr_follows embeds more (FollowsUnless.get (FollowsUnless.ite ?_ (fun _ => ?_)
    fun _ => FollowsUnless.ite ?_ (fun _ => ?_) fun _ => unexpectedMember_follows embeds more))
  · rw [embeds.isAtWord_eq fun _ => more]
  · exact (methodDefinition_follows block_follows embeds more short).loose
  · simp only [embeds.isAt_eq fun _ => more]
  · unfold abstractMethodDeclaration
    refine FollowsUnless.lift ?_
    exact Follows.chain embeds (signature_follows embeds) fun _ _ _ _ embeds =>
      FollowsUnless.pure embeds

private theorem classMember_follows (embeds : frame.Embeds s s') (more : s.rest ≠ [])
    (short : s.rest.length ≤ bound) :
    Follows frame State.Loose (classMember block) (classMember block') s s' := by
  have sees : frame.goesOn → s.rest ≠ [] := fun _ => more
  refine separatorOr_follows embeds more (FollowsUnless.get ?_)
  simp only [embeds.isAtWord_eq sees]
  refine FollowsUnless.ite Iff.rfl (fun _ => ?_) fun _ => FollowsUnless.ite Iff.rfl (fun _ => ?_)
    fun _ => FollowsUnless.ite Iff.rfl (fun _ => ?_) fun _ => FollowsUnless.ite Iff.rfl
    (fun _ => ?_) fun _ => unexpectedMember_follows embeds more
  · refine (memberBlock_follows embeds more fun t t' embeds shorter => ?_).loose
    exact block_follows t t' embeds (by omega)
  · refine (memberBlock_follows embeds more fun t t' embeds shorter => ?_).loose
    exact members_follows (fun _ more => Uses.method block more) embeds (Nat.le_refl _)
      fun u u' embeds fewer more => method_follows block_follows embeds more (by omega)
  · refine (memberBlock_follows embeds more fun t t' embeds shorter => ?_).loose
    exact members_follows (fun _ more => Uses.event more) embeds (Nat.le_refl _)
      fun u u' embeds _ more => event_follows embeds more
  · refine (memberBlock_follows embeds more fun t t' embeds shorter => ?_).loose
    exact members_follows (fun _ more => Uses.enumerator more) embeds (Nat.le_refl _)
      fun u u' embeds _ more => enumerator_follows embeds more

private theorem classDeclaration_follows (embeds : frame.Embeds s s') (more : s.rest ≠ [])
    (short : s.rest.length ≤ bound) :
    Follows frame State.Marked (classDeclaration block) (classDeclaration block') s s' := by
  unfold classDeclaration
  refine FollowsUnless.advance (fun _ => rfl) embeds more fun keyword t t' after embeds => ?_
  have shorter := after.shorter
  rcases frame.sees_or_done t with sees | ⟨goesOn, done⟩
  · refine FollowsUnless.get (Follows.iteChain embeds ?_ (fun here => ?_)
      (fun _ => FollowsUnless.pure embeds) fun attributes u u' moves embeds => ?_)
    · rw [embeds.isAt_eq sees]
    · have more := State.more_of_isAt embeds.ends here (by decide)
      exact FollowsUnless.map (attributeList_follows embeds more).lift
    have fewer := moves.length_le
    refine Follows.chain embeds (expect_follows embeds (by decide)).lift
      fun name v v' found embeds => ?_
    have less := (Forward.moves (f := expect .identifier) u _ _ found).length_le
    rcases frame.sees_or_done v with sees | ⟨goesOn, done⟩
    · refine FollowsUnless.get (FollowsUnless.iteThen embeds ?_ (fun here => ?_)
        (fun _ => FollowsUnless.pure embeds) (fun bases w w' moves embeds => ?_)
        fun _ _ _ ends loose => ended_marks ends loose)
      · rw [embeds.isAt_eq sees]
      · have more := State.more_of_isAt embeds.ends here (by decide)
        exact FollowsUnless.map (baseClassList_follows embeds more).lift
      have fewest := moves.length_le
      refine ended_follows embeds (members_follows (fun _ more => Uses.classMember block more)
        embeds (Nat.le_refl _) fun x x' embeds few more => ?_)
      exact classMember_follows block_follows embeds more (by omega)
    · refine FollowsUnless.spoil goesOn (Gives.get (Gives.iteThen (fun _ => Forward.moves v)
        (fun _ => Forward.moves v) fun _ w moves => ?_))
      have ends := moves.ends embeds.ends
      exact ended_marks ends (Or.inr (Or.inl (moves.rest_eq_nil done)))
  · refine FollowsUnless.spoil goesOn (Gives.get (Gives.iteThen (fun _ => Forward.moves t)
      (fun _ => Forward.moves t) fun _ u moves => ?_))
    have ends := moves.ends embeds.ends
    have name : Gives (expect .identifier) u fun _ t => t.Marked :=
      expect_marks (State.isAt_of_done ends (moves.rest_eq_nil done) (by decide))
    exact name.lift.andThen fun _ _ marked => Gives.persists marked

private theorem clause_follows (embeds : frame.Embeds s s') (more : s.rest ≠ [])
    (short : s.rest.length ≤ bound) (inside : Bool) :
    Follows frame State.Loose (clause block inside) (clause block' inside) s s' := by
  unfold clause
  refine FollowsUnless.advance (fun _ => rfl) embeds more fun keyword t t' after embeds => ?_
  have shorter := after.shorter
  refine Follows.chain embeds (expression_follows embeds inside).loose.lift
    fun condition u u' found embeds => ?_
  have fewer := (Forward.moves (f := expression inside) t _ _ found).length_le
  refine Follows.chain embeds (eatSeparator_follows embeds).lift
    fun separator v v' found embeds => ?_
  have fewest := (Forward.moves (f := eatSeparator) u _ _ found).length_le
  exact Follows.chain embeds (block_follows v v' embeds (by omega)) fun _ _ _ _ embeds =>
    FollowsUnless.pure embeds

private theorem elseClause_follows (embeds : frame.Embeds s s') (short : s.rest.length ≤ bound) :
    Follows frame State.Loose (elseClause block) (elseClause block') s s' := by
  rcases frame.sees_or_done s with sees | ⟨goesOn, done⟩
  · unfold elseClause
    have word : Follows frame State.Loose (eatWord "else") (eatWord "else") s s' :=
      eatWord_follows embeds sees
    have uses : Gives (eatWord "else") s fun found t =>
        found.isSome → t.rest.length < s.rest.length := Uses.eatWord embeds.ends
    refine FollowsUnless.andThen embeds word.lift (fun found t t' eaten embeds => ?_)
      fun _ found _ _ loose => ?_
    · have shorter := uses found t eaten
      cases found with
      | none => exact FollowsUnless.pure embeds
      | some keyword =>
        have fewer := shorter rfl
        exact Follows.chain embeds (block_follows t t' embeds (by omega)) fun _ _ _ _ embeds =>
          FollowsUnless.pure embeds
    · cases found <;> exact Gives.persists loose
  · exact Follows.atEnd goesOn done

private theorem elseifStep_follows (embeds : frame.Embeds s s') (short : s.rest.length ≤ bound)
    (inside : Bool) (alternatives : List Element) :
    Follows frame State.Loose (elseifStep block inside alternatives)
      (elseifStep block' inside alternatives) s s' := by
  rcases frame.sees_or_done s with sees | ⟨goesOn, done⟩
  · unfold elseifStep
    refine FollowsUnless.get (FollowsUnless.ite ?_ (fun here => ?_) fun _ =>
      FollowsUnless.pure embeds)
    · rw [embeds.isAtWord_eq sees]
    · have more := State.more_of_isAtWord embeds.ends here
      exact Follows.chain embeds (clause_follows block_follows embeds more short inside)
        fun _ _ _ _ embeds => FollowsUnless.pure embeds
  · exact Follows.atEnd goesOn done

private theorem ifStatement_follows (embeds : frame.Embeds s s') (more : s.rest ≠ [])
    (short : s.rest.length ≤ bound) (inside : Bool) :
    Follows frame State.Marked (ifStatement block inside) (ifStatement block' inside) s s' := by
  unfold ifStatement
  refine FollowsUnless.andThen embeds (clause_follows block_follows embeds more short inside)
    (fun head t t' found embeds => ?_) fun _ head t ends loose => ?_
  · have fewer := (Forward.moves s _ _ found).length_le
    have loop := Follows.repeated (Steady.elseifStep block inside) embeds (Nat.le_refl _)
      (fun alternatives u u' embeds short =>
        elseifStep_follows block_follows embeds (by omega) inside alternatives) []
    refine FollowsUnless.andThen embeds loop (fun alternatives u u' found embeds => ?_)
      fun _ alternatives u ends loose => ?_
    · have fewest := (Forward.moves (f := repeatParse (elseifStep block inside) []) t _ _
        found).length_le
      exact ended_follows embeds (elseClause_follows block_follows embeds (by omega))
    · exact ended_marks ends loose
  · refine (Forward.moves t).andThen fun alternatives u moves => ?_
    have ends := moves.ends ends
    exact ended_marks ends (State.Persists.later moves loose)

private theorem loopStatement_follows (embeds : frame.Embeds s s') (more : s.rest ≠ [])
    (short : s.rest.length ≤ bound) (inside : Bool) (kind : Kind) :
    Follows frame State.Marked (loopStatement block inside kind) (loopStatement block' inside kind)
      s s' := by
  unfold loopStatement
  exact ended_follows embeds (clause_follows block_follows embeds more short inside)

private theorem switchCase_follows (embeds : frame.Embeds s s') (more : s.rest ≠ [])
    (short : s.rest.length ≤ bound) (inside : Bool) :
    Follows frame State.Loose (switchCase block inside) (switchCase block' inside) s s' := by
  unfold switchCase
  refine FollowsUnless.get ?_
  rw [embeds.isAtWord_eq fun _ => more]
  refine FollowsUnless.advance (fun _ => rfl) embeds more fun keyword t t' after embeds => ?_
  have shorter := after.shorter
  refine Follows.iteChain embeds Iff.rfl
    (fun _ => FollowsUnless.map (expression_follows embeds inside).loose.lift)
    (fun _ => FollowsUnless.pure embeds) fun label u u' moves embeds => ?_
  have fewer := moves.length_le
  refine Follows.chain embeds (eatSeparator_follows embeds).lift
    fun separator v v' found embeds => ?_
  have fewest := (Forward.moves (f := eatSeparator) u _ _ found).length_le
  exact Follows.chain embeds (block_follows v v' embeds (by omega)) fun _ _ _ _ embeds =>
    FollowsUnless.pure embeds

private theorem switchStep_follows (embeds : frame.Embeds s s') (short : s.rest.length ≤ bound)
    (inside : Bool) (cases : List Element) :
    Follows frame State.Loose (switchStep block inside cases) (switchStep block' inside cases)
      s s' := by
  rcases frame.sees_or_done s with sees | ⟨goesOn, done⟩
  · unfold switchStep
    refine FollowsUnless.get ?_
    rw [embeds.isAtWord_eq sees, embeds.isAtWord_eq sees, embeds.isAtWord_eq sees,
      embeds.isAtEnd_eq sees, embeds.isAtSeparator_eq sees]
    refine FollowsUnless.ite Iff.rfl (fun here => ?_) fun _ => FollowsUnless.ite Iff.rfl
      (fun _ => FollowsUnless.pure embeds) fun here => ?_
    · have more : s.rest ≠ [] := by
        rw [Bool.or_eq_true] at here
        rcases here with here | here
        · exact State.more_of_isAtWord embeds.ends here
        · exact State.more_of_isAtWord embeds.ends here
      exact Follows.chain embeds (switchCase_follows block_follows embeds more short inside)
        fun _ _ _ _ embeds => FollowsUnless.pure embeds
    · rw [Bool.or_eq_true, not_or] at here
      have more := State.more_of_not_isAtEnd embeds.ends here.1
      refine FollowsUnless.ite Iff.rfl (fun _ => ?_) fun _ => ?_
      · exact FollowsUnless.advance (fun _ => rfl) embeds more fun _ _ _ _ embeds =>
          FollowsUnless.pure embeds
      · exact Follows.chain embeds (errorNode_follows embeds more _).loose.lift
          fun _ _ _ _ embeds => FollowsUnless.pure embeds
  · exact Follows.atEnd goesOn done

private theorem switchStatement_follows (embeds : frame.Embeds s s') (more : s.rest ≠ [])
    (short : s.rest.length ≤ bound) (inside : Bool) :
    Follows frame State.Marked (switchStatement block inside) (switchStatement block' inside)
      s s' := by
  unfold switchStatement
  refine FollowsUnless.advance (fun _ => rfl) embeds more fun keyword t t' after embeds => ?_
  have shorter := after.shorter
  refine Follows.chain embeds (expression_follows embeds inside).lift
    fun subject u u' found embeds => ?_
  have fewer := (Forward.moves (f := expression inside) t _ _ found).length_le
  refine Follows.chain embeds (eatSeparator_follows embeds).lift
    fun separator v v' found embeds => ?_
  have fewest := (Forward.moves (f := eatSeparator) u _ _ found).length_le
  have loop := Follows.repeated (Steady.switchStep block inside) embeds (Nat.le_refl _)
    (fun cases w w' embeds short =>
      switchStep_follows block_follows embeds (by omega) inside cases) []
  exact ended_follows embeds loop

private theorem catchClause_follows (embeds : frame.Embeds s s') (short : s.rest.length ≤ bound) :
    Follows frame State.Loose (catchClause block) (catchClause block') s s' := by
  rcases frame.sees_or_done s with sees | ⟨goesOn, done⟩
  · unfold catchClause
    have word : Follows frame State.Loose (eatWord "catch") (eatWord "catch") s s' :=
      eatWord_follows embeds sees
    have uses : Gives (eatWord "catch") s fun found t =>
        found.isSome → t.rest.length < s.rest.length := Uses.eatWord embeds.ends
    refine FollowsUnless.andThen embeds word.lift (fun found t t' eaten embeds => ?_)
      fun _ found _ _ loose => ?_
    · have shorter := uses found t eaten
      cases found with
      | none => exact FollowsUnless.pure embeds
      | some keyword =>
        have fewer := shorter rfl
        refine Follows.chain embeds (eatIf_follows embeds ?_ fun here => ?_).lift
          fun name u u' found embeds => ?_
        · cases line : t.previousEndsLine with
          | true => simp [embeds.previousEndsLine_eq, line]
          | false =>
            have sees := embeds.sees_of_line line
            rw [embeds.previousEndsLine_eq, line, embeds.isAtTerminator_eq sees,
              embeds.isAt_eq sees]
        · rw [Bool.and_eq_true] at here
          exact State.more_of_isAt embeds.ends here.2 (by decide)
        have less := (Forward.moves (f := eatIf fun state =>
          !state.previousEndsLine && !state.isAtTerminator && state.isAt .identifier) t _ _
          found).length_le
        refine Follows.chain embeds (eatSeparator_follows embeds).lift
          fun separator v v' found embeds => ?_
        have fewest := (Forward.moves (f := eatSeparator) u _ _ found).length_le
        exact Follows.chain embeds (block_follows v v' embeds (by omega)) fun _ _ _ _ embeds =>
          FollowsUnless.pure embeds
    · cases found <;> exact Gives.persists loose
  · exact Follows.atEnd goesOn done

private theorem tryStatement_follows (embeds : frame.Embeds s s') (more : s.rest ≠ [])
    (short : s.rest.length ≤ bound) :
    Follows frame State.Marked (tryStatement block) (tryStatement block') s s' := by
  unfold tryStatement
  refine FollowsUnless.advance (fun _ => rfl) embeds more fun keyword t t' after embeds => ?_
  have shorter := after.shorter
  refine Follows.chain embeds (eatSeparator_follows embeds).lift
    fun separator u u' found embeds => ?_
  have fewer := (Forward.moves (f := eatSeparator) t _ _ found).length_le
  refine FollowsUnless.andThen embeds (block_follows u u' embeds (by omega))
    (fun body v v' found embeds => ?_) fun _ body v ends loose => ended_marks ends loose
  have fewest := (Forward.moves u _ _ found).length_le
  exact ended_follows embeds (catchClause_follows block_follows embeds (by omega))

omit [Forward block] block_follows in
private theorem expressionStatement_follows (embeds : frame.Embeds s s') (inside : Bool) :
    Follows frame State.Marked (expressionStatement inside) (expressionStatement inside) s s' := by
  unfold expressionStatement
  refine Follows.chain embeds (expression_follows embeds inside) fun body t t' _ embeds => ?_
  exact Follows.chain embeds (eatSeparator_follows embeds) fun _ _ _ _ embeds =>
    FollowsUnless.pure embeds

private theorem statement_follows (embeds : frame.Embeds s s') (more : s.rest ≠ [])
    (short : s.rest.length ≤ bound) (inside : Bool) :
    FollowsUnless frame (fun element => Unfinished [element]) (statement block inside)
      (statement block' inside) s s' := by
  have sees : frame.goesOn → s.rest ≠ [] := fun _ => more
  unfold statement
  refine FollowsUnless.get ?_
  simp only [embeds.isAtWord_eq sees, embeds.isAtSeparator_eq sees]
  refine FollowsUnless.ite Iff.rfl
    (fun _ => functionDeclaration_follows block_follows embeds more short) fun _ => ?_
  refine FollowsUnless.ite Iff.rfl
    (fun _ => (classDeclaration_follows block_follows embeds more short).unfinished) fun _ => ?_
  refine FollowsUnless.ite Iff.rfl
    (fun _ => (switchStatement_follows block_follows embeds more short inside).unfinished)
    fun _ => ?_
  refine FollowsUnless.ite Iff.rfl
    (fun _ => (loopStatement_follows block_follows embeds more short inside _).unfinished)
    fun _ => ?_
  refine FollowsUnless.ite Iff.rfl
    (fun _ => (ifStatement_follows block_follows embeds more short inside).unfinished) fun _ => ?_
  refine FollowsUnless.ite Iff.rfl
    (fun _ => (loopStatement_follows block_follows embeds more short inside _).unfinished)
    fun _ => ?_
  refine FollowsUnless.ite Iff.rfl
    (fun _ => (tryStatement_follows block_follows embeds more short).unfinished) fun _ => ?_
  refine FollowsUnless.ite Iff.rfl (fun _ => ?_) fun _ => ?_
  · exact FollowsUnless.advance (fun _ => rfl) embeds more fun _ _ _ _ embeds =>
      FollowsUnless.pure embeds
  · exact Follows.unfinished (FollowsUnless.lift (expressionStatement_follows embeds inside))

private theorem progressingStatement_follows (embeds : frame.Embeds s s') (more : s.rest ≠ [])
    (short : s.rest.length ≤ bound) (inside : Bool) :
    FollowsUnless frame Unfinished (progressingParse .identifier (statement block inside))
      (progressingParse .identifier (statement block' inside)) s s' := by
  unfold progressingParse
  refine FollowsUnless.get (FollowsUnless.andThen embeds
    (statement_follows block_follows embeds more short inside) (fun element t t' _ embeds' => ?_)
    fun _ element t _ unfinished => ?_)
  · refine FollowsUnless.get (FollowsUnless.ite ?_ (fun same => ?_) fun _ =>
      FollowsUnless.pure embeds')
    · rw [embeds'.length_eq, embeds.length_eq]
      omega
    · have left : t.rest ≠ [] := by
        rw [← List.length_pos_iff, same, List.length_pos_iff]
        exact more
      refine FollowsUnless.andThen embeds' (errorNode_follows embeds' left .identifier).lift
        (fun _ _ _ _ embeds => FollowsUnless.pure embeds) fun _ _ _ _ marked => ?_
      exact Gives.pure (Or.inl marked)
  · refine Gives.get (Gives.ite (fun _ => ?_) fun _ => Gives.pure unfinished)
    refine (Forward.moves t).andThen fun error u moves => Gives.pure ?_
    exact unfinished.later moves (by simp)

theorem statementStep_follows (embeds : frame.Embeds s s') (sees : frame.goesOn → s.rest ≠ [])
    (short : s.rest.length ≤ bound) (inside : Bool) (scope : Scope) (statements : List Element) :
    FollowsUnless frame (spoiledRound Unfinished Unfinished statements)
      (statementStep block inside scope statements) (statementStep block' inside scope statements)
      s s' := by
  have error (more : s.rest ≠ []) (expected : Kind) :
      FollowsUnless frame (spoiledRound Unfinished Unfinished statements)
        ((liftM (errorNode expected) : Parse Element) >>= fun error =>
          pure (some (statements ++ [error])))
        ((liftM (errorNode expected) : Parse Element) >>= fun error =>
          pure (some (statements ++ [error]))) s s' :=
    FollowsUnless.andThen embeds (errorNode_follows embeds more expected).lift
      (fun _ _ _ _ embeds => FollowsUnless.pure embeds) fun _ _ _ _ marked =>
        Gives.pure (Or.inl marked)
  unfold statementStep
  refine FollowsUnless.get ?_
  simp only [embeds.isAtEnd_eq sees, embeds.isAtTerminator_eq sees, embeds.isAtSeparator_eq sees,
    embeds.isAtAny_eq sees]
  refine FollowsUnless.ite Iff.rfl (fun _ => FollowsUnless.pure embeds) fun here => ?_
  have more := State.more_of_not_isAtEnd embeds.ends here
  refine FollowsUnless.ite Iff.rfl (fun _ => ?_) fun _ =>
    FollowsUnless.ite Iff.rfl (fun _ => error more _) fun _ => ?_
  · cases scope with
    | block => exact FollowsUnless.pure embeds
    | script => exact error more _
  · refine FollowsUnless.andThen embeds
      (progressingStatement_follows block_follows embeds more short inside)
      (fun _ _ _ _ embeds => FollowsUnless.pure embeds) fun _ read t _ unfinished => ?_
    refine Gives.pure (unfinished.later (.refl t) ?_)
    simp +contextual

end

section

variable {frame : Frame} {s s' : State}

theorem blockWithin_follows (embeds : frame.Embeds s s') {depth depth' : Nat}
    (enough : s.rest.length < depth) (enough' : s'.rest.length < depth') (inside : Bool) :
    Follows frame State.Loose (blockWithin inside depth) (blockWithin inside depth') s s' := by
  induction depth generalizing depth' s s' with
  | zero => omega
  | succ depth ih =>
    obtain ⟨depth', rfl⟩ : ∃ less, depth' = less + 1 := ⟨depth' - 1, by omega⟩
    have longer := embeds.length_eq
    have inner (t t' : State) (embeds : frame.Embeds t t')
        (short : t.rest.length < s.rest.length) :
        Follows frame State.Loose (blockWithin inside depth) (blockWithin inside depth') t t' := by
      have longer' := embeds.length_eq
      exact ih embeds (by omega) (by omega)
    have loop := Follows.repeated (Steady.statementStep (blockWithin inside depth) inside .block)
      embeds (Nat.le_refl _) (fun statements t t' embeds short => by
        rcases frame.sees_or_done t with sees | ⟨goesOn, done⟩
        · refine (statementStep_follows inner embeds sees short inside .block statements).mono
            fun further u spoiled => ?_
          cases further <;> exact Unfinished.loose spoiled
        · exact Follows.atEnd goesOn done) []
    exact Follows.chain embeds loop fun _ _ _ _ embeds => FollowsUnless.pure embeds

end

end Grammar

end MatrixScript
