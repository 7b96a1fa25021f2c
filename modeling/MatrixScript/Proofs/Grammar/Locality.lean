import MatrixScript.Proofs.Grammar.Embedding

/-!
The rules of the grammar in a longer text.

One lemma a rule: read at the same tokens, a rule does in the longer text what it does in the
shorter one, unless it is spoiled. The readers of what is inside are taken with a bound on the
tokens they are asked to read, so that the depth of nesting that the two texts allow for need not
agree.
-/

set_option autoImplicit false

namespace MatrixScript.Grammar

section

variable {frame : Frame} {s s' : State}

theorem Follows.atEnd {m : Type → Type} [Monad m] [MonadStateOf State m] [Outcome m] {α : Type}
    {f f' : m α} [Forward f] (goesOn : frame.goesOn) (done : s.rest = []) :
    Follows frame State.Loose f f' s s' :=
  FollowsUnless.spoil goesOn (Gives.persists (Or.inr (Or.inl done)))

theorem Follows.loose {m : Type → Type} [Monad m] [MonadStateOf State m] [Outcome m] {α : Type}
    {f f' : m α} (follows : Follows frame State.Marked f f' s s') :
    Follows frame State.Loose f f' s s' :=
  follows.mono fun _ _ marked => Or.inl marked

private theorem Follows.dotted {m : Type → Type} [Monad m] [MonadStateOf State m] [Outcome m]
    {α : Type}
    {f f' : m α} (follows : Follows frame State.Marked f f' s s') :
    Follows frame State.Dotted f f' s s' :=
  follows.mono fun _ _ marked => Or.inl marked

theorem listUntil_follows {close : Kind} {bound : Nat}
    {item item' : List Element → Read (List Element)} [∀ elements, Forward (item elements)]
    (uses : ∀ elements t, t.rest ≠ [] → Uses (item elements) t)
    (embeds : frame.Embeds s s') (short : s.rest.length ≤ bound)
    (items : ∀ elements t t', frame.Embeds t t' → t.rest.length ≤ bound → t.rest ≠ [] →
      Follows frame State.Loose (item elements) (item' elements) t t') :
    Follows frame State.Loose (listUntil close item) (listUntil close item') s s' := by
  have steady : Steady (listStep close item) :=
    Steady.listStep fun elements t _ more => uses elements t more
  have loop : Follows frame State.Loose (repeatRead (listStep close item) [])
      (repeatRead (listStep close item') []) s s' := by
    refine Follows.repeated steady embeds short (fun elements t t' embeds short => ?_) []
    rcases frame.sees_or_done t with sees | ⟨goesOn, done⟩
    · unfold listStep
      refine FollowsUnless.get (FollowsUnless.ite ?_ (fun _ => FollowsUnless.pure embeds)
        fun here => ?_)
      · rw [embeds.isAt_eq sees, embeds.isAtEnd_eq sees]
      · rw [Bool.or_eq_true, not_or] at here
        have more := State.more_of_not_isAtEnd embeds.ends here.2
        exact Follows.chain embeds (items elements t t' embeds short more) fun _ _ _ _ embeds =>
          FollowsUnless.pure embeds
    · exact Follows.atEnd goesOn done
  unfold listUntil
  exact Follows.chain embeds loop fun _ _ _ _ embeds => FollowsUnless.pure embeds

private theorem isAtDottedName_of_lastDot (ends : s.eof.kind = .eof) (dot : s.AtLastDot) :
    s.isAtDottedName = false := by
  obtain ⟨placed, rest, -⟩ := dot
  simp [State.isAtDottedName, State.nextKind, rest, ends]

private theorem dotted_follows {α : Type} (extend : α → Token → Token → α)
    (embeds : frame.Embeds s s')
    (value : α) :
    Follows frame State.Dotted (repeatRead (dottedStep extend) value)
      (repeatRead (dottedStep extend) value) s s' := by
  have round (value : α) (t t' : State) (embeds : frame.Embeds t t') :
      FollowsUnless frame (spoiledRound (fun _ _ => False) (fun _ => State.Dotted) value)
        (dottedStep extend value) (dottedStep extend value) t t' := by
    by_cases last : frame.goesOn ∧ t.AtLastDot
    · have stops := isAtDottedName_of_lastDot embeds.ends last.2
      refine FollowsUnless.spoil last.1 ?_
      unfold dottedStep
      refine Gives.get (Gives.ite (fun here => ?_) fun _ => Gives.pure (Or.inr last.2))
      rw [stops] at here
      exact absurd here Bool.false_ne_true
    · have same := embeds.isAtDottedName_eq fun goesOn dot => last ⟨goesOn, dot⟩
      unfold dottedStep
      refine FollowsUnless.get (FollowsUnless.ite (by rw [same]) (fun here => ?_) fun _ =>
        FollowsUnless.pure embeds)
      obtain ⟨dot, name, rest, ahead⟩ := State.two_of_isAtDottedName embeds.ends here
      refine FollowsUnless.advance (fun _ => rfl) embeds (by simp [ahead])
        fun dot u u' after embeds => ?_
      refine FollowsUnless.advance (fun _ => rfl) embeds (by simp [after.rest, ahead])
        fun name v v' _ embeds => ?_
      exact FollowsUnless.pure embeds
  exact FollowsUnless.repeated (Steady.dottedStep extend) embeds (Nat.le_refl _)
    (fun value t t' embeds _ => round value t t' embeds)
    (fun _ _ _ _ _ _ impossible => impossible.elim) value

theorem compoundName_follows (embeds : frame.Embeds s s') :
    Follows frame State.Dotted compoundName compoundName s s' := by
  unfold compoundName
  refine FollowsUnless.andThen embeds (expect_follows embeds (by decide))
    (fun first t t' _ embeds => ?_) fun _ _ _ _ marked => ?_
  · exact FollowsUnless.andThen embeds (dotted_follows _ embeds [first])
      (fun _ _ _ _ embeds => FollowsUnless.pure embeds) fun _ _ _ _ dotted => Gives.pure dotted
  · exact (Gives.persists marked).mono fun _ _ marked => Or.inl marked

private theorem names_follows (embeds : frame.Embeds s s') (close : Kind) :
    Follows frame State.Loose (names close) (names close) s s' := by
  refine listUntil_follows (fun _ _ more => Uses.nameItem more close) embeds (Nat.le_refl _)
    fun _ t t' embeds _ more => ?_
  have sees : frame.goesOn → t.rest ≠ [] := fun _ => more
  unfold nameItem
  refine FollowsUnless.get (FollowsUnless.ite ?_ (fun _ => ?_) fun _ => ?_)
  · simp only [embeds.isAt_eq sees]
  · exact FollowsUnless.advance (fun _ => rfl) embeds more fun _ _ _ _ embeds =>
      FollowsUnless.pure embeds
  · exact Follows.chain embeds (errorNode_follows embeds more close).loose fun _ _ _ _ embeds =>
      FollowsUnless.pure embeds

theorem closed_follows {β : Type} {list list' : Read Element} [Forward list] {close : Kind}
    (notEnd : close ≠ .eof) (notDot : close ≠ .dot) {g g' : Element → Token → Read β}
    [∀ element token, Forward (g element token)] (embeds : frame.Embeds s s')
    (elements : Follows frame State.Loose list list' s s')
    (next : ∀ element token t t', frame.Embeds t t' → t.rest.length ≤ s.rest.length →
      Follows frame State.Marked (g element token) (g' element token) t t') :
    Follows frame State.Marked (list >>= fun element => expect close >>= g element)
      (list' >>= fun element => expect close >>= g' element) s s' := by
  refine FollowsUnless.andThen embeds elements (fun element t t' found embeds => ?_)
    fun _ _ t ends loose => ?_
  · refine Follows.chain embeds (expect_follows embeds notEnd) fun token u u' found' embeds => ?_
    have first := (Forward.moves s _ _ found).length_le
    have second := (Forward.moves t _ _ found').length_le
    exact next element token u u' embeds (by omega)
  · exact (expect_resolves ends loose notEnd notDot).andThen fun _ _ marked =>
      Gives.persists marked

private theorem inputDescription_follows (embeds : frame.Embeds s s') (more : s.rest ≠ []) :
    Follows frame State.Marked inputDescription inputDescription s s' := by
  unfold inputDescription
  refine FollowsUnless.advance (fun _ => rfl) embeds more fun opening t t' _ embeds => ?_
  exact closed_follows (by decide) (by decide) embeds (names_follows embeds _)
    fun _ _ _ _ embeds _ => FollowsUnless.pure embeds

private theorem outputDescription_follows (embeds : frame.Embeds s s') (more : s.rest ≠ []) :
    Follows frame State.Marked outputDescription outputDescription s s' := by
  have equals (t t' : State) (embeds : frame.Embeds t t') :
      Follows frame State.Marked (expect .equals) (expect .equals) t t' :=
    expect_follows embeds (by decide)
  unfold outputDescription
  refine FollowsUnless.get (FollowsUnless.ite ?_ (fun _ => ?_) fun _ => ?_)
  · rw [embeds.isAt_eq fun _ => more]
  · refine FollowsUnless.advance (fun _ => rfl) embeds more fun opening t t' _ embeds => ?_
    exact closed_follows (by decide) (by decide) embeds (names_follows embeds _)
      fun _ _ u u' embeds _ => Follows.chain embeds (equals u u' embeds) fun _ _ _ _ embeds =>
        FollowsUnless.pure embeds
  · refine FollowsUnless.advance (fun _ => rfl) embeds more fun output t t' _ embeds => ?_
    exact Follows.chain embeds (equals t t' embeds) fun _ _ _ _ embeds =>
      FollowsUnless.pure embeds

theorem signature_follows (embeds : frame.Embeds s s') :
    Follows frame State.Loose signature signature s s' := by
  rcases frame.sees_or_done s with sees | ⟨goesOn, done⟩
  · by_cases alone : frame.goesOn ∧ s.isAt .identifier = true ∧ s.rest.length = 1
    · obtain ⟨goesOn, here, alone⟩ := alone
      have uses := Uses.signature (sees goesOn) (by simp [here])
      refine FollowsUnless.spoil goesOn (uses.mono fun _ t shorter => Or.inr (Or.inl ?_))
      exact List.length_eq_zero_iff.mp (by omega)
    have next : s.isAt .identifier = true → s'.nextKind = s.nextKind := by
      intro here
      obtain ⟨first, rest, ahead⟩ :=
        List.exists_cons_of_ne_nil (State.more_of_isAt embeds.ends here (by decide))
      rw [State.nextKind, State.nextKind, embeds.rest, embeds.eof, ahead]
      cases rest with
      | nil =>
        have last : ¬frame.goesOn := fun goesOn => alone ⟨goesOn, here, by simp [ahead]⟩
        obtain ⟨more, eof, -⟩ := embeds.stops last
        simp only [more, eof]
        rfl
      | cons second rest => rfl
    unfold signature
    refine FollowsUnless.get (Follows.iteChain embeds ?_ (fun here => ?_)
      (fun _ => FollowsUnless.pure embeds) fun output t t' _ embeds => ?_)
    · simp only [embeds.isAt_eq sees]
      cases here : s.isAt .identifier with
      | false => simp
      | true => rw [next here]
    · have more : s.rest ≠ [] := by
        rw [Bool.or_eq_true, Bool.and_eq_true] at here
        rcases here with here | here
        · exact State.more_of_isAt embeds.ends here (by decide)
        · exact State.more_of_isAt embeds.ends here.1 (by decide)
      exact FollowsUnless.map (outputDescription_follows embeds more).loose
    have name := (compoundName_follows embeds).mono fun _ _ dotted => dotted.loose
    refine Follows.chain embeds name fun name t t' _ embeds => FollowsUnless.get ?_
    refine Follows.iteChain embeds ?_ (fun here => ?_) (fun _ => FollowsUnless.pure embeds)
      fun _ _ _ _ embeds => FollowsUnless.pure embeds
    · rw [embeds.isAt_line_eq]
    · rw [Bool.and_eq_true] at here
      have more := State.more_of_isAt embeds.ends here.1 (by decide)
      exact FollowsUnless.map (inputDescription_follows embeds more).loose
  · exact Follows.atEnd goesOn done

end

/-! Expressions. The reader of inner expressions is asked to read fewer than `bound` tokens. -/

section

variable {frame : Frame} {s s' : State} {inner inner' : Inner}
  [∀ inside floor, Forward (inner inside floor)] {bound : Nat}
  (inner_follows : ∀ inside floor t t', frame.Embeds t t' → t.rest.length < bound →
    Follows frame State.Marked (inner inside floor) (inner' inside floor) t t')

private theorem missingOperand_follows (embeds : frame.Embeds s s') :
    Follows frame State.Marked missingOperand missingOperand s s' := by
  unfold missingOperand
  exact Follows.chain embeds (missing_follows embeds _) fun _ _ _ _ embeds =>
    FollowsUnless.pure embeds

private theorem missingOperand_marks (s : State) : Gives missingOperand s fun _ t => t.Marked := by
  unfold missingOperand
  exact (missing_marks _ s).andThen fun _ _ marked => Gives.persists marked

include inner_follows

omit [∀ inside floor, Forward (inner inside floor)] in
private theorem operand_follows (embeds : frame.Embeds s s') (short : s.rest.length < bound)
    (inside : Bool)
    (floor : Precedence) :
    Follows frame State.Marked (operand inner inside floor) (operand inner' inside floor) s s' := by
  unfold operand
  refine FollowsUnless.get (FollowsUnless.ite ?_ (fun _ => missingOperand_follows embeds)
    fun _ => inner_follows inside floor s s' embeds short)
  rw [embeds.previousEndsLine_eq]

omit [∀ inside floor, Forward (inner inside floor)] in
private theorem rangeEnd_follows (embeds : frame.Embeds s s') (short : s.rest.length < bound)
    (inside : Bool) :
    Follows frame State.Marked (rangeEnd inner inside) (rangeEnd inner' inside) s s' := by
  unfold rangeEnd
  refine FollowsUnless.get (FollowsUnless.ite ?_ (fun _ => FollowsUnless.pure embeds)
    fun _ => inner_follows inside _ s s' embeds short)
  rw [embeds.previousEndsLine_eq]
  cases line : s.previousEndsLine with
  | true => simp
  | false => rw [embeds.isAtAny_eq (embeds.sees_of_line line)]

private theorem matrix_follows (embeds : frame.Embeds s s') (more : s.rest ≠ [])
    (short : s.rest.length ≤ bound) {kind close : Kind} (notEnd : close ≠ .eof)
    (notDot : close ≠ .dot) :
    Follows frame State.Marked (matrix inner kind close) (matrix inner' kind close) s s' := by
  unfold matrix
  refine FollowsUnless.advance (fun _ => rfl) embeds more fun opening t t' after embeds => ?_
  refine closed_follows notEnd notDot embeds ?_ fun _ _ _ _ embeds _ => FollowsUnless.pure embeds
  refine listUntil_follows (fun _ _ more => Uses.matrixItem inner more close) embeds
    (Nat.le_refl _) fun _ u u' embeds fewer more => ?_
  have shorter := after.shorter
  have sees : frame.goesOn → u.rest ≠ [] := fun _ => more
  unfold matrixItem
  refine FollowsUnless.get (FollowsUnless.ite ?_ (fun _ => ?_) fun _ =>
    FollowsUnless.ite ?_ (fun _ => ?_) fun _ => ?_)
  · rw [embeds.isAtSeparator_eq sees]
  · exact FollowsUnless.advance (fun _ => rfl) embeds more fun _ _ _ _ embeds =>
      FollowsUnless.pure embeds
  · rw [embeds.isAtAny_eq sees]
  · have value := inner_follows true .expression u u' embeds (by omega)
    exact (progressing_follows embeds more value).loose
  · exact Follows.chain embeds (errorNode_follows embeds more close).loose fun _ _ _ _ embeds =>
      FollowsUnless.pure embeds

private theorem argumentItem_follows (embeds : frame.Embeds s s') (more : s.rest ≠ [])
    (short : s.rest.length < bound) (close : Kind) (before : List Element) :
    Follows frame State.Marked (argumentItem inner close before) (argumentItem inner' close before)
      s s' := by
  have sees : frame.goesOn → s.rest ≠ [] := fun _ => more
  have value (comma : List Element) (t t' : State) (embeds : frame.Embeds t t')
      (same : t.rest = s.rest) :
      Follows frame State.Marked
        (progressing close (inner false .expression) >>= fun value => pure (comma ++ value))
        (progressing close (inner' false .expression) >>= fun value => pure (comma ++ value))
        t t' := by
    have read := inner_follows false .expression t t' embeds (by rw [same]; exact short)
    refine Follows.chain embeds (progressing_follows embeds ?_ read) fun _ _ _ _ embeds =>
      FollowsUnless.pure embeds
    rw [same]
    exact more
  unfold argumentItem
  refine FollowsUnless.get (FollowsUnless.ite ?_ (fun _ => ?_) fun _ =>
    FollowsUnless.ite ?_ (fun _ => ?_) fun _ => ?_)
  · rw [embeds.isAt_eq sees]
  · exact FollowsUnless.advance (fun _ => rfl) embeds more fun _ _ _ _ embeds =>
      FollowsUnless.pure embeds
  · rw [embeds.isAtAny_eq sees]
  · refine FollowsUnless.ite Iff.rfl (fun _ => ?_) fun _ => ?_
    · refine Follows.chain embeds (missing_follows embeds .comma) fun comma t t' found embeds => ?_
      exact value [.leaf comma] t t' embeds (missing_rest .comma s _ _ found)
    · exact value [] s s' embeds rfl
  · exact Follows.chain embeds (errorNode_follows embeds more close) fun _ _ _ _ embeds =>
      FollowsUnless.pure embeds

theorem arguments_follows (embeds : frame.Embeds s s') (more : s.rest ≠ [])
    (short : s.rest.length ≤ bound) {close : Kind} (notEnd : close ≠ .eof) (notDot : close ≠ .dot) :
    Follows frame State.Marked (arguments inner close) (arguments inner' close) s s' := by
  unfold arguments
  refine FollowsUnless.advance (fun _ => rfl) embeds more fun opening t t' after embeds => ?_
  refine closed_follows notEnd notDot embeds ?_ fun _ _ _ _ embeds _ => FollowsUnless.pure embeds
  refine listUntil_follows (fun before _ more => Uses.argumentItem inner more close before) embeds
    (Nat.le_refl _) fun before u u' embeds fewer more => ?_
  have shorter := after.shorter
  exact (argumentItem_follows inner_follows embeds more (by omega) close before).loose

omit [∀ inside floor, Forward (inner inside floor)] inner_follows in
private theorem compoundName_marks (ends : s.eof.kind = .eof) (done : s.rest = []) :
    Gives compoundName s fun _ t => t.Marked := by
  unfold compoundName
  exact (expect_marks (State.isAt_of_done ends done (by decide))).andThen fun _ _ marked =>
    Gives.persists marked

private theorem functionHandle_follows (embeds : frame.Embeds s s') (more : s.rest ≠ [])
    (short : s.rest.length ≤ bound) (inside : Bool) :
    Follows frame State.Dotted (functionHandle inner inside) (functionHandle inner' inside)
      s s' := by
  unfold functionHandle
  refine FollowsUnless.advance (fun _ => rfl) embeds more fun sign t t' after embeds => ?_
  rcases frame.sees_or_done t with sees | ⟨goesOn, done⟩
  · refine FollowsUnless.get (FollowsUnless.ite ?_ (fun here => ?_) fun _ => ?_)
    · rw [embeds.isAt_eq sees]
    · have more := State.more_of_isAt embeds.ends here (by decide)
      refine Follows.dotted (Follows.chain embeds (inputDescription_follows embeds more)
        fun parameters u u' found embeds => ?_)
      have shorter := after.shorter
      have fewer := (Forward.moves t _ _ found).length_le
      refine Follows.chain embeds (inner_follows inside _ u u' embeds (by omega))
        fun _ _ _ _ embeds => FollowsUnless.pure embeds
    · exact FollowsUnless.andThen embeds (compoundName_follows embeds)
        (fun _ _ _ _ embeds => FollowsUnless.pure embeds) fun _ _ _ _ dotted => Gives.pure dotted
  · refine FollowsUnless.spoil goesOn (Gives.get (Gives.ite (fun here => ?_) fun _ => ?_))
    · rw [State.isAt_of_done embeds.ends done (by decide)] at here
      exact absurd here Bool.false_ne_true
    · exact (compoundName_marks embeds.ends done).andThen fun _ _ marked =>
        Gives.pure (Or.inl marked)

omit [∀ inside floor, Forward (inner inside floor)] inner_follows in
private theorem single_follows (embeds : frame.Embeds s s') (more : s.rest ≠ [])
    {spoiled : State → Prop}
    (kind : Kind) : Follows frame spoiled (single kind) (single kind) s s' := by
  unfold single
  exact FollowsUnless.advance (fun _ => rfl) embeds more fun _ _ _ _ embeds =>
    FollowsUnless.pure embeds

private theorem parenthesized_follows (embeds : frame.Embeds s s') (more : s.rest ≠ [])
    (short : s.rest.length ≤ bound) :
    Follows frame State.Marked (parenthesized inner) (parenthesized inner') s s' := by
  unfold parenthesized
  refine FollowsUnless.advance (fun _ => rfl) embeds more fun opening t t' after embeds => ?_
  have shorter := after.shorter
  refine Follows.chain embeds (inner_follows false _ t t' embeds (by omega))
    fun body u u' _ embeds => ?_
  exact Follows.chain embeds (expect_follows embeds (by decide)) fun _ _ _ _ embeds =>
    FollowsUnless.pure embeds

omit [∀ inside floor, Forward (inner inside floor)] inner_follows in
private theorem term_marks (inner : Inner) (inside : Bool) (ends : s.eof.kind = .eof)
    (done : s.rest = []) :
    Gives (term inner inside) s fun _ t => t.Marked := by
  unfold term
  refine Gives.get ?_
  rw [State.currentKind_of_done ends done]
  exact missingOperand_marks s

private theorem term_follows (embeds : frame.Embeds s s') (short : s.rest.length ≤ bound)
    (inside : Bool) :
    Follows frame State.Dotted (term inner inside) (term inner' inside) s s' := by
  rcases frame.sees_or_done s with sees | ⟨goesOn, done⟩
  · unfold term
    refine FollowsUnless.get ?_
    rw [embeds.currentKind_eq sees]
    have more {kind : Kind} (here : s.currentKind = kind) (other : kind ≠ .eof) : s.rest ≠ [] :=
      State.more_of_currentKind embeds.ends here other
    split
    case h_1 here => exact single_follows embeds (more here (by decide)) _
    case h_2 here => exact single_follows embeds (more here (by decide)) _
    case h_3 here => exact single_follows embeds (more here (by decide)) _
    case h_4 here => exact single_follows embeds (more here (by decide)) _
    case h_5 here => exact single_follows embeds (more here (by decide)) _
    case h_6 here =>
      exact (matrix_follows inner_follows embeds (more here (by decide)) short (by decide)
        (by decide)).dotted
    case h_7 here =>
      exact (matrix_follows inner_follows embeds (more here (by decide)) short (by decide)
        (by decide)).dotted
    case h_8 here =>
      exact (parenthesized_follows inner_follows embeds (more here (by decide)) short).dotted
    case h_9 here =>
      exact functionHandle_follows inner_follows embeds (more here (by decide)) short inside
    case h_10 => exact (missingOperand_follows embeds).dotted
  · refine FollowsUnless.spoil goesOn ?_
    exact (term_marks inner inside embeds.ends done).mono fun _ _ marked => Or.inl marked

private theorem memberAccess_follows (embeds : frame.Embeds s s') (more : s.rest ≠ [])
    (short : s.rest.length ≤ bound) (subject : Element) :
    Follows frame State.Marked (memberAccess inner subject) (memberAccess inner' subject) s s' := by
  unfold memberAccess
  refine FollowsUnless.advance (fun _ => rfl) embeds more fun dot t t' after embeds => ?_
  have shorter := after.shorter
  rcases frame.sees_or_done t with sees | ⟨goesOn, done⟩
  · refine FollowsUnless.get (FollowsUnless.ite ?_ (fun here => ?_) fun _ => ?_)
    · rw [embeds.isAt_eq sees]
    · have more := State.more_of_isAt embeds.ends here (by decide)
      refine FollowsUnless.advance (fun _ => rfl) embeds more fun opening u u' after embeds => ?_
      have fewer := after.shorter
      refine Follows.chain embeds (inner_follows false _ u u' embeds (by omega))
        fun member v v' _ embeds => ?_
      exact Follows.chain embeds (expect_follows embeds (by decide)) fun _ _ _ _ embeds =>
        FollowsUnless.pure embeds
    · exact Follows.chain embeds (expect_follows embeds (by decide)) fun _ _ _ _ embeds =>
        FollowsUnless.pure embeds
  · refine FollowsUnless.spoil goesOn (Gives.get (Gives.ite (fun here => ?_) fun _ => ?_))
    · rw [State.isAt_of_done embeds.ends done (by decide)] at here
      exact absurd here Bool.false_ne_true
    · exact (expect_marks (State.isAt_of_done embeds.ends done (by decide))).andThen
        fun _ _ marked => Gives.persists marked

omit [∀ inside floor, Forward (inner inside floor)] inner_follows in
private theorem baseClassInvocation_follows (embeds : frame.Embeds s s') (more : s.rest ≠ [])
    (method : Element) :
    Follows frame State.Dotted (baseClassInvocation method) (baseClassInvocation method) s s' := by
  unfold baseClassInvocation
  refine FollowsUnless.advance (fun _ => rfl) embeds more fun sign t t' _ embeds => ?_
  refine FollowsUnless.andThen embeds (expect_follows embeds (by decide))
    (fun first u u' _ embeds => ?_) fun _ _ _ _ marked => ?_
  · exact FollowsUnless.andThen embeds (dotted_follows _ embeds _)
      (fun _ _ _ _ embeds => FollowsUnless.pure embeds) fun _ _ _ _ dotted => Gives.pure dotted
  · exact (Gives.persists marked).mono fun _ _ marked => Or.inl marked

omit [∀ inside floor, Forward (inner inside floor)] inner_follows in
private theorem command_follows (embeds : frame.Embeds s s') (name : Element) :
    Follows frame State.Marked (command name) (command name) s s' := by
  have round (words : List Token) (t t' : State) (embeds : frame.Embeds t t') :
      Follows frame State.Marked (commandStep words) (commandStep words) t t' := by
    unfold commandStep
    have word := @eatIf_follows frame t t' embeds (·.isAt .unquotedStringLiteral) State.Marked
      embeds.isAt_unquoted_eq fun here => State.more_of_isAt embeds.ends here (by decide)
    refine FollowsUnless.andThen embeds word (fun found u u' _ embeds => ?_)
      fun _ found _ _ marked => ?_
    · cases found <;> exact FollowsUnless.pure embeds
    · cases found <;> exact Gives.pure marked
  have loop := Follows.repeated Steady.commandStep embeds (Nat.le_refl _)
    (fun words t t' embeds _ => round words t t' embeds) []
  unfold command
  exact Follows.chain embeds loop fun _ _ _ _ embeds => FollowsUnless.pure embeds

private theorem suffixStep_follows (embeds : frame.Embeds s s') (short : s.rest.length ≤ bound)
    (inside : Bool) (subject : Element) :
    FollowsUnless frame (spoiledRound (fun _ => State.Dotted) (fun _ => State.Marked) subject)
      (suffixStep inner inside subject) (suffixStep inner' inside subject) s s' := by
  unfold suffixStep
  refine FollowsUnless.get (FollowsUnless.ite ?_ (fun _ => FollowsUnless.pure embeds)
    fun line => ?_)
  · rw [embeds.previousEndsLine_eq]
  have sees := embeds.sees_of_line (Bool.eq_false_iff.mpr line)
  rw [embeds.currentKind_eq sees, embeds.previousHasTrailing_eq]
  have more {kind : Kind} (here : s.currentKind = kind) (other : kind ≠ .eof) : s.rest ≠ [] :=
    State.more_of_currentKind embeds.ends here other
  have call (kind close : Kind) (more : s.rest ≠ []) (notEnd : close ≠ .eof)
      (notDot : close ≠ .dot) :
      FollowsUnless frame (spoiledRound (fun _ => State.Dotted) (fun _ => State.Marked) subject)
        (arguments inner close >>= fun parts =>
          pure (some (Element.ofChildren kind (subject :: parts))))
        (arguments inner' close >>= fun parts =>
          pure (some (Element.ofChildren kind (subject :: parts)))) s s' :=
    FollowsUnless.andThen embeds
      (arguments_follows inner_follows embeds more short notEnd notDot)
      (fun _ _ _ _ embeds => FollowsUnless.pure embeds) fun _ _ _ _ marked =>
        Gives.pure (Or.inl marked)
  split
  case h_1 here =>
    refine FollowsUnless.ite Iff.rfl (fun _ => FollowsUnless.pure embeds) fun _ => ?_
    exact call _ _ (more here (by decide)) (by decide) (by decide)
  case h_2 here =>
    refine FollowsUnless.ite Iff.rfl (fun _ => FollowsUnless.pure embeds) fun _ => ?_
    exact call _ _ (more here (by decide)) (by decide) (by decide)
  case h_3 here =>
    have access := memberAccess_follows inner_follows embeds (more here (by decide)) short subject
    exact FollowsUnless.map access.dotted
  case h_4 here =>
    exact FollowsUnless.advance (fun _ => rfl) embeds (more here (by decide))
      fun _ _ _ _ embeds => FollowsUnless.pure embeds
  case h_5 here =>
    exact FollowsUnless.advance (fun _ => rfl) embeds (more here (by decide))
      fun _ _ _ _ embeds => FollowsUnless.pure embeds
  case h_6 here =>
    refine FollowsUnless.ite Iff.rfl (fun _ => ?_) fun _ => FollowsUnless.pure embeds
    exact FollowsUnless.map (baseClassInvocation_follows embeds (more here (by decide)) subject)
  case h_7 => exact FollowsUnless.pure embeds

omit [∀ inside floor, Forward (inner inside floor)] inner_follows in
private theorem suffixStep_marks (ends : s.eof.kind = .eof) (dot : s.AtLastDot) (inside : Bool)
    (subject : Element) : Gives (suffixStep inner inside subject) s fun _ t => t.Marked := by
  have kind := currentKind_of_lastDot dot
  obtain ⟨placed, rest, -, trailing⟩ := dot
  have access : Gives (memberAccess inner subject) s fun _ t => t.Marked := by
    have first : Gives advance s fun _ t => t.rest = [] ∧ t.eof = s.eof := by
      intro token t yields
      rw [outcome_advance rest, Except.ok.injEq, Prod.mk.injEq] at yields
      rw [← yields.2]
      exact ⟨rfl, rfl⟩
    unfold memberAccess
    refine first.andThen fun _ t after => ?_
    have ends : t.eof.kind = .eof := by rw [after.2]; exact ends
    refine Gives.get (Gives.ite (fun here => ?_) fun _ => ?_)
    · rw [State.isAt_of_done ends after.1 (by decide)] at here
      exact absurd here Bool.false_ne_true
    · exact (expect_marks (State.isAt_of_done ends after.1 (by decide))).andThen
        fun _ _ marked => Gives.persists marked
  have line : s.previousEndsLine = false := by
    cases found : s.previous with
    | none => simp [State.previousEndsLine, found]
    | some last =>
      have pieces : last.trailing = [] := by
        simpa [State.previousHasTrailing, found] using trailing
      simp [State.previousEndsLine, found, Token.endsLine, pieces]
  unfold suffixStep
  refine Gives.get (Gives.ite (fun here => ?_) fun _ => ?_)
  · rw [line] at here
    exact absurd here Bool.false_ne_true
  · rw [kind]
    exact Gives.map access

omit inner_follows in
private theorem suffixes_mark (ends : s.eof.kind = .eof) (dotted : s.Dotted) (inside : Bool)
    (count : Nat)
    (enough : s.rest.length ≤ count) (subject : Element) :
    Gives (iterate (suffixStep inner inside) count subject) s fun _ t => t.Marked := by
  rcases dotted with marked | dot
  · exact Gives.persists marked
  · have one : s.rest.length = 1 := by
      obtain ⟨placed, rest, -⟩ := dot
      simp [rest]
    obtain ⟨count, rfl⟩ : ∃ fewer, count = fewer + 1 := ⟨count - 1, by omega⟩
    refine (suffixStep_marks ends dot inside subject).andThen fun further t marked => ?_
    cases further with
    | none => exact Gives.pure marked
    | some further => exact Gives.persists marked

private theorem suffixed_follows (embeds : frame.Embeds s s') (short : s.rest.length ≤ bound)
    (inside : Bool) :
    Follows frame State.Marked (suffixed inner inside) (suffixed inner' inside) s s' := by
  unfold suffixed
  refine FollowsUnless.andThen embeds (term_follows inner_follows embeds short inside)
    (fun subject t t' found embeds => ?_) fun _ subject t ends dotted => ?_
  · have fewer := (Forward.moves s _ _ found).length_le
    refine FollowsUnless.get (FollowsUnless.ite ?_ (fun _ => command_follows embeds subject)
      fun _ => ?_)
    · rw [embeds.isAt_unquoted_eq]
    · exact FollowsUnless.repeated (Steady.suffixStep inner inside) embeds
        (Nat.le_trans fewer short)
        (fun subject u u' embeds short =>
          suffixStep_follows inner_follows embeds short inside subject)
        (fun _ count subject u ends enough dotted =>
          suffixes_mark ends dotted inside count enough subject) subject
  · refine Gives.get (Gives.ite (fun here => ?_) fun _ => ?_)
    · rcases dotted with marked | dot
      · exact Gives.persists marked
      · rw [Bool.and_eq_true, State.isAt, currentKind_of_lastDot dot] at here
        exact absurd here.2 (by decide)
    · exact Gives.get (suffixes_mark ends dotted inside _ (Nat.le_refl _) subject)

private theorem prefixed_follows (embeds : frame.Embeds s s') (more : s.rest ≠ [])
    (short : s.rest.length ≤ bound) (inside : Bool) (floor : Precedence) :
    Follows frame State.Marked (prefixed inner inside floor) (prefixed inner' inside floor)
      s s' := by
  unfold prefixed
  refine FollowsUnless.advance (fun _ => rfl) embeds more fun sign t t' after embeds => ?_
  have shorter := after.shorter
  refine FollowsUnless.get (Follows.iteChain embeds ?_ (fun _ => FollowsUnless.pure embeds)
    (fun _ => operand_follows inner_follows embeds (by omega) _ _)
    fun _ _ _ _ embeds => FollowsUnless.pure embeds)
  cases tilde : sign.kind == .tilde with
  | false => simp
  | true =>
    have sees : frame.goesOn → t.rest ≠ [] := by
      intro goesOn done
      obtain ⟨last, found, -, other⟩ := embeds.at_line goesOn done
      rw [after.previous, Option.some.injEq] at found
      rw [found, beq_iff_eq] at tilde
      exact other tilde
    rw [embeds.isAtAny_eq sees]

private theorem signed_follows (embeds : frame.Embeds s s') (short : s.rest.length ≤ bound)
    (inside : Bool)
    (floor : Precedence) :
    Follows frame State.Marked (signed inner inside floor) (signed inner' inside floor) s s' := by
  rcases frame.sees_or_done s with sees | ⟨goesOn, done⟩
  · unfold signed
    refine FollowsUnless.get ?_
    rw [embeds.currentKind_eq sees]
    have more {kind : Kind} (here : s.currentKind = kind) (other : kind ≠ .eof) : s.rest ≠ [] :=
      State.more_of_currentKind embeds.ends here other
    split
    case h_1 here =>
      exact prefixed_follows inner_follows embeds (more here (by decide)) short inside floor
    case h_2 here =>
      exact prefixed_follows inner_follows embeds (more here (by decide)) short inside floor
    case h_3 here =>
      exact prefixed_follows inner_follows embeds (more here (by decide)) short inside floor
    case h_4 here =>
      refine FollowsUnless.advance (fun _ => rfl) embeds (more here (by decide))
        fun colon t t' after embeds => ?_
      have shorter := after.shorter
      exact Follows.chain embeds (rangeEnd_follows inner_follows embeds (by omega) inside)
        fun _ _ _ _ embeds => FollowsUnless.pure embeds
    case h_5 => exact suffixed_follows inner_follows embeds short inside
  · refine FollowsUnless.spoil goesOn ?_
    unfold signed suffixed
    refine Gives.get ?_
    rw [State.currentKind_of_done embeds.ends done]
    exact (term_marks inner inside embeds.ends done).andThen fun _ _ marked => Gives.persists marked

private theorem binaryStep_follows (embeds : frame.Embeds s s') (short : s.rest.length ≤ bound)
    (inside : Bool) (floor : Precedence) (left : Element) :
    Follows frame State.Marked (binaryStep inner inside floor left)
      (binaryStep inner' inside floor left) s s' := by
  unfold binaryStep
  refine FollowsUnless.get (FollowsUnless.ite ?_ (fun _ => FollowsUnless.pure embeds)
    fun line => ?_)
  · rw [embeds.previousEndsLine_eq]
  have sees := embeds.sees_of_line (Bool.eq_false_iff.mpr line)
  rw [embeds.currentKind_eq sees, embeds.startsSignedElement_eq sees]
  split
  case h_1 => exact FollowsUnless.pure embeds
  case h_2 precedence found =>
    have more : s.rest ≠ [] := by
      intro done
      rw [State.currentKind_of_done embeds.ends done] at found
      simp [Precedence.ofBinary?] at found
    refine FollowsUnless.ite Iff.rfl (fun _ => FollowsUnless.pure embeds) fun _ => ?_
    refine FollowsUnless.advance (fun _ => rfl) embeds more fun operator t t' after embeds => ?_
    have shorter := after.shorter
    exact Follows.iteChain embeds Iff.rfl
      (fun _ => rangeEnd_follows inner_follows embeds (by omega) inside)
      (fun _ => operand_follows inner_follows embeds (by omega) inside precedence)
      fun _ _ _ _ embeds => FollowsUnless.pure embeds

private theorem climb_follows (embeds : frame.Embeds s s') (short : s.rest.length ≤ bound)
    (inside : Bool)
    (floor : Precedence) :
    Follows frame State.Marked (climb inner inside floor) (climb inner' inside floor) s s' := by
  unfold climb
  refine Follows.chain embeds (signed_follows inner_follows embeds short inside floor)
    fun left t t' found embeds => ?_
  have fewer := (Forward.moves s _ _ found).length_le
  exact Follows.repeated (Steady.binaryStep inner inside floor) embeds (Nat.le_trans fewer short)
    (fun left u u' embeds short =>
      binaryStep_follows inner_follows embeds short inside floor left) left

end

section

variable {frame : Frame} {s s' : State}

theorem expressionWithin_follows (embeds : frame.Embeds s s') {depth depth' : Nat}
    (enough : s.rest.length < depth) (enough' : s'.rest.length < depth') (inside : Bool)
    (floor : Precedence) :
    Follows frame State.Marked (expressionWithin depth inside floor)
      (expressionWithin depth' inside floor) s s' := by
  induction depth generalizing depth' inside floor s s' with
  | zero => omega
  | succ depth ih =>
    obtain ⟨depth', rfl⟩ : ∃ less, depth' = less + 1 := ⟨depth' - 1, by omega⟩
    have longer := embeds.length_eq
    have inner (inside : Bool) (floor : Precedence) (t t' : State) (embeds : frame.Embeds t t')
        (short : t.rest.length < s.rest.length) :
        Follows frame State.Marked (expressionWithin depth inside floor)
          (expressionWithin depth' inside floor) t t' := by
      have longer' := embeds.length_eq
      exact ih embeds (by omega) (by omega) inside floor
    exact climb_follows inner embeds (Nat.le_refl _) inside floor

theorem expression_follows (embeds : frame.Embeds s s') (inside : Bool) :
    Follows frame State.Marked (expression inside) (expression inside) s s' :=
  FollowsUnless.get (expressionWithin_follows embeds (Nat.lt_succ_self _) (Nat.lt_succ_self _)
    inside _)

end

end MatrixScript.Grammar
