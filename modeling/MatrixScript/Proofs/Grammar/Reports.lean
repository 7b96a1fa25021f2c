import Mathlib.Algebra.Order.BigOperators.Group.List
import Mathlib.Algebra.Order.Group.Nat
import MatrixScript.Proofs.Grammar.BlockTandem
import MatrixScript.Proofs.Grammar.Composition
import MatrixScript.Proofs.Grammar.Conservation
import MatrixScript.Proofs.Lexer.Problems
import MatrixScript.Proofs.Tree.Everywhere

/-!
Every problem of a script is told twice: in the list of the tree, and on the element that it
concerns.

An `Account` is what holds of both while a script is read. Apart from missing tokens the two tell
the same problems at the same places (`Tree.parse_tells`). A missing token stands in front of the
trivia of the next token and is told behind it, so the two agree on its place just where no trivia
comes between (`Tree.parse_tells_missing`).
-/

set_option autoImplicit false

namespace MatrixScript

def Diagnostic.isMissing (diagnostic : Diagnostic) : Bool :=
  match diagnostic.problem with
  | .missingToken _ => true
  | _ => false

@[simp]
theorem Diagnostic.isMissing_shift (diagnostic : Diagnostic) (offset : Nat) :
    (diagnostic.shift offset).isMissing = diagnostic.isMissing := rfl

/-- The problems kept on an element itself, counted from the start of the tree. -/
def Located.attached (place : Located) : List Diagnostic :=
  place.element.diagnostics.map (·.shift place.offset)

/-- All problems kept in a tree, those of each element before those of what it holds. -/
def Element.attached (root : Element) : List Diagnostic :=
  (Located.root root).preorder.flatMap Located.attached

namespace Element

mutual

def problemsAt : Element → Nat → List Diagnostic
  | .leaf token, offset => token.diagnostics.map (·.shift offset)
  | .node _ slots diagnostics, offset =>
    diagnostics.map (·.shift offset) ++ slotProblems slots offset

def slotProblems : List (Option Element) → Nat → List Diagnostic
  | [], _ => []
  | none :: rest, offset => slotProblems rest offset
  | some element :: rest, offset =>
    element.problemsAt offset ++ slotProblems rest (offset + element.width)

end

@[simp]
theorem slotsWidth_leaf (token : Token) : slotsWidth [some (.leaf token)] = token.width := by
  simp [slotsWidth, width]

@[simp]
theorem slotsWidth_node (kind : Kind) (slots : List (Option Element))
    (diagnostics : List Diagnostic) :
    slotsWidth [some (.node kind slots diagnostics)] = slotsWidth slots := by
  simp [slotsWidth, width]

@[simp]
theorem slotProblems_append (a b : List (Option Element)) (offset : Nat) :
    slotProblems (a ++ b) offset =
      slotProblems a offset ++ slotProblems b (offset + slotsWidth a) := by
  induction a generalizing offset with
  | nil => simp [slotProblems, slotsWidth]
  | cons slot a ih =>
    cases slot with
    | none => simp [slotProblems, ih, slotsWidth]
    | some element =>
      simp [slotProblems, ih, slotsWidth, Nat.add_assoc]

@[simp]
theorem slotProblems_leaf (token : Token) (offset : Nat) :
    slotProblems [some (.leaf token)] offset = token.diagnostics.map (·.shift offset) := by
  simp [slotProblems, problemsAt]

@[simp]
theorem slotProblems_node (kind : Kind) (slots : List (Option Element))
    (diagnostics : List Diagnostic) (offset : Nat) :
    slotProblems [some (.node kind slots diagnostics)] offset =
      diagnostics.map (·.shift offset) ++ slotProblems slots offset := by
  simp [slotProblems, problemsAt]

mutual

private theorem flatMap_attached_preorderAt (element : Element) (offset : Nat)
    (trail : List Crumb) :
    (Located.preorderAt element offset trail).flatMap Located.attached =
      element.problemsAt offset := by
  match element with
  | .leaf token => simp [Located.preorderAt, problemsAt, Located.attached, diagnostics]
  | .node kind slots diagnostics =>
    simp [Located.preorderAt, problemsAt, Located.attached, Element.diagnostics,
      flatMap_attached_preorderSlots]

theorem flatMap_attached_preorderSlots (parent : Element) (start : Nat) (trail : List Crumb)
    (slots : List (Option Element)) (index offset : Nat) :
    (Located.preorderSlots parent start trail slots index offset).flatMap Located.attached =
      slotProblems slots offset := by
  match slots with
  | [] => simp [Located.preorderSlots, slotProblems]
  | none :: rest =>
    simp [Located.preorderSlots, slotProblems, flatMap_attached_preorderSlots]
  | some element :: rest =>
    simp [Located.preorderSlots, slotProblems, flatMap_attached_preorderAt,
      flatMap_attached_preorderSlots]

end

private theorem attached_eq (root : Element) : root.attached = slotProblems [some root] 0 := by
  rw [attached, Located.preorder, flatMap_attached_preorderAt]
  simp [slotProblems, Located.root]

end Element

/-! Tokens that the text lacks. -/

/-- A token that the text lacks: where it stands in the tree, and where the significant part of the
next token begins that the text has. -/
structure Lack where
  kind : Kind
  place : Nat
  next : Nat
  deriving DecidableEq, Repr

namespace Lack

def mark (lack : Lack) : Diagnostic := ⟨.missingToken lack.kind, Range.empty lack.place⟩

def report (lack : Lack) : Diagnostic := ⟨.missingToken lack.kind, Range.empty lack.next⟩

end Lack

/-- The trivia in front of the next token that is not missing. -/
def Token.leadingAhead (tokens : List Token) : Nat :=
  ((tokens.find? (!·.isMissing)).map Token.leadingWidth).getD 0

/-- The missing ones among tokens that stand one after the other from an offset on. -/
def Token.lacks : Nat → List Token → List Lack
  | _, [] => []
  | offset, token :: rest =>
    if token.isMissing then
      ⟨token.kind, offset, offset + leadingAhead rest⟩ :: lacks offset rest
    else lacks (offset + token.width) rest

/-- The tokens that the text of a tree lacks, from left to right. -/
def Element.lacks (root : Element) : List Lack := Token.lacks 0 root.tokens

namespace Token

private theorem lacks_of_present {tokens : List Token} (offset : Nat)
    (present : ∀ token ∈ tokens, token.isMissing = false) : lacks offset tokens = [] := by
  induction tokens generalizing offset with
  | nil => rfl
  | cons token tokens ih =>
    rw [List.forall_mem_cons] at present
    simp [lacks, present.1, ih _ present.2]

private theorem lacks_insert (offset : Nat) (front : List Token) {token next : Token}
    {later : List Token} (missing : token.isMissing = true)
    (present : ∀ token ∈ next :: later, token.isMissing = false)
    (widths : ∀ token ∈ front, token.isMissing = true → token.text = []) :
    lacks offset (front ++ token :: next :: later) =
      lacks offset (front ++ next :: later) ++
        [⟨token.kind, offset + Text.byteSize (front.flatMap Token.text),
          offset + Text.byteSize (front.flatMap Token.text) + next.leadingWidth⟩] := by
  induction front generalizing offset with
  | nil =>
    have none := lacks_of_present offset present
    rw [List.forall_mem_cons] at present
    rw [List.nil_append, lacks, if_pos missing, List.nil_append, none]
    simp [leadingAhead, present.1]
  | cons first front ih =>
    rw [List.forall_mem_cons] at widths
    cases firstMissing : first.isMissing with
    | true =>
      have ahead : leadingAhead (front ++ token :: next :: later) =
          leadingAhead (front ++ next :: later) := by
        simp [leadingAhead, List.find?_append, missing]
      simp [lacks, firstMissing, ih _ widths.2, ahead, widths.1 firstMissing]
    | false =>
      simp [lacks, firstMissing, ih _ widths.2, Token.width, Nat.add_assoc]

private theorem place_le_next {tokens : List Token} {offset : Nat} :
    ∀ lack ∈ lacks offset tokens, lack.place ≤ lack.next := by
  induction tokens generalizing offset with
  | nil => simp [lacks]
  | cons token tokens ih =>
    rw [lacks]
    split
    · rw [List.forall_mem_cons]
      exact ⟨Nat.le_add_right _ _, ih⟩
    · exact ih

end Token

/-! What is kept on a single element. -/

/-- A missing token keeps that it is missing; any other, what was found when it was read. -/
def Token.Marked (token : Token) : Prop :=
  if token.isMissing then
    token.kind ≠ .badToken ∧ token.diagnostics = [⟨.missingToken token.kind, Range.empty 0⟩]
  else token.Fits ∧ token.IsBadOrLexical

/-- An error node keeps one problem, that of the token in it. No other node keeps any. -/
def Element.Marked : Element → Prop
  | .leaf token => token.Marked
  | .node kind slots diagnostics =>
    if kind = .error then
      ∃ expected token, token.isMissing = false ∧ token.Fits ∧ slots = [some (.leaf token)] ∧
        diagnostics = [⟨.unexpectedToken expected token.kind, token.span 0⟩]
    else diagnostics = []

/-- A token read from a text of a size, with all its problems inside. -/
structure PlacedToken.IsRead (size : Nat) (placed : PlacedToken) : Prop where
  present : placed.token.isMissing = false
  fits : placed.token.Fits
  problems : placed.token.IsBadOrLexical
  inside : ∀ diagnostic ∈ placed.diagnostics, diagnostic.range.stop ≤ size

namespace PlacedToken.IsRead

variable {size : Nat} {placed : PlacedToken}

private theorem marked (isRead : placed.IsRead size) : (Element.leaf placed.token).Marked := by
  simp only [Element.Marked, Token.Marked, isRead.present, Bool.false_eq_true, if_false]
  exact ⟨isRead.fits, isRead.problems⟩

private theorem isMissing_eq (isRead : placed.IsRead size) :
    ∀ diagnostic ∈ placed.diagnostics, diagnostic.isMissing = false := by
  intro diagnostic member
  obtain ⟨own, here, rfl⟩ := List.mem_map.mp member
  rw [Diagnostic.isMissing_shift]
  by_cases bad : placed.token.kind = .badToken
  · obtain ⟨c, -, only⟩ := isRead.problems.bad bad
    rw [only, List.mem_singleton] at here
    rw [here]
    rfl
  · have lexical := isRead.problems.other bad own here
    obtain ⟨problem, range⟩ := own
    cases problem <;> first | rfl | exact absurd lexical Bool.false_ne_true

end PlacedToken.IsRead

namespace Grammar

open Element (slotProblems slotsWidth slotsWidth_eq slotTokens)

/-- What holds, while a text of a size is parsed, of the elements built so far, the tokens to come
and the problems told; `found` are the problems found when the tokens were read. -/
structure Account (size : Nat) (found : List Diagnostic) (held : Row) (ahead : List PlacedToken)
    (told : List Diagnostic) : Prop where
  consecutive : PlacedToken.Consecutive (slotsWidth held) ahead
  whole : slotsWidth held + Text.byteSize (ahead.flatMap (·.token.text)) = size
  read : ∀ placed ∈ ahead, placed.IsRead size
  present : ∀ diagnostic ∈ found, diagnostic.isMissing = false
  empty : ∀ token ∈ slotTokens held, token.isMissing = true → token.text = []
  /-- Missing tokens left aside, the same problems are told and kept. -/
  same : ((slotProblems held 0 ++ ahead.flatMap PlacedToken.diagnostics).filter
    (!·.isMissing)).Perm ((found ++ told).filter (!·.isMissing))
  kept : (slotProblems held 0).filter (·.isMissing) =
    (Token.lacks 0 (slotTokens held ++ ahead.map PlacedToken.token)).map Lack.mark
  reported : told.filter (·.isMissing) =
    (Token.lacks 0 (slotTokens held ++ ahead.map PlacedToken.token)).map Lack.report
  marked : ∀ element, some element ∈ held → element.Everywhere Element.Marked
  inside : ∀ diagnostic ∈ slotProblems held 0, diagnostic.range.stop ≤ size

namespace Account

variable {size : Nat} {found told : List Diagnostic} {held : Row} {placed : PlacedToken}
  {ahead : List PlacedToken}

private theorem start (consecutive : PlacedToken.Consecutive 0 ahead)
    (whole : Text.byteSize (ahead.flatMap (·.token.text)) = size)
    (read : ∀ placed ∈ ahead, placed.IsRead size) :
    Account size (ahead.flatMap PlacedToken.diagnostics) [] ahead [] := by
  have none : Token.lacks 0 (ahead.map PlacedToken.token) = [] := by
    refine Token.lacks_of_present 0 fun token member => ?_
    obtain ⟨placed, here, rfl⟩ := List.mem_map.mp member
    exact (read placed here).present
  refine ⟨by simpa [slotsWidth_eq] using consecutive, by simpa [slotsWidth_eq] using whole, read, ?_,
    by simp, ?_, ?_, ?_, by simp, by simp [slotProblems]⟩
  · intro diagnostic member
    obtain ⟨placed, here, own⟩ := List.mem_flatMap.mp member
    exact (read placed here).isMissing_eq diagnostic own
  · simp [slotProblems]
  · simp [slotProblems, none]
  · simp [none]

private theorem problems_placed (account : Account size found held (placed :: ahead) told) :
    placed.token.diagnostics.map (·.shift (slotsWidth held)) = placed.diagnostics := by
  rw [PlacedToken.diagnostics, account.consecutive.1]

private theorem used (account : Account size found held (placed :: ahead) told) :
    Account size found (held ++ [some (.leaf placed.token)]) ahead told := by
  have here := account.problems_placed
  have read := account.read
  rw [List.forall_mem_cons] at read
  have clean : (placed.diagnostics.filter (·.isMissing)) = [] := by
    rw [List.filter_eq_nil_iff]
    intro diagnostic member
    rw [read.1.isMissing_eq diagnostic member]
    exact Bool.false_ne_true
  refine ⟨?_, ?_, read.2, account.present, ?_, ?_, ?_, ?_, ?_, ?_⟩
  · simpa using account.consecutive.2
  · simpa [Token.width, Nat.add_assoc] using account.whole
  · intro token member missing
    simp only [Element.slotTokens_append, List.mem_append, Element.slotTokens_some,
      Element.tokens_leaf, Element.slotTokens_nil, List.append_nil, List.mem_singleton] at member
    rcases member with member | rfl
    · exact account.empty token member missing
    · rw [read.1.present] at missing
      exact absurd missing Bool.false_ne_true
  · simpa [here] using account.same
  · simpa [here, clean] using account.kept
  · simpa using account.reported
  · intro element member
    rcases List.mem_append.mp member with member | member
    · exact account.marked element member
    · rw [List.mem_singleton, Option.some.injEq] at member
      rw [member]
      exact .leaf read.1.marked
  · intro diagnostic member
    simp only [Element.slotProblems_append, Element.slotProblems_leaf, Nat.zero_add, here,
      List.mem_append] at member
    rcases member with member | member
    · exact account.inside diagnostic member
    · exact read.1.inside diagnostic member

private theorem lacked (account : Account size found held (placed :: ahead) told) {kind : Kind}
    (proper : kind ≠ .badToken) :
    Account size found (held ++ [some (.leaf (lackingToken kind))]) (placed :: ahead)
      (told ++ [⟨.missingToken kind, Range.empty placed.range.start⟩]) := by
  have problems : slotProblems (held ++ [some (.leaf (lackingToken kind))]) 0 =
      slotProblems held 0 ++ [⟨.missingToken kind, Range.empty (slotsWidth held)⟩] := by
    simp [lackingToken, Token.missing, Token.withDiagnostics, Diagnostic.shift, Range.shift,
      Range.empty]
  have isMissing (offset : Nat) :
      Diagnostic.isMissing ⟨.missingToken kind, Range.empty offset⟩ = true := rfl
  have next : placed.range.start = slotsWidth held + placed.token.leadingWidth := by
    rw [PlacedToken.range, Token.span, account.consecutive.1]
  have lacks : Token.lacks 0 (slotTokens (held ++ [some (.leaf (lackingToken kind))]) ++
        (placed :: ahead).map PlacedToken.token) =
      Token.lacks 0 (slotTokens held ++ (placed :: ahead).map PlacedToken.token) ++
        [⟨kind, slotsWidth held, placed.range.start⟩] := by
    have present : ∀ token ∈ placed.token :: ahead.map PlacedToken.token,
        token.isMissing = false := by
      simpa using fun placed member => (account.read placed member).present
    have inserted := Token.lacks_insert 0 (slotTokens held) (lackingToken_isMissing kind) present
      account.empty
    simpa [slotsWidth_eq, next] using inserted
  refine ⟨?_, ?_, account.read, account.present, ?_, ?_, ?_, ?_, ?_, ?_⟩
  · simpa using account.consecutive
  · simpa using account.whole
  · intro token member missing
    simp only [Element.slotTokens_append, List.mem_append, Element.slotTokens_some,
      Element.tokens_leaf, Element.slotTokens_nil, List.append_nil, List.mem_singleton] at member
    rcases member with member | rfl
    · exact account.empty token member missing
    · rfl
  · rw [problems]
    simpa [isMissing] using account.same
  · rw [problems, lacks, List.map_append, ← account.kept]
    simp [isMissing, Lack.mark]
  · rw [lacks, List.map_append, ← account.reported]
    simp [isMissing, Lack.report]
  · intro element member
    rcases List.mem_append.mp member with member | member
    · exact account.marked element member
    · rw [List.mem_singleton, Option.some.injEq] at member
      rw [member]
      exact .leaf ⟨proper, rfl⟩
  · intro diagnostic member
    rw [problems, List.mem_append, List.mem_singleton] at member
    rcases member with member | rfl
    · exact account.inside diagnostic member
    · have whole := account.whole
      simp only [Range.empty]
      omega

private theorem wrapped (account : Account size found held (placed :: ahead) told)
    (expected : Kind) :
    Account size found (held ++ [some (errorElement expected placed.token)]) ahead
      (told ++ [⟨.unexpectedToken expected placed.kind, placed.range⟩]) := by
  have read := account.read placed List.mem_cons_self
  have here := account.problems_placed
  have used := account.used
  -- The problem counts from the start of the node, which is where the token starts.
  have range : (placed.token.span 0).shift (slotsWidth held) = placed.range := by
    have fits := read.fits
    unfold Token.Fits at fits
    rw [PlacedToken.range, account.consecutive.1]
    simp only [Token.span, Range.shift, Range.mk.injEq]
    omega
  have usedProblems : slotProblems (held ++ [some (.leaf placed.token)]) 0 =
      slotProblems held 0 ++ placed.diagnostics := by
    rw [Element.slotProblems_append, Element.slotProblems_leaf, Nat.zero_add, here]
  have problems : slotProblems (held ++ [some (errorElement expected placed.token)]) 0 =
      slotProblems held 0 ++ ⟨.unexpectedToken expected placed.kind, placed.range⟩ ::
        placed.diagnostics := by
    rw [errorElement, Element.slotProblems_append, Element.slotProblems_node,
      Element.slotProblems_leaf, Nat.zero_add, here, List.map_singleton, Diagnostic.shift, range]
    rfl
  have isMissing : Diagnostic.isMissing ⟨.unexpectedToken expected placed.kind, placed.range⟩ =
      false := rfl
  refine ⟨?_, ?_, used.read, used.present, ?_, ?_, ?_, ?_, ?_, ?_⟩
  · simpa [errorElement] using used.consecutive
  · simpa [errorElement] using used.whole
  · simpa [errorElement] using used.empty
  · have same := used.same
    rw [usedProblems] at same
    rw [problems, ← List.append_assoc found]
    simp only [List.filter_append, List.filter_cons, isMissing, Bool.not_false, if_true,
      List.append_assoc, List.cons_append, List.filter_nil] at same ⊢
    refine List.perm_middle.trans ((List.Perm.cons _ same).trans ?_)
    rw [← List.append_assoc]
    exact (List.perm_append_singleton _ _).symm
  · have kept := used.kept
    rw [usedProblems] at kept
    rw [problems]
    simpa [isMissing, errorElement] using kept
  · simpa [isMissing, errorElement] using used.reported
  · intro element member
    rcases List.mem_append.mp member with member | member
    · exact account.marked element member
    · rw [List.mem_singleton, Option.some.injEq] at member
      rw [member]
      refine .node ?_ ?_
      · simp only [Element.Marked, if_true]
        exact ⟨expected, placed.token, read.present, read.fits, rfl, rfl⟩
      · simp only [List.mem_singleton, forall_eq, Option.some.injEq]
        rintro _ rfl
        exact .leaf read.marked
  · intro diagnostic member
    rw [problems, List.mem_append, List.mem_cons] at member
    rcases member with member | rfl | member
    · exact account.inside diagnostic member
    · have whole := used.whole
      simp only [PlacedToken.range, Token.span, account.consecutive.1, Element.slotsWidth_append,
        Element.slotsWidth_leaf] at whole ⊢
      omega
    · exact read.inside diagnostic member

private theorem left (account : Account size found held ahead told) :
    Account size found (held ++ [none]) ahead told := by
  refine ⟨?_, ?_, account.read, account.present, ?_, ?_, ?_, ?_, ?_, ?_⟩
  · simpa [slotsWidth_eq] using account.consecutive
  · simpa [slotsWidth_eq] using account.whole
  · simpa using account.empty
  · simpa [slotProblems] using account.same
  · simpa [slotProblems] using account.kept
  · simpa using account.reported
  · simpa using account.marked
  · simpa [slotProblems] using account.inside

private theorem joined {slots : Row} (account : Account size found (held ++ slots) ahead told)
    {kind : Kind}
    (plain : kind ≠ .error) :
    Account size found (held ++ [some (.node kind slots [])]) ahead told := by
  refine ⟨?_, ?_, account.read, account.present, ?_, ?_, ?_, ?_, ?_, ?_⟩
  · simpa using account.consecutive
  · simpa using account.whole
  · simpa using account.empty
  · simpa using account.same
  · simpa using account.kept
  · simpa using account.reported
  · intro element member
    rcases List.mem_append.mp member with member | member
    · exact account.marked element (List.mem_append_left _ member)
    · rw [List.mem_singleton, Option.some.injEq] at member
      rw [member]
      refine .node (by simp [Element.Marked, plain]) fun slot here child filled => ?_
      exact account.marked child (by rw [← filled]; exact List.mem_append_right _ here)
  · simpa using account.inside

end Account

def State.toCome (s : State) : List PlacedToken := s.rest ++ [s.eof]

theorem State.toCome_eq_cons (s : State) : ∃ later, s.toCome = s.current :: later := by
  unfold toCome current
  cases s.rest with
  | nil => exact ⟨[], rfl⟩
  | cons placed rest => exact ⟨rest ++ [s.eof], rfl⟩

private theorem Account.of_tandem {size : Nat} {found : List Diagnostic} {init init' s s' : State}
    {held held' : Row} (account : Account size found [] init.toCome init.diagnostics)
    (tandem : Tandem init init' held s held' s') :
    Account size found held s.toCome s.diagnostics := by
  induction tandem with
  | start alike => exact account
  | use before ahead _ ih =>
    rw [State.toCome, ahead] at ih
    exact ih.used
  | @lack _ _ s _ kind proper before ih =>
    obtain ⟨later, toCome⟩ := s.toCome_eq_cons
    have whole : (s.afterReport
        ⟨.missingToken kind, Range.empty s.current.range.start⟩).toCome = s.toCome := rfl
    rw [whole, toCome]
    rw [toCome] at ih
    exact ih.lacked proper
  | wrap expected before ahead _ ih =>
    rw [State.toCome, ahead] at ih
    exact ih.wrapped expected
  | leave before ih => exact ih.left
  | join kind plain same before ih => exact ih.joined (Kind.ne_error_of_isPlain plain)
  | link before ahead links same after _ ih => exact ih.joined links.ne_error

private theorem script_account {text : List Char} {stream : TokenStream}
    (lexed : tokenize text = .ok stream) (inside : Bool) (depth : Nat) :
    Gives (scriptStatements inside depth) (.ofStream stream) fun statements t =>
      Account (Text.byteSize text) stream.diagnostics
        [some (.file (statements.map some) stream.eof.token)] [] t.diagnostics := by
  obtain ⟨texts, ends, kinds, present⟩ := Lexer.tokens_ok lexed
  obtain ⟨consecutive, problems⟩ := Lexer.tokens_consecutive lexed
  have read : ∀ placed ∈ stream.toList, placed.IsRead (Text.byteSize text) := by
    intro placed member
    refine ⟨present placed member, Lexer.tokens_fit lexed placed member,
      (problems placed member).1, fun diagnostic here => ?_⟩
    have inside := (problems placed member).2 diagnostic here
    rwa [Lexer.start, Position.start, Nat.zero_add] at inside
  have start : Account (Text.byteSize text) stream.diagnostics [] stream.toList [] :=
    Account.start consecutive (by rw [texts]; rfl) read
  intro statements t yields
  have after := (scriptStatements_agrees inside depth (.refl ends)).gives statements t yields
  have done : t.rest = [] := script_finishes ends kinds statements t yields
  have moves : (State.ofStream stream).Moves t := Forward.moves _ statements t yields
  have account := Account.of_tandem start after.2
  rw [State.toCome, done, moves.eof] at account
  have listed : Account _ _ ([] ++ [some (.node .list (statements.map some) [])]) _ _ :=
    account.joined (by decide)
  have closed : Account _ _ ([] ++ [some (.node .list (statements.map some) []),
      some (.leaf stream.eof.token)]) [] _ := listed.used
  have plain : Kind.file ≠ .error := by decide
  exact closed.joined plain

end Grammar

private theorem Diagnostic.insertByStart_perm (diagnostic : Diagnostic)
    (diagnostics : List Diagnostic) :
    (insertByStart diagnostic diagnostics).Perm (diagnostic :: diagnostics) := by
  induction diagnostics with
  | nil => exact .refl _
  | cons first rest ih =>
    rw [insertByStart]
    split
    · exact .refl _
    · exact (ih.cons first).trans (.swap diagnostic first rest)

theorem Diagnostic.sortByStart_perm (diagnostics : List Diagnostic) :
    (sortByStart diagnostics).Perm diagnostics := by
  induction diagnostics with
  | nil => exact .refl _
  | cons diagnostic rest ih => exact (insertByStart_perm _ _).trans (ih.cons diagnostic)

/-- What is kept at a place of a tree, with absolute ranges. -/
structure Located.Marked (place : Located) : Prop where
  /-- A missing token keeps one problem, that it is missing. -/
  missing : ∀ token, place.element = .leaf token → token.isMissing = true →
    place.attached = [⟨.missingToken token.kind, Range.empty place.offset⟩]
  /-- A bad token keeps one problem, its symbol. -/
  bad : ∀ token, place.element = .leaf token → token.kind = .badToken →
    ∃ c, token.trimmed? = some [c] ∧
      place.attached = [⟨.unknownSymbol c, token.span place.offset⟩]
  /-- Any other token keeps no problem of these sorts. -/
  lexical : ∀ token, place.element = .leaf token → token.isMissing = false →
    token.kind ≠ .badToken → ∀ diagnostic ∈ place.attached, diagnostic.problem.isLexical = true
  /-- An error node holds one token and keeps one problem, that of the token. -/
  error : place.isNode = true → place.kind = .error →
    ∃ expected token inner, place.children = [inner] ∧ inner.element = .leaf token ∧
      token.isMissing = false ∧
      place.attached = [⟨.unexpectedToken expected token.kind, token.span inner.offset⟩]
  /-- Any other node keeps none. -/
  node : place.isNode = true → place.kind ≠ .error → place.attached = []

/-- A token that the text has and that is as it should be, or a node that is no error node. -/
def Located.Sound (place : Located) : Prop :=
  (∀ token, place.element = .leaf token → token.isMissing = false ∧ token.diagnostics = []) ∧
    (place.isNode = true → place.kind ≠ .error)

private theorem Token.Fits.span_shift {token : Token} (fits : token.Fits) (offset : Nat) :
    (token.span 0).shift offset = token.span offset := by
  unfold Fits at fits
  simp only [span, Range.shift, Range.mk.injEq]
  omega

private theorem Located.marked_of_element {place : Located} (marked : place.element.Marked) :
    place.Marked := by
  obtain ⟨element, offset, trail⟩ := place
  have leaf {token : Token} (marked : (Element.leaf token).Marked) :
      Located.Marked ⟨.leaf token, offset, trail⟩ := by
    cases missing : token.isMissing with
    | true =>
      simp only [Element.Marked, Token.Marked, missing, if_true] at marked
      constructor
      case missing =>
        rintro _ ⟨⟩ -
        simp [attached, Element.diagnostics, marked.2, Diagnostic.shift, Range.shift, Range.empty]
      case bad =>
        rintro _ ⟨⟩ bad
        exact absurd bad marked.1
      case lexical =>
        rintro _ ⟨⟩ present
        rw [missing] at present
        exact absurd present.symm Bool.false_ne_true
      case error => simp [isNode, Element.isNode]
      case node => simp [isNode, Element.isNode]
    | false =>
      simp only [Element.Marked, Token.Marked, missing, Bool.false_eq_true, if_false] at marked
      constructor
      case missing =>
        rintro _ ⟨⟩ absent
        rw [missing] at absent
        exact absurd absent Bool.false_ne_true
      case bad =>
        rintro _ ⟨⟩ bad
        obtain ⟨c, spelled, only⟩ := marked.2.bad bad
        refine ⟨c, spelled, ?_⟩
        simp [attached, Element.diagnostics, only, Diagnostic.shift, marked.1.span_shift]
      case lexical =>
        rintro _ ⟨⟩ - good diagnostic member
        obtain ⟨own, here, rfl⟩ := List.mem_map.mp member
        exact marked.2.other good own here
      case error => simp [isNode, Element.isNode]
      case node => simp [isNode, Element.isNode]
  cases element with
  | leaf token => exact leaf marked
  | node kind slots diagnostics =>
    simp only [Element.Marked] at marked
    constructor
    case missing => rintro _ ⟨⟩
    case bad => rintro _ ⟨⟩
    case lexical => rintro _ ⟨⟩
    case error =>
      rintro - isError
      rw [if_pos (show kind = .error from isError)] at marked
      obtain ⟨expected, token, present, fits, rfl, rfl⟩ := marked
      refine ⟨expected, token, _, rfl, rfl, present, ?_⟩
      simp [attached, Element.diagnostics, Diagnostic.shift, fits.span_shift, Element.slotOffset,
        Element.slotsWidth]
    case node =>
      rintro - plain
      rw [if_neg (show kind ≠ .error from plain)] at marked
      simp [attached, Element.diagnostics, marked]

private theorem Located.Marked.attached_eq_nil_iff {place : Located} (marked : place.Marked) :
    place.attached = [] ↔ place.Sound := by
  constructor
  · intro nothing
    refine ⟨fun token here => ?_, fun isNode isError => ?_⟩
    · have none : token.diagnostics = [] := by
        simpa [attached, here, Element.diagnostics] using nothing
      refine ⟨?_, none⟩
      cases missing : token.isMissing with
      | false => rfl
      | true => simp [marked.missing token here missing] at nothing
    · obtain ⟨expected, token, inner, -, -, -, kept⟩ := marked.error isNode isError
      simp [kept] at nothing
  · rintro ⟨tokens, nodes⟩
    cases isNode : place.isNode with
    | true => exact marked.node isNode (nodes isNode)
    | false =>
      cases here : place.element with
      | leaf token => simp [attached, here, Element.diagnostics, (tokens token here).2]
      | node kind slots diagnostics => simp [Located.isNode, here, Element.isNode] at isNode

/-- Where offsets stay in bounds the problems of a place have absolute ranges. -/
theorem Located.diagnostics?_eq {place : Located}
    (inside : ∀ diagnostic ∈ place.attached, diagnostic.range.stop ≤ Diagnostic.offsetLimit) :
    place.diagnostics? = some place.attached := by
  unfold diagnostics? attached at *
  generalize place.element.diagnostics = diagnostics at inside ⊢
  induction diagnostics with
  | nil => rfl
  | cons diagnostic rest ih =>
    rw [List.map_cons, List.forall_mem_cons] at inside
    have here : diagnostic.shift? place.offset = some (diagnostic.shift place.offset) := by
      rw [Diagnostic.shift?, if_pos]
      exact inside.1
    simp [here, ih inside.2]

namespace Tree

variable {text : List Char} {options : Options} {name : Option String} {tree : Tree}

private theorem parse_account (parsed : Tree.parse text options name = .ok tree) :
    ∃ found told, tree.diagnostics = Diagnostic.sortByStart (found ++ told) ∧
      Grammar.Account (Text.byteSize text) found [some tree.root] [] told := by
  cases lexed : tokenize text with
  | error failure =>
    rw [parse_of_failure lexed] at parsed
    cases parsed
  | ok stream =>
    rw [parse_of_tokens lexed] at parsed
    cases read : Grammar.outcome (Grammar.scriptStatements options.insideBrackets
        (stream.tokens.length + 1)) (.ofStream stream) with
    | error failure => simp [read, Except.map] at parsed
    | ok result =>
      simp only [read, Except.map, Except.ok.injEq] at parsed
      rw [← parsed]
      exact ⟨_, _, rfl, Grammar.script_account lexed _ _ result.1 result.2 read⟩

/-- The problems kept in a tree, and those told of missing tokens, by the account of its script. -/
theorem parse_problems (parsed : Tree.parse text options name = .ok tree) :
    (tree.root.attached.filter (!·.isMissing)).Perm (tree.diagnostics.filter (!·.isMissing)) ∧
    tree.root.attached.filter (·.isMissing) = tree.root.lacks.map Lack.mark ∧
    (tree.diagnostics.filter (·.isMissing)).Perm (tree.root.lacks.map Lack.report) := by
  obtain ⟨found, told, list, account⟩ := parse_account parsed
  have sorted : tree.diagnostics.Perm (found ++ told) := by
    rw [list]
    exact Diagnostic.sortByStart_perm _
  have lacks : Token.lacks 0 (Element.slotTokens [some tree.root] ++ [].map PlacedToken.token) =
      tree.root.lacks := by
    simp [Element.lacks]
  have same := account.same
  have kept := account.kept
  have reported := account.reported
  rw [List.flatMap_nil, List.append_nil, ← Element.attached_eq] at same
  rw [lacks, ← Element.attached_eq] at kept
  rw [lacks] at reported
  refine ⟨same.trans (sorted.symm.filter _), kept, ?_⟩
  have none : found.filter (·.isMissing) = [] := by
    rw [List.filter_eq_nil_iff]
    intro diagnostic member
    rw [account.present diagnostic member]
    exact Bool.false_ne_true
  rw [← reported]
  simpa [none] using sorted.filter (·.isMissing)

private theorem parse_marked (parsed : Tree.parse text options name = .ok tree) {place : Located}
    (member : place ∈ (Located.root tree.root).preorder) :
    place.Marked ∧ ∀ diagnostic ∈ place.attached, diagnostic.range.stop ≤ Text.byteSize text := by
  obtain ⟨found, told, -, account⟩ := parse_account parsed
  have everywhere := account.marked tree.root List.mem_cons_self
  have marked := (Located.everywhere_of_mem_preorder everywhere member).here
  refine ⟨Located.marked_of_element marked, fun diagnostic here => ?_⟩
  have kept : diagnostic ∈ tree.root.attached := List.mem_flatMap.mpr ⟨place, member, here⟩
  rw [Element.attached_eq] at kept
  exact account.inside diagnostic kept

/-- The list of a tree and the tree itself tell the same problems: at the same places, missing
tokens left aside, and of missing tokens the same kinds. Each problem is kept on the element it
concerns, and the list is empty just where every element is sound. -/
theorem parse_tells (parsed : Tree.parse text options name = .ok tree) :
    (tree.root.attached.filter (!·.isMissing)).Perm (tree.diagnostics.filter (!·.isMissing)) ∧
    ((tree.root.attached.filter (·.isMissing)).map Diagnostic.problem).Perm
      ((tree.diagnostics.filter (·.isMissing)).map Diagnostic.problem) ∧
    (∀ place ∈ (Located.root tree.root).preorder, place.Marked ∧
      (Text.byteSize text ≤ Diagnostic.offsetLimit → place.diagnostics? = some place.attached)) ∧
    (tree.diagnostics = [] ↔ ∀ place ∈ (Located.root tree.root).preorder, place.Sound) := by
  obtain ⟨others, kept, reported⟩ := parse_problems parsed
  have missing : ((tree.root.attached.filter (·.isMissing)).map Diagnostic.problem).Perm
      ((tree.diagnostics.filter (·.isMissing)).map Diagnostic.problem) := by
    have reported := (reported.map Diagnostic.problem).symm
    rw [List.map_map] at reported
    rw [kept, List.map_map]
    exact reported
  refine ⟨others, missing, fun place member => ?_, ?_⟩
  · obtain ⟨marked, inside⟩ := parse_marked parsed member
    exact ⟨marked, fun bound => Located.diagnostics?_eq fun diagnostic here =>
      Nat.le_trans (inside diagnostic here) bound⟩
  · -- Both collections have as many problems of each of the two sorts.
    have nothing : tree.diagnostics = [] ↔ tree.root.attached = [] := by
      have others := others.length_eq
      have missing := missing.length_eq
      rw [List.length_map, List.length_map] at missing
      have all (diagnostics : List Diagnostic) := diagnostics.length_eq_length_filter_add
        (fun diagnostic => diagnostic.isMissing)
      rw [← List.length_eq_zero_iff, ← List.length_eq_zero_iff, all tree.diagnostics,
        all tree.root.attached, others, missing]
    rw [nothing, Element.attached, List.flatMap_eq_nil_iff]
    exact forall₂_congr fun place member => (parse_marked parsed member).1.attached_eq_nil_iff

/-- A symbol the language does not have stands where a statement should, an operand is missing, and
a string is not closed. -/
theorem parse_tells_each :
    ∃ tree, Tree.parse "x = ;\n$\n'a".toList {} none = .ok tree ∧
      tree.diagnostics.map Diagnostic.problem = [.missingToken .identifier, .unknownSymbol '$',
        .unexpectedToken .identifier .badToken, .unterminatedStringLiteral] ∧
      (tree.root.attached.filter (!·.isMissing)).Perm
        (tree.diagnostics.filter (!·.isMissing)) := by
  have told : (Tree.parse "x = ;\n$\n'a".toList {} none).toOption.any (fun tree =>
      tree.diagnostics.map Diagnostic.problem == [.missingToken .identifier, .unknownSymbol '$',
        .unexpectedToken .identifier .badToken, .unterminatedStringLiteral]) = true := by
    decide +kernel
  obtain ⟨tree, parsed, told⟩ := exists_ok_of_any told
  exact ⟨tree, parsed, beq_iff_eq.mp told, (parse_tells parsed).1⟩

/-- A missing token is kept in front of the trivia of the next token, and told behind it. The two
agree just where no trivia comes between. -/
theorem parse_tells_missing (parsed : Tree.parse text options name = .ok tree) :
    tree.root.attached.filter (·.isMissing) = tree.root.lacks.map Lack.mark ∧
    (tree.diagnostics.filter (·.isMissing)).Perm (tree.root.lacks.map Lack.report) ∧
    ((tree.root.attached.filter (·.isMissing)).Perm (tree.diagnostics.filter (·.isMissing)) ↔
      ∀ lack ∈ tree.root.lacks, lack.next = lack.place) := by
  obtain ⟨-, kept, reported⟩ := parse_problems parsed
  refine ⟨kept, reported, ?_⟩
  rw [kept]
  constructor
  · -- No token is told in front of its place, so if the places agree in all they agree one by one.
    intro same
    have starts := ((same.trans reported).map fun diagnostic => diagnostic.range.start).sum_eq
    rw [List.map_map, List.map_map] at starts
    by_contra differs
    push Not at differs
    obtain ⟨lack, member, differs⟩ := differs
    have before := Token.place_le_next lack member
    have less : lack.place < lack.next := by omega
    exact Nat.ne_of_lt (List.sum_lt_sum _ _ Token.place_le_next ⟨lack, member, less⟩) starts
  · intro same
    have equal : tree.root.lacks.map Lack.mark = tree.root.lacks.map Lack.report := by
      refine List.map_congr_left fun lack member => ?_
      rw [Lack.mark, Lack.report, same lack member]
    rw [equal]
    exact reported.symm

/-- The operand missing at the end of a line stands before the spaces of the next line, and is told
behind them. -/
theorem parse_tells_missing_spaces :
    ∃ tree, Tree.parse "x =\n  ".toList {} none = .ok tree ∧
      tree.root.lacks = [⟨.identifier, 4, 6⟩] ∧
      tree.root.attached.filter (·.isMissing) = [⟨.missingToken .identifier, ⟨4, 4⟩⟩] := by
  have lacks : (Tree.parse "x =\n  ".toList {} none).toOption.any (fun tree =>
      tree.root.lacks == [⟨.identifier, 4, 6⟩]) = true := by
    decide +kernel
  obtain ⟨tree, parsed, lacks⟩ := exists_ok_of_any lacks
  rw [beq_iff_eq] at lacks
  refine ⟨tree, parsed, lacks, ?_⟩
  rw [(parse_tells_missing parsed).1, lacks]
  rfl

/-- So a missing token is not told at its place in every tree. -/
theorem not_told_in_place :
    ¬ ∀ (text : List Char) (options : Options) (name : Option String) (tree : Tree),
      Tree.parse text options name = .ok tree →
        (tree.root.attached.filter (·.isMissing)).Perm
          (tree.diagnostics.filter (·.isMissing)) := by
  intro inPlace
  have apart : (Tree.parse "x =\n  ".toList {} none).toOption.any (fun tree =>
      !decide ((tree.root.attached.filter (·.isMissing)).Perm
        (tree.diagnostics.filter (·.isMissing)))) = true := by
    decide +kernel
  obtain ⟨tree, parsed, apart⟩ := exists_ok_of_any apart
  simp only [Bool.not_eq_true', decide_eq_false_iff_not] at apart
  exact apart (inPlace _ _ _ tree parsed)

end Tree

end MatrixScript
