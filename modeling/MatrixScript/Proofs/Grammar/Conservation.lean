import MatrixScript.Proofs.Grammar.BlockTandem
import MatrixScript.Proofs.Lexer.Tiling
import MatrixScript.Tree

/-!
No token is lost and none is added twice.

While a text is parsed, the tokens in the elements built so far and the tokens ahead make up the
tokens of the text, tokens that are missing left aside. A script ends only where no token is ahead,
and the end of the text is the last token of its tree. So the tree has the text of the script.
-/

set_option autoImplicit false

namespace MatrixScript

namespace Element

@[simp]
theorem tokens_leaf (token : Token) : (leaf token).tokens = [token] := by
  simp [tokens]

@[simp]
theorem tokens_node (kind : Kind) (slots : List (Option Element)) (diagnostics : List Diagnostic) :
    (node kind slots diagnostics).tokens = slotTokens slots := by
  simp [tokens]

@[simp]
theorem tokens_list (children : List Element) : (list children).tokens = children.flatMap tokens :=
  tokens_ofChildren _ _

@[simp]
theorem slotTokens_nil : slotTokens [] = [] := rfl

@[simp]
theorem slotTokens_none (rest : List (Option Element)) :
    slotTokens (none :: rest) = slotTokens rest := rfl

@[simp]
theorem slotTokens_some (element : Element) (rest : List (Option Element)) :
    slotTokens (some element :: rest) = element.tokens ++ slotTokens rest := rfl

private theorem tokens_file (statements : List Element) (closing : Token) :
    (ofChildren .file [.list statements, .leaf closing]).tokens =
      slotTokens (statements.map some) ++ [closing] := by
  simp [ofChildren, list]

end Element

namespace Grammar

/-- The tokens held by elements and the tokens ahead are those of the text, and a token that the
text lacks is empty. -/
structure Ledger (stream : TokenStream) (held : List Token) (s : State) : Prop where
  conserved : held.filter (!·.isMissing) ++ s.rest.map PlacedToken.token =
    stream.tokens.map PlacedToken.token
  empty : ∀ token ∈ held, token.isMissing = true → token.text = []
  present : ∀ placed ∈ s.rest, placed.token.isMissing = false
  eof : s.eof = stream.eof
  ends : s.eof.kind = .eof

namespace Ledger

variable {stream : TokenStream} {held : List Token} {s : State}

private theorem used (ledger : Ledger stream held s) {placed : PlacedToken}
    {rest : List PlacedToken}
    (ahead : s.rest = placed :: rest) :
    Ledger stream (held ++ [placed.token]) (s.afterToken placed rest) := by
  have present := ledger.present
  have conserved := ledger.conserved
  rw [ahead, List.forall_mem_cons] at present
  rw [ahead, List.map_cons] at conserved
  refine ⟨?_, ?_, present.2, ledger.eof, ledger.ends⟩
  · simpa [present.1] using conserved
  · intro token member missing
    rcases List.mem_append.mp member with member | member
    · exact ledger.empty token member missing
    · rw [List.mem_singleton.mp member, present.1] at missing
      exact absurd missing Bool.false_ne_true

private theorem lacked (ledger : Ledger stream held s) (kind : Kind) (diagnostic : Diagnostic) :
    Ledger stream (held ++ [lackingToken kind]) (s.afterReport diagnostic) := by
  refine ⟨?_, ?_, ledger.present, ledger.eof, ledger.ends⟩
  · simpa [lackingToken, Token.missing, Token.withDiagnostics] using ledger.conserved
  · intro token member missing
    rcases List.mem_append.mp member with member | member
    · exact ledger.empty token member missing
    · rw [List.mem_singleton.mp member]
      rfl

private theorem reported (ledger : Ledger stream held s) (diagnostic : Diagnostic) :
    Ledger stream held (s.afterReport diagnostic) :=
  ⟨ledger.conserved, ledger.empty, ledger.present, ledger.eof, ledger.ends⟩

private theorem of_tandem (ends : stream.eof.kind = .eof)
    (present : ∀ placed ∈ stream.tokens, placed.token.isMissing = false) {init' s' : State}
    {held held' : Row} (tandem : Tandem (.ofStream stream) init' held s held' s') :
    Ledger stream (Element.slotTokens held) s := by
  induction tandem with
  | start alike => exact ⟨by simp [State.ofStream], by simp, present, rfl, ends⟩
  | use before ahead _ ih => simpa using ih.used ahead
  | lack kind proper before ih => simpa using ih.lacked kind _
  | wrap expected before ahead _ ih => simpa [errorElement] using (ih.reported _).used ahead
  | leave before ih => simpa using ih
  | join kind plain same before ih | link _ _ _ same before _ ih => simpa using ih

end Ledger

section

variable {stream : TokenStream}

/-- A script uses up all tokens. Its tree is what its moves have left, and the end. -/
theorem script_tandem {inside : Bool} (ends : stream.eof.kind = .eof)
    (kinds : ∀ placed ∈ stream.tokens, placed.kind ≠ .eof) :
    Gives (script inside) (.ofStream stream) fun root t =>
      ∃ statements : List Element,
        Tandem (.ofStream stream) (.ofStream stream) (statements.map some) t
          (statements.map some) t ∧ t.rest = [] ∧
        root = .ofChildren .file [.list statements, .leaf stream.eof.token] := by
  intro root u yields
  rw [outcome_script inside ends kinds] at yields
  cases read : outcome (scriptStatements inside ((State.ofStream stream).rest.length + 1))
      (.ofStream stream) with
  | error failure => simp [read, Except.map] at yields
  | ok result =>
    simp only [read, Except.map, Except.ok.injEq, Prod.mk.injEq] at yields
    obtain ⟨built, rfl⟩ := yields
    have alike : (State.ofStream stream).Alike (.ofStream stream) := .refl ends
    obtain ⟨-, moves⟩ := (scriptStatements_agrees inside _ alike).gives result.1 result.2 read
    have done : result.2.rest = [] := script_finishes ends kinds result.1 result.2 read
    exact ⟨result.1, moves, done, built.symm⟩

private theorem script_keeps {inside : Bool} (ends : stream.eof.kind = .eof)
    (kinds : ∀ placed ∈ stream.tokens, placed.kind ≠ .eof)
    (present : ∀ placed ∈ stream.toList, placed.token.isMissing = false) :
    Gives (script inside) (.ofStream stream) fun root _ =>
      root.tokens.filter (!·.isMissing) = stream.toList.map PlacedToken.token ∧
        ∀ token ∈ root.tokens, token.isMissing = true → token.text = [] := by
  refine (script_tandem ends kinds).mono fun root t facts => ?_
  obtain ⟨statements, moves, done, rfl⟩ := facts
  have ledger := Ledger.of_tandem ends
    (fun placed member => present placed (List.mem_append_left _ member)) moves
  have real := present stream.eof (List.mem_append_right _ (List.mem_singleton.mpr rfl))
  have conserved := ledger.conserved
  rw [done, List.map_nil, List.append_nil] at conserved
  rw [Element.tokens_file]
  refine ⟨?_, ?_⟩
  · simp [TokenStream.toList, conserved, real]
  · intro token member missing
    rcases List.mem_append.mp member with member | member
    · exact ledger.empty token member missing
    · rw [List.mem_singleton.mp member, real] at missing
      exact absurd missing Bool.false_ne_true

/-- A token of a text, or one that stands for a token the text lacks. -/
def Drawn (stream : TokenStream) (token : Token) : Prop :=
  token ∈ stream.toList.map PlacedToken.token ∨ ∃ kind, token = lackingToken kind

private theorem Tandem.drawn {init' s s' : State} {held held' : Row}
    (tandem : Tandem (.ofStream stream) init' held s held' s') :
    (∀ placed ∈ s.rest, placed ∈ stream.tokens) ∧
      ∀ token ∈ Element.slotTokens held, Drawn stream token := by
  induction tandem with
  | start alike => simp [State.ofStream]
  | use before ahead _ ih | wrap expected before ahead _ ih =>
    rw [ahead, List.forall_mem_cons] at ih
    obtain ⟨⟨first, later⟩, drawn⟩ := ih
    refine ⟨later, ?_⟩
    have new : Drawn stream _ :=
      Or.inl (List.mem_map_of_mem (List.mem_append_left [stream.eof] first))
    simpa [errorElement, or_imp, forall_and, new] using drawn
  | lack kind proper before ih =>
    have new : Drawn stream (lackingToken kind) := Or.inr ⟨kind, rfl⟩
    refine ⟨ih.1, ?_⟩
    simpa [or_imp, forall_and, new] using ih.2
  | leave before ih => simpa using ih
  | join kind plain same before ih | link _ _ _ same before _ ih => simpa using ih

theorem script_drawn {inside : Bool} (ends : stream.eof.kind = .eof)
    (kinds : ∀ placed ∈ stream.tokens, placed.kind ≠ .eof) :
    Gives (script inside) (.ofStream stream) fun root _ =>
      ∀ token ∈ root.tokens, Drawn stream token := by
  refine (script_tandem ends kinds).mono fun root t facts => ?_
  obtain ⟨statements, moves, -, rfl⟩ := facts
  have eof : Drawn stream stream.eof.token := Or.inl (by simp [TokenStream.toList])
  rw [Element.tokens_file, List.forall_mem_append]
  exact ⟨moves.drawn.2, by simpa using eof⟩

end

end Grammar

theorem flatMap_text_filter {tokens : List Token}
    (empty : ∀ token ∈ tokens, token.isMissing = true → token.text = []) :
    (tokens.filter (!·.isMissing)).flatMap Token.text = tokens.flatMap Token.text := by
  induction tokens with
  | nil => rfl
  | cons token tokens ih =>
    rw [List.forall_mem_cons] at empty
    cases missing : token.isMissing with
    | true => simp [missing, empty.1 missing, ih empty.2]
    | false => simp [missing, ih empty.2]

/-- A tree has all tokens of its text once and in order, and so the text itself. -/
theorem Tree.parse_conserves {text : List Char} {options : Options} {name : Option String}
    {tree : Tree} (parsed : Tree.parse text options name = .ok tree) :
    ∃ stream, tokenize text = .ok stream ∧
      tree.root.tokens.filter (!·.isMissing) = stream.toList.map PlacedToken.token ∧
      stream.eof.kind = .eof ∧ (∀ placed ∈ stream.tokens, placed.kind ≠ .eof) ∧
      (∀ token ∈ tree.root.tokens, token.isMissing = true → token.text = []) ∧
      tree.fullText = text ∧ tree.root.width = Text.byteSize text := by
  cases lexed : tokenize text with
  | error failure => simp [Tree.parse_eq, lexed, bind, Except.bind] at parsed
  | ok stream =>
    obtain ⟨texts, ends, kinds, present⟩ := Lexer.tokens_ok lexed
    cases read : Grammar.script options.insideBrackets (.ofStream stream) with
    | error failure => simp [Tree.parse_eq, lexed, bind, Except.bind, read] at parsed
    | ok result =>
      have built : tree.root = result.1 := by
        simp only [Tree.parse_eq, lexed, bind, Except.bind, read, pure, Except.pure,
          Except.ok.injEq] at parsed
        rw [← parsed]
        rfl
      obtain ⟨conserved, empty⟩ := Grammar.script_keeps ends kinds present result.1 result.2 read
      rw [← built] at conserved empty
      have whole : tree.root.fullText = text := by
        rw [Element.fullText, ← flatMap_text_filter empty, conserved, List.flatMap_map]
        exact texts
      exact ⟨stream, rfl, conserved, ends, kinds, empty, whole, by rw [Element.width_eq, whole]⟩

/-- An operand and an `end` that are missing, and a comment after the last token. -/
theorem Tree.parse_conserves_missing :
    ∃ tree, Tree.parse "y = ;\nif x\n% end".toList {} none = .ok tree ∧
      tree.root.tokens.any Token.isMissing = true ∧
      tree.fullText = "y = ;\nif x\n% end".toList := by
  have missing : (Tree.parse "y = ;\nif x\n% end".toList {} none).toOption.any
      (fun tree => tree.root.tokens.any Token.isMissing) = true := by
    decide +kernel
  obtain ⟨tree, parsed, missing⟩ := exists_ok_of_any missing
  obtain ⟨stream, -, -, -, -, -, whole, -⟩ := Tree.parse_conserves parsed
  exact ⟨tree, parsed, missing, whole⟩

end MatrixScript
