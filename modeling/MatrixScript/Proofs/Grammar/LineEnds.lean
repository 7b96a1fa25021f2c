import MatrixScript.Proofs.Grammar.BlockTandem
import MatrixScript.Proofs.Grammar.Composition
import MatrixScript.Proofs.Lexer.Respacing

/-!
Trees of a text whose line breaks are written in two ways.

A parser cannot tell tokens apart that differ only in how their line breaks are written. So its runs
on the two texts go in tandem, and the trees have one shape: the same nodes, empty slots and missing
tokens, and tokens with the same significant parts.
-/

set_option autoImplicit false

namespace MatrixScript

open Text (crlf)

private theorem Token.Respaced.alike {token token' : Token} (respaced : token.Respaced token') :
    token.Alike token' where
  kind := respaced.kind
  trimmed := respaced.trimmed
  value := respaced.value
  isMissing := respaced.isMissing
  endsLine := respaced.endsLine
  trailing := by
    rw [← @List.isEmpty_map _ _ token'.trailing Piece.kind, respaced.trailing, List.isEmpty_map]

namespace TokenStream.Respaced

variable {stream stream' : TokenStream}

private theorem toList (respaced : stream.Respaced stream') :
    List.Forall₂ (fun placed placed' => placed.token.Respaced placed'.token)
      stream.toList stream'.toList :=
  List.rel_append respaced.tokens (.cons respaced.eof .nil)

private theorem problems (respaced : stream.Respaced stream') :
    stream'.diagnostics.map Diagnostic.problem =
      stream.diagnostics.map (Problem.crlf ·.problem) := by
  have own (placed : PlacedToken) :
      placed.diagnostics.map Diagnostic.problem =
        placed.token.diagnostics.map Diagnostic.problem := by
    rw [PlacedToken.diagnostics, List.map_map]
    rfl
  have tokens := respaced.toList
  unfold diagnostics
  generalize stream.toList = placed, stream'.toList = placed' at tokens ⊢
  induction tokens with
  | nil => rfl
  | @cons placed placed' rest rest' same _ ih =>
    simp only [List.flatMap_cons, List.map_append, ih, own, same.problems]
    simp only [PlacedToken.diagnostics, List.map_map]
    rfl

private theorem alike (respaced : stream.Respaced stream') (ends : stream.eof.kind = .eof) :
    (Grammar.State.ofStream stream).Alike (.ofStream stream') where
  previous := .none
  rest := respaced.tokens.imp fun _ _ same => same.alike
  eof := respaced.eof.alike
  ends := ends

end TokenStream.Respaced

private theorem Grammar.Agrees.concur {m : Type → Type} [Monad m] [MonadStateOf State m] [Outcome m]
    {α : Type} {f f' : m α} {s s' : State} {post : α → α → State → State → Prop}
    (agrees : Agrees f f' s s' post) :
    Concur (fun found found' => post found.1 found'.1 found.2 found'.2)
      (outcome f s) (outcome f' s') := by
  unfold Agrees at agrees
  cases left : outcome f s <;> cases right : outcome f' s' <;> simp only [left, right] at agrees
  · exact .error agrees
  · exact .ok agrees

namespace Tree

private theorem parse_respaced {text text' : List Char} {stream stream' : TokenStream}
    (lexed : tokenize text = .ok stream) (lexed' : tokenize text' = .ok stream')
    (respaced : stream.Respaced stream') (options : Options) (name : Option String) :
    Concur (fun tree tree' => tree'.root.bare = tree.root.bare)
      (Tree.parse text options name) (Tree.parse text' options name) := by
  obtain ⟨-, ends, -⟩ := Lexer.tokens_ok lexed
  have agrees := Grammar.scriptStatements_agrees options.insideBrackets (stream.tokens.length + 1)
    (respaced.alike ends)
  rw [parse_of_tokens lexed, parse_of_tokens lexed', ← respaced.tokens.length_eq]
  refine agrees.concur.map fun {found found'} statements => ?_
  have same := statements.2.bare_eq
  simp only [List.nil_append] at same
  simp only [make, Element.file, Element.bare_node, Element.bare_leaf, respaced.eof.alike.bare,
    List.map_cons, Option.map_some, same]

/-- A text without carriage returns has the same tokens and a tree of the same shape with either
kind of line break, or fails either way for the same reason. -/
theorem parse_crlf {text : List Char} (plain : '\r' ∉ text) :
    Concur (fun stream stream' =>
        List.Forall₂ (fun placed placed' => placed.token.Respaced placed'.token)
          stream.toList stream'.toList ∧
        stream'.diagnostics.map Diagnostic.problem =
          stream.diagnostics.map (Problem.crlf ·.problem))
      (tokenize text) (tokenize (crlf text)) ∧
    ∀ (options : Options) (name : Option String),
      Concur (fun tree tree' => tree'.root.bare = tree.root.bare)
        (Tree.parse text options name) (Tree.parse (crlf text) options name) := by
  have tokens := tokenize_respaced plain
  refine ⟨?_, fun options name => ?_⟩
  · exact tokens.mono fun respaced => ⟨respaced.toList, respaced.problems⟩
  · cases lexed : tokenize text with
    | ok stream =>
      obtain ⟨stream', lexed', respaced⟩ := tokens.of_ok lexed
      exact parse_respaced lexed lexed' respaced options name
    | error failure =>
      obtain ⟨failure', fails, same⟩ := tokens.of_error lexed
      rw [parse_of_failure lexed, parse_of_failure fails]
      exact .error same

/-- A block comment, a continuation and a command, and a number whose exponent lacks its digits at
the end of a line. -/
theorem parse_crlf_incomplete :
    let text := "%\x7b\na\n%\x7d\nx = [1e\n2 ... b\n3];\nhold on\n".toList
    ∃ stream stream' tree tree',
      tokenize text = .ok stream ∧ tokenize (crlf text) = .ok stream' ∧
      List.Forall₂ (fun placed placed' => placed.token.Respaced placed'.token)
        stream.toList stream'.toList ∧
      stream.diagnostics.map Diagnostic.problem = [.unexpectedCharacterInNumber '\n'] ∧
      stream'.diagnostics.map Diagnostic.problem = [.unexpectedCharacterInNumber '\r'] ∧
      Tree.parse text {} none = .ok tree ∧ Tree.parse (crlf text) {} none = .ok tree' ∧
      tree'.root.bare = tree.root.bare := by
  intro text
  have plain : '\r' ∉ text := by decide
  have lexes : (tokenize text).toOption.any (fun stream =>
      decide (stream.diagnostics.map Diagnostic.problem =
        [.unexpectedCharacterInNumber '\n'])) = true := by
    decide +kernel
  have parses : (Tree.parse text {} none).toOption.any (fun _ => true) = true := by
    decide +kernel
  obtain ⟨stream, lexed, incomplete⟩ := exists_ok_of_any lexes
  obtain ⟨tree, parsed, -⟩ := exists_ok_of_any parses
  obtain ⟨tokens, trees⟩ := parse_crlf plain
  obtain ⟨stream', lexed', respaced, problems⟩ := tokens.of_ok lexed
  obtain ⟨tree', parsed', same⟩ := (trees {} none).of_ok parsed
  have named := of_decide_eq_true incomplete
  have renamed := congrArg (List.map Problem.crlf) named
  rw [List.map_map] at renamed
  exact ⟨stream, stream', tree, tree', lexed, lexed', respaced, named, problems.trans renamed,
    parsed, parsed', same⟩

end Tree

end MatrixScript
