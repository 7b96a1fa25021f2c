import MatrixScript.Proofs.Grammar.BlockBuilding
import MatrixScript.Proofs.Grammar.Operations
import MatrixScript.Proofs.Tree.Everywhere

/-!
Lists in brackets are closed.

Main statement: in the tree of any text every list in brackets has its closing bracket, and a
closing bracket is missing nowhere but at parentheses around one expression (`Tree.parse_closed`).
Inside a list the end of the text is never met.
-/

set_option autoImplicit false

namespace MatrixScript

/-- A node has the closing bracket of its list, and lacks one only as parentheses around one
expression. -/
structure Element.Shut (element : Element) : Prop where
  closed : element.isClosed = true
  lacks : element.kind.isParenthesized = true ∨
    ∀ token, some (.leaf token) ∈ element.slots → token.lacksClosing = false

/-- All nodes of an element are shut, and the element is itself no closing bracket that the text
lacks. -/
structure Element.AllShut (element : Element) : Prop where
  nodes : element.Everywhere Shut
  there : ∀ token, element = .leaf token → token.lacksClosing = false

namespace Element

private theorem Shut.closing {element : Element} (shut : element.Shut)
    (isNode : element.isNode = true)
    {index : Nat} {close : Kind} (slot : element.kind.closingSlot? = some (index, close))
    (brackets : element.kind = .functionOutputDescription → element.slot? 0 ≠ none) :
    ∃ token, element.slot? index = some (.leaf token) ∧ token.kind = close ∧
      token.isMissing = false := by
  cases element with
  | leaf token => cases isNode
  | node _ slots diagnostics =>
    have closed := shut.closed
    simp only [kind, slot?] at slot brackets ⊢
    rw [isClosed, slot, Option.all_some, Bool.or_eq_true, Bool.and_eq_true, beq_iff_eq,
      Option.isNone_iff_eq_none] at closed
    obtain ⟨results, bare⟩ | real := closed
    · exact absurd bare (brackets results)
    · rw [Option.any_eq_true] at real
      obtain ⟨last, found, real⟩ := real
      cases last with
      | node => cases real
      | leaf token =>
        rw [isReal, Bool.and_eq_true, beq_iff_eq, Bool.not_eq_true'] at real
        exact ⟨token, found, real⟩

private theorem Shut.leaf (token : Token) : (Element.leaf token).Shut :=
  ⟨rfl, Or.inr fun _ member => absurd member List.not_mem_nil⟩

private theorem AllShut.node {kind : Kind} {slots : List (Option Element)}
    {diagnostics : List Diagnostic}
    (closed : (Element.node kind slots diagnostics).isClosed = true)
    (below : ∀ slot ∈ slots, ∀ element, slot = some element → element.AllShut) :
    (Element.node kind slots diagnostics).AllShut where
  nodes := .node ⟨closed, Or.inr fun token member => (below _ member _ rfl).there token rfl⟩
    fun slot member element filled => (below slot member element filled).nodes
  there _ same := by cases same

end Element

instance : Inheritable Element.AllShut where
  leaf token _ there := ⟨.leaf (.leaf token), by rintro _ ⟨⟩; exact there⟩
  node _ _ _ _ _ closed below := .node closed below
  parenthesized kind slots around _ below := by
    have unbracketed : kind.closingSlot? = none := by
      cases kind <;> first | rfl | cases around
    refine ⟨.node ⟨Element.isClosed_of_none unbracketed, Or.inl around⟩ ?_, by rintro _ ⟨⟩⟩
    intro slot member element filled
    obtain shut | ⟨token, rfl, -⟩ := below slot member element filled
    · exact shut.nodes
    · exact .leaf (.leaf token)
  operation kind _ isOperation _ below := by
    have unbracketed : kind.closingSlot? = none := by
      cases kind <;> first | rfl | cases isOperation
    exact .node (Element.isClosed_of_none unbracketed) below

namespace Grammar

/-- The loops over the items of lists in brackets. -/
inductive ListLoop (opening close : Kind) : (List Element → Read (List Element)) → Prop
  | matrix (depth : Nat) : ListLoop opening close fun _ => matrixItem (expressionWithin depth) close
  | arguments (depth : Nat) : ListLoop opening close (argumentItem (expressionWithin depth) close)
  | names : ListLoop opening close fun _ => nameItem close
  | attributes (opens : opening = .openParenthesis) : ListLoop opening close fun _ => attributeItem

private theorem ListLoop.enlists {opening close : Kind} {item : List Element → Read (List Element)}
    (loop : ListLoop opening close item) (pair : opening.closing? = some close) :
    Enlists opening close item := by
  cases loop with
  | matrix depth => exact enlists_matrixItem _ pair
  | arguments depth => exact enlists_argumentItem _ pair
  | names => exact enlists_nameItem pair
  | attributes opens =>
    subst opens
    cases pair
    exact enlists_attributeItem

end Grammar

namespace Tree

open Grammar

variable {text : List Char} {options : Options} {name : Option String} {tree : Tree}

/-- In the tree of any text the closing bracket of every list in brackets is a token of the text,
and no closing bracket is missing but that of parentheses around one expression. Wherever a list may
start in the text, its loop stops at its closing bracket and not at the end of the text. -/
theorem parse_closed (parsed : Tree.parse text options name = .ok tree) :
    (∀ place ∈ (Located.root tree.root).descendants,
      (∀ index close, place.kind.closingSlot? = some (index, close) →
        (place.kind = .functionOutputDescription → place.element.slot? 0 ≠ none) →
        ∃ token, place.element.slot? index = some (.leaf token) ∧ token.kind = close ∧
          token.isMissing = false) ∧
      ∀ index token, place.element.slot? index = some (.leaf token) → token.isMissing = true →
        token.kind.isClosing = true →
        place.kind = .parenthesizedExpression ∨ place.kind = .indirectMemberAccessExpression) ∧
    ∃ stream, tokenize text = .ok stream ∧
      ∀ s : State, s.eof = stream.eof → s.rest <:+ stream.tokens →
        ∀ opening close item, opening.closing? = some close → ListLoop opening close item →
          s.currentKind = opening →
          Gives (advance >>= fun _ => listUntil close item) s fun _ t =>
            t.isAt close = true ∧ t.isAtEnd = false := by
  obtain ⟨stream, t, lexed, read⟩ := script_of_parse parsed
  refine ⟨fun place member => ?_, stream, lexed,
    fun s eof suffix opening close item pair loop here => ?_⟩
  · obtain ⟨met, isNode⟩ := List.mem_filter.mp member
    have shut : tree.root.AllShut := good_root _
      (fun depth inside => expressionWithin_yields _ depth inside .expression) parsed
    have here := (Located.everywhere_of_mem_preorder shut.nodes met).here
    refine ⟨fun index close slot brackets => here.closing isNode slot brackets,
      fun index token found missing closing => ?_⟩
    rcases here.lacks with around | there
    · cases kind : place.kind <;> simp_all [Located.kind, Kind.isParenthesized]
    · have slot := List.mem_of_getElem? (Option.join_eq_some_iff.mp found)
      have present := there token slot
      rw [Token.lacksClosing, missing, closing] at present
      cases present
  · have enclosed : s.Enclosed [] := (State.Enclosed.ofStream lexed).of_suffix suffix eof
    have enlists := loop.enlists pair
    have opens := (Kind.isOpening_of_closing? pair).1
    refine (enclosed.enter here opens).andThen fun token u inside => ?_
    refine (enlists.stops inside).mono fun list v stopped => ⟨stopped.1, stopped.2.not_isAtEnd⟩

/-- Parentheses in a matrix that white space ends too early, the brackets of an index, and the heads
of a class and of a method. -/
theorem parse_closed_loose :
    let text :=
      "x = [(1 2), {f(3)}{1}];\nclassdef (A) B\nmethods\nfunction [a, b] = g(c)\nend\nend\nend".toList
    ∃ tree, Tree.parse text {} none = .ok tree ∧
      tree.root.tokens.any Token.lacksClosing = true ∧
      ((Located.root tree.root).descendants.map Located.kind).filter (·.closingSlot?.isSome) =
        [.arrayLiteralExpression, .cellArrayElementAccessExpression, .cellArrayLiteralExpression,
          .functionCallExpression, .attributeList, .functionOutputDescription,
          .functionInputDescription] ∧
      ∀ place ∈ (Located.root tree.root).descendants, place.kind = .arrayLiteralExpression →
        ∃ token, place.element.slot? 2 = some (.leaf token) ∧
          token.kind = .closeSquareBracket ∧ token.isMissing = false := by
  intro text
  have read : (Tree.parse text {} none).toOption.any (fun tree =>
      tree.root.tokens.any Token.lacksClosing &&
        (((Located.root tree.root).descendants.map Located.kind).filter (·.closingSlot?.isSome) ==
          [.arrayLiteralExpression, .cellArrayElementAccessExpression, .cellArrayLiteralExpression,
            .functionCallExpression, .attributeList, .functionOutputDescription,
            .functionInputDescription])) = true := by
    decide +kernel
  obtain ⟨tree, parsed, facts⟩ := exists_ok_of_any read
  rw [Bool.and_eq_true, beq_iff_eq] at facts
  refine ⟨tree, parsed, facts.1, facts.2, fun place member kind => ?_⟩
  refine ((parse_closed parsed).1 place member).1 2 .closeSquareBracket (by rw [kind]; rfl) ?_
  rw [kind]
  rintro ⟨⟩

end Tree

end MatrixScript
