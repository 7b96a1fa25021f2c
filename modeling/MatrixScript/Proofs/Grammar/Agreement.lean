import MatrixScript.Proofs.Grammar.BlockBuilding
import MatrixScript.Proofs.Grammar.Operations
import MatrixScript.Proofs.Tree.Reading

/-!
Parsed trees follow their layouts.

Main statement: in the tree of any text every node has the slots of its kind, and reading its parts
by name finds in each slot what stands there (`Tree.parse_wellRead`).
-/

set_option autoImplicit false

namespace MatrixScript

namespace Grammar

instance : Inheritable (Element.Everywhere (·.fits = true)) where
  leaf _ significant _ := .leaf significant
  node _ _ _ _ fits _ below := .node fits below
  parenthesized _ _ _ fits below := .node fits fun slot member element filled => by
    obtain good | ⟨token, rfl, significant⟩ := below slot member element filled
    · exact good
    · exact .leaf significant
  operation _ _ _ fits below := .node fits below

private theorem expressionWithin_fits (depth : Nat) (inside : Bool) (floor : Precedence) :
    Yields depth (expressionWithin depth inside floor)
      (IsGoodExpression (Element.Everywhere (·.fits = true))) :=
  expressionWithin_yields _ depth inside floor

end Grammar

namespace Tree

/-- In the tree of any text the parts of every node are read just as its slots hold them, and every
token is a token proper. -/
theorem parse_wellRead {text : List Char} {options : Options} {name : Option String} {tree : Tree}
    (parsed : Tree.parse text options name = .ok tree) :
    (∀ place ∈ (Located.root tree.root).descendants, place.WellRead) ∧
      ∀ place ∈ (Located.root tree.root).descendantTokens,
        place.kind.isToken = true ∧ place.kind.isTrivia = false := by
  have fits : tree.root.Everywhere (·.fits = true) :=
    good_root _ (fun depth inside => Grammar.expressionWithin_fits depth inside .expression) parsed
  constructor
  · intro place member
    obtain ⟨met, isNode⟩ := List.mem_filter.mp member
    exact Located.wellRead (Located.everywhere_of_mem_preorder fits met) isNode
  · intro place member
    obtain ⟨met, isToken⟩ := List.mem_filter.mp member
    have here := (Located.everywhere_of_mem_preorder fits met).here
    cases element : place.element with
    | leaf token =>
      rw [element] at here
      have significant := Bool.and_eq_true_iff.mp here
      rw [Located.kind, element]
      exact ⟨significant.1, (Bool.not_eq_true' _).mp significant.2⟩
    | node kind slots diagnostics => simp [Located.isNode, element, Element.isNode] at isToken

/-- A class with an attribute that has a value and an enumerator that has none, and a switch with an
operator where a case should be and a branch without label. -/
theorem parse_wellRead_switch :
    ∃ tree, Tree.parse
        "classdef (B = 1) A\nenumeration\nX\nend\nend\nswitch x\n+\notherwise\nclc all\nend".toList
        {} none = .ok tree ∧
      (∀ place ∈ (Located.root tree.root).descendants, place.WellRead) ∧
      (Located.root tree.root).descendants.any (fun place =>
        place.kind == .switchCase && (place.parts.lookup "label").any (!·.isFound)) = true := by
  have read : (Tree.parse
        "classdef (B = 1) A\nenumeration\nX\nend\nend\nswitch x\n+\notherwise\nclc all\nend".toList
        {} none).toOption.any (fun tree =>
      (Located.root tree.root).descendants.any fun place =>
        place.kind == .switchCase && (place.parts.lookup "label").any (!·.isFound)) = true := by
    decide +kernel
  obtain ⟨tree, parsed, branch⟩ := exists_ok_of_any read
  exact ⟨tree, parsed, (parse_wellRead parsed).1, branch⟩

end Tree

end MatrixScript
