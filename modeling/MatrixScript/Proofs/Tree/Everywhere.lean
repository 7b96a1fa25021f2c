import MatrixScript.Tree.Located

/-!
What holds of an element and of all below it.

`Element.Everywhere` follows the slots of an element, and `Located.preorder` meets the same
elements at their places, so what holds everywhere in a tree holds at every place of it.
-/

set_option autoImplicit false

namespace MatrixScript

/-- A condition holds of an element and of every element below it. -/
inductive Element.Everywhere (holds : Element → Prop) : Element → Prop
  | leaf {token : Token} (here : holds (.leaf token)) : Everywhere holds (.leaf token)
  | node {kind : Kind} {slots : List (Option Element)} {diagnostics : List Diagnostic}
      (here : holds (.node kind slots diagnostics))
      (below : ∀ slot ∈ slots, ∀ element, slot = some element → Everywhere holds element) :
      Everywhere holds (.node kind slots diagnostics)

namespace Element.Everywhere

variable {holds : Element → Prop}

theorem here {element : Element} (everywhere : Everywhere holds element) : holds element := by
  cases everywhere with
  | leaf here => exact here
  | node here _ => exact here

theorem slot {element child : Element} (everywhere : Everywhere holds element) {index : Nat}
    (found : element.slot? index = some child) : Everywhere holds child := by
  cases everywhere with
  | leaf _ => simp [slot?, slots] at found
  | node _ below =>
    rw [slot?, Option.join_eq_some_iff] at found
    exact below _ (List.mem_of_getElem? found) child rfl

end Element.Everywhere

namespace Located

private theorem mem_preorderSlots {parent : Element} {start : Nat} {trail : List Crumb}
    {slots : List (Option Element)} {index offset : Nat} {place : Located}
    (member : place ∈ preorderSlots parent start trail slots index offset) :
    ∃ element, some element ∈ slots ∧
      ∃ offset trail, place ∈ preorderAt element offset trail := by
  induction slots generalizing index offset with
  | nil => simp [preorderSlots] at member
  | cons slot slots ih =>
    cases slot with
    | none =>
      rw [preorderSlots] at member
      obtain ⟨element, later, found⟩ := ih member
      exact ⟨element, List.mem_cons_of_mem _ later, found⟩
    | some first =>
      rw [preorderSlots, List.mem_append] at member
      rcases member with member | member
      · exact ⟨first, List.mem_cons_self, _, _, member⟩
      · obtain ⟨element, later, found⟩ := ih member
        exact ⟨element, List.mem_cons_of_mem _ later, found⟩

private theorem everywhere_of_mem_preorderAt {holds : Element → Prop} {element : Element}
    (everywhere : element.Everywhere holds) {offset : Nat} {trail : List Crumb} {place : Located}
    (member : place ∈ preorderAt element offset trail) : place.element.Everywhere holds := by
  induction everywhere generalizing offset trail with
  | @leaf token here =>
    rw [preorderAt, List.mem_singleton] at member
    rw [member]
    exact .leaf here
  | @node kind slots diagnostics here below ih =>
    rw [preorderAt, List.mem_cons] at member
    rcases member with rfl | member
    · exact .node here below
    · obtain ⟨child, slot, _, _, found⟩ := mem_preorderSlots member
      exact ih _ slot child rfl found

/-- What holds everywhere in a tree holds everywhere from each of its places. -/
theorem everywhere_of_mem_preorder {holds : Element → Prop} {root : Element}
    (everywhere : root.Everywhere holds) {place : Located}
    (member : place ∈ (Located.root root).preorder) : place.element.Everywhere holds :=
  everywhere_of_mem_preorderAt everywhere member

end Located

end MatrixScript
