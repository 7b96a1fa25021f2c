import MatrixScript.Proofs.Tree.Positions

/-!
The elements of a tree in the order in which they are met.

`Located.preorder` follows the slots of elements. It is a place and then the preorder of each of its
children in turn (`Located.preorder_eq`), so that what passes from children to parents holds of all
places. From the root it meets the places of the tree, each once.
-/

set_option autoImplicit false

namespace MatrixScript

namespace Located

/-- The places of a row of slots of `parent`, from slot `index` on. -/
def row (parent : Element) (start : Nat) (trail : List Crumb) :
    List (Option Element) → (index offset : Nat) → List Located
  | [], _, _ => []
  | none :: rest, index, offset => row parent start trail rest (index + 1) offset
  | some element :: rest, index, offset =>
    ⟨element, offset, ⟨parent, start, index⟩ :: trail⟩ ::
      row parent start trail rest (index + 1) (offset + element.width)

private theorem row_eq_filterMap (place : Located) (rest : List (Option Element)) (index : Nat)
    (same : place.element.slots.drop index = rest) :
    row place.element place.offset place.trail rest index
        (place.offset + place.element.slotOffset index) =
      (List.range' index rest.length).filterMap place.slot? := by
  induction rest generalizing index with
  | nil => rfl
  | cons slot rest ih =>
    have here : place.element.slots[index]? = some slot := by
      rw [← List.head?_drop, same, List.head?_cons]
    have later : place.element.slots.drop (index + 1) = rest := by
      rw [← List.tail_drop, same, List.tail_cons]
    have after := ih (index + 1) later
    rw [slotOffset_succ] at after
    rw [List.length_cons, List.range'_succ, List.filterMap_cons]
    cases slot with
    | none =>
      have empty : place.element.slot? index = none := by rw [Element.slot?, here]; rfl
      rw [empty, Option.elim_none, Nat.add_zero (place.element.slotOffset index)] at after
      rw [row, after, Located.slot?, empty, Option.map_none]
    | some element =>
      have filled : place.element.slot? index = some element := by rw [Element.slot?, here]; rfl
      rw [filled, Option.elim_some, ← Nat.add_assoc] at after
      rw [row, after, Located.slot?, filled, Option.map_some]

theorem row_slots (place : Located) :
    row place.element place.offset place.trail place.element.slots 0 place.offset =
      place.children := by
  have first : place.element.slotOffset 0 = 0 := by simp [Element.slotOffset, Element.slotsWidth]
  have whole := place.row_eq_filterMap place.element.slots 0 List.drop_zero
  rwa [first, Nat.add_zero, ← List.range_eq_range'] at whole

private theorem preorderSlots_eq_flatMap (parent : Element) (start : Nat) (trail : List Crumb)
    (slots : List (Option Element)) (index offset : Nat) :
    preorderSlots parent start trail slots index offset =
      (row parent start trail slots index offset).flatMap preorder := by
  induction slots generalizing index offset with
  | nil => rfl
  | cons slot slots ih =>
    cases slot with
    | none => rw [preorderSlots, row, ih]
    | some element => rw [preorderSlots, row, List.flatMap_cons, ih]; rfl

/-- A place is met first, and then what its children meet, from left to right. -/
theorem preorder_eq (place : Located) :
    place.preorder = place :: place.children.flatMap preorder := by
  rw [← row_slots]
  obtain ⟨element, offset, trail⟩ := place
  cases element with
  | leaf token => rfl
  | node kind slots diagnostics =>
    rw [preorder, preorderAt, preorderSlots_eq_flatMap]
    rfl

private theorem mem_children {place child : Located} :
    child ∈ place.children ↔ ∃ index, place.slot? index = some child := by
  rw [children, List.mem_filterMap]
  constructor
  · rintro ⟨index, -, found⟩
    exact ⟨index, found⟩
  · rintro ⟨index, found⟩
    obtain ⟨element, filled, -⟩ := Option.map_eq_some_iff.mp found
    rw [Element.slot?, Option.join_eq_some_iff] at filled
    exact ⟨index, List.mem_range.mpr (List.getElem?_eq_some_iff.mp filled).1, found⟩

theorem children_of_not_isNode {place : Located} (leaf : place.isNode = false) :
    place.children = [] := by
  obtain ⟨element, offset, trail⟩ := place
  cases element with
  | leaf token => rfl
  | node => cases leaf

private theorem trail_of_slot? {place child : Located} {index : Nat}
    (found : place.slot? index = some child) :
    child.trail = ⟨place.element, place.offset, index⟩ :: place.trail := by
  obtain ⟨element, -, rfl⟩ := Option.map_eq_some_iff.mp found
  rfl

private theorem trail_of_mem_children {place child : Located} (member : child ∈ place.children) :
    ∃ index, child.trail = ⟨place.element, place.offset, index⟩ :: place.trail := by
  obtain ⟨index, found⟩ := mem_children.mp member
  exact ⟨index, trail_of_slot? found⟩

theorem depth_of_mem_children {place child : Located} (member : child ∈ place.children) :
    child.depth = place.depth + 1 := by
  obtain ⟨index, trail⟩ := trail_of_mem_children member
  rw [depth, trail, List.length_cons, depth]

private theorem eq_of_mem_children {place other child : Located} (member : child ∈ place.children)
    (member' : child ∈ other.children) : place = other := by
  obtain ⟨index, trail⟩ := trail_of_mem_children member
  obtain ⟨index', trail'⟩ := trail_of_mem_children member'
  rw [trail, List.cons.injEq, Crumb.mk.injEq] at trail'
  obtain ⟨⟨element, offset, -⟩, above⟩ := trail'
  cases place
  cases other
  cases element
  cases offset
  cases above
  rfl

theorem preorder_of_not_isNode {place : Located} (leaf : place.isNode = false) :
    place.preorder = [place] := by
  rw [preorder_eq, children_of_not_isNode leaf, List.flatMap_nil]

theorem descendantTokens_of_not_isNode {place : Located} (leaf : place.isNode = false) :
    place.descendantTokens = [place] := by
  rw [descendantTokens, preorder_of_not_isNode leaf, List.filter_singleton, leaf]
  rfl

theorem descendantTokens_of_isNode {place : Located} (isNode : place.isNode = true) :
    place.descendantTokens = place.children.flatMap descendantTokens := by
  rw [descendantTokens, preorder_eq, List.filter_cons, if_neg (by simp [isNode]),
    List.filter_flatMap]
  rfl

private theorem sizeOf_lt_of_mem_children {place child : Located}
    (member : child ∈ place.children) :
    sizeOf child.element < sizeOf place.element := by
  obtain ⟨index, found⟩ := mem_children.mp member
  obtain ⟨element, filled, rfl⟩ := Option.map_eq_some_iff.mp found
  rw [Element.slot?, Option.join_eq_some_iff] at filled
  have inside := List.sizeOf_lt_of_mem (List.mem_of_getElem? filled)
  cases content : place.element with
  | leaf token => simp [content, Element.slots] at filled
  | node kind slots diagnostics =>
    simp only [content, Element.slots, Option.some.sizeOf_spec, Element.node.sizeOf_spec] at inside ⊢
    omega

@[elab_as_elim]
theorem induction {motive : Located → Prop}
    (step : ∀ place, (∀ child ∈ place.children, motive child) → motive place) (place : Located) :
    motive place :=
  step place fun child _ => induction step child
termination_by sizeOf place.element
decreasing_by exact sizeOf_lt_of_mem_children ‹_›

theorem self_mem_preorder (place : Located) : place ∈ place.preorder := by
  rw [preorder_eq]
  exact List.mem_cons_self

private theorem mem_preorder_iff {place inner : Located} :
    inner ∈ place.preorder ↔ inner = place ∨ ∃ child ∈ place.children, inner ∈ child.preorder := by
  rw [preorder_eq, List.mem_cons, List.mem_flatMap]

theorem preorder_subset_of_mem_children {place child : Located} (member : child ∈ place.children) :
    child.preorder ⊆ place.preorder :=
  fun _ met => mem_preorder_iff.mpr (Or.inr ⟨child, member, met⟩)

theorem mem_preorder_of_mem_children {place inner child : Located} (met : inner ∈ place.preorder)
    (member : child ∈ inner.children) : child ∈ place.preorder := by
  induction place using induction with
  | step place ih =>
    rw [mem_preorder_iff] at met
    rcases met with rfl | ⟨first, held, below⟩
    · exact mem_preorder_iff.mpr (Or.inr ⟨child, member, self_mem_preorder child⟩)
    · exact mem_preorder_iff.mpr (Or.inr ⟨first, held, ih first held below⟩)

theorem mem_preorder_root {root : Element} {place : Located} :
    place ∈ (Located.root root).preorder ↔ Under root place := by
  constructor
  · intro met
    have below (from' : Located) (under : Under root from') (met : place ∈ from'.preorder) :
        Under root place := by
      induction from' using induction with
      | step from' ih =>
        rcases mem_preorder_iff.mp met with rfl | ⟨child, member, met⟩
        · exact under
        · obtain ⟨index, found⟩ := mem_children.mp member
          exact ih child member (.slot under found) met
    exact below _ .root met
  · intro under
    induction under with
    | root => exact self_mem_preorder _
    | slot above found ih => exact mem_preorder_of_mem_children ih (mem_children.mpr ⟨_, found⟩)

private theorem trail_suffix_of_mem_preorder {place inner : Located}
    (met : inner ∈ place.preorder) :
    place.trail <:+ inner.trail := by
  induction place using induction with
  | step place ih =>
    rcases mem_preorder_iff.mp met with rfl | ⟨child, member, met⟩
    · exact List.suffix_rfl
    · obtain ⟨index, trail⟩ := trail_of_mem_children member
      exact (trail ▸ List.suffix_cons _ _).trans (ih child member met)

private theorem depth_le_of_mem_preorder {place inner : Located} (met : inner ∈ place.preorder) :
    place.depth ≤ inner.depth :=
  (trail_suffix_of_mem_preorder met).length_le

private theorem not_mem_preorder_of_mem_children {place child : Located}
    (member : child ∈ place.children) :
    place ∉ child.preorder := by
  intro again
  have deeper := depth_of_mem_children member
  have bound := depth_le_of_mem_preorder again
  omega

theorem preorder_antisymm {a b : Located} (right : b ∈ a.preorder) (left : a ∈ b.preorder) :
    a = b := by
  rcases mem_preorder_iff.mp right with rfl | ⟨child, member, met⟩
  · rfl
  · have deeper := depth_of_mem_children member
    have bound := depth_le_of_mem_preorder met
    have bound' := depth_le_of_mem_preorder left
    omega

theorem parent_mem_preorder {place inner child : Located} (member : child ∈ inner.children)
    (met : child ∈ place.preorder) : child = place ∨ inner ∈ place.preorder := by
  induction place using induction with
  | step place ih =>
    rcases mem_preorder_iff.mp met with rfl | ⟨first, held, met⟩
    · exact Or.inl rfl
    · refine Or.inr (mem_preorder_iff.mpr ?_)
      rcases ih first held met with rfl | met
      · exact Or.inl (eq_of_mem_children member held)
      · exact Or.inr ⟨first, held, met⟩

theorem eq_of_mem_preorder {place a b inner : Located} (left : a ∈ place.children)
    (right : b ∈ place.children) (met : inner ∈ a.preorder) (met' : inner ∈ b.preorder) :
    a = b := by
  obtain ⟨index, found⟩ := mem_children.mp left
  obtain ⟨index', found'⟩ := mem_children.mp right
  obtain ⟨trail, trail'⟩ := And.intro (trail_of_slot? found) (trail_of_slot? found')
  have suffix := List.suffix_of_suffix_length_le (trail_suffix_of_mem_preorder met)
    (trail_suffix_of_mem_preorder met') (by simp [trail, trail'])
  have same := suffix.eq_of_length (by simp [trail, trail'])
  rw [trail, trail', List.cons.injEq, Crumb.mk.injEq] at same
  rw [same.1.2.2] at found
  exact Option.some.inj (found.symm.trans found')

theorem nodup_children (place : Located) : place.children.Nodup := by
  rw [List.Nodup, children, List.pairwise_filterMap]
  refine List.pairwise_lt_range.imp fun {index index'} less a found b found' => ?_
  rintro rfl
  have same := (trail_of_slot? found).symm.trans (trail_of_slot? found')
  rw [List.cons.injEq, Crumb.mk.injEq] at same
  omega

theorem nodup_preorder (place : Located) : place.preorder.Nodup := by
  induction place using induction with
  | step place ih =>
    rw [preorder_eq, List.nodup_cons, List.nodup_flatMap]
    refine ⟨fun again => ?_, ih, place.nodup_children.imp_of_mem fun left right other => ?_⟩
    · obtain ⟨child, member, met⟩ := List.mem_flatMap.mp again
      exact not_mem_preorder_of_mem_children member met
    · exact fun inner met met' => other (eq_of_mem_preorder left right met met')

end Located

end MatrixScript
