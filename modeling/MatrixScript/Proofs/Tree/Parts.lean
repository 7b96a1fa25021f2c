import MatrixScript.Proofs.Tree.Reading

/-!
Saying what the parts of a node are.

`HasNode`, `HasToken`, `HasList` and `HasTokens` each name a part and say what reading it finds. One
lemma for each of them goes from the slots of an element to the part.
-/

set_option autoImplicit false

namespace MatrixScript

theorem Element.text?_leaf {token : Token} {text : List Char} (trimmed : token.trimmed? = some text)
    (visible : token.leadingWidth < token.width - token.trailingWidth) :
    (Element.leaf token).text? = some text := by
  have wide : token.width ≠ 0 := by omega
  have only : (Element.leaf token).tokens = [token] := by simp [Element.tokens]
  have first : (Element.leaf token).leadingWidth = token.leadingWidth := by
    simp [leadingWidth, firstToken?, wide]
  have last : (Element.leaf token).trailingWidth = token.trailingWidth := by
    simp [trailingWidth, lastToken?, wide]
  have whole : (Element.leaf token).fullText = token.text := by simp [fullText, only]
  have stop : max token.leadingWidth (token.width - token.trailingWidth) =
      token.width - token.trailingWidth := by omega
  rw [text?, span, first, last, whole, Element.width, Nat.zero_add, Nat.zero_add, stop]
  exact trimmed

namespace Located

def part? (place : Located) (name : String) : Option Part := place.parts.lookup name

def HasNode (place : Located) (name : String) (holds : Located → Prop) : Prop :=
  ∃ node, place.part? name = some (.child (some node)) ∧ holds node

def HasToken (place : Located) (name : String) (text : List Char) : Prop :=
  ∃ token, place.part? name = some (.token (some token)) ∧ token.text? = some text

/-- A part is a list of whose elements something holds. -/
def HasList (place : Located) (name : String) (holds : List Located → Prop) : Prop :=
  ∃ list elements tokens, place.part? name = some (.list (some list) elements tokens) ∧
    holds elements

def HasTokens (place : Located) (name : String) (texts : List (List Char)) : Prop :=
  ∃ tokens, place.part? name = some (.tokens tokens) ∧ tokens.map text? = texts.map some

variable {place : Located} {name : String} {index : Nat}

/-! What is said of a part twice is said of one and the same. -/

theorem HasNode.meet {holds other : Located → Prop} (first : place.HasNode name holds)
    (second : place.HasNode name other) : ∃ node, holds node ∧ other node := by
  obtain ⟨node, found, here⟩ := first
  obtain ⟨again, same, there⟩ := second
  rw [found, Option.some.injEq, Part.child.injEq, Option.some.injEq] at same
  subst same
  exact ⟨node, here, there⟩

theorem HasNode.ne_none {holds : Located → Prop} (has : place.HasNode name holds) :
    place.part? name ≠ some (.child none) := by
  obtain ⟨node, found, -⟩ := has
  simp [found]

theorem HasToken.eq {text other : List Char} (first : place.HasToken name text)
    (second : place.HasToken name other) : text = other := by
  obtain ⟨token, found, reads⟩ := first
  obtain ⟨again, same, readsAgain⟩ := second
  rw [found, Option.some.injEq, Part.token.injEq, Option.some.injEq] at same
  subst same
  exact Option.some.inj (reads.symm.trans readsAgain)

theorem HasToken.ne_none {text : List Char} (has : place.HasToken name text) :
    place.part? name ≠ some (.token none) := by
  obtain ⟨token, found, -⟩ := has
  simp [found]

theorem HasList.meet {holds other : List Located → Prop} (first : place.HasList name holds)
    (second : place.HasList name other) : ∃ elements, holds elements ∧ other elements := by
  obtain ⟨list, elements, tokens, found, here⟩ := first
  obtain ⟨list', elements', tokens', same, there⟩ := second
  rw [found, Option.some.injEq, Part.list.injEq] at same
  obtain ⟨-, rfl, -⟩ := same
  exact ⟨elements, here, there⟩

theorem HasTokens.eq {texts others : List (List Char)} (first : place.HasTokens name texts)
    (second : place.HasTokens name others) : texts = others := by
  obtain ⟨tokens, found, reads⟩ := first
  obtain ⟨again, same, readsAgain⟩ := second
  rw [found, Option.some.injEq, Part.tokens.injEq] at same
  subst same
  exact (List.map_inj_right fun _ _ => Option.some.inj).mp (reads.symm.trans readsAgain)

/-! From the slots of an element to its parts. -/

theorem part?_eq {field : Field} (known : place.kind.fields.lookup name = some field) :
    place.part? name = some (field.read place) := by
  rw [part?, parts]
  generalize place.kind.fields = fields at known
  induction fields with
  | nil => cases known
  | cons entry fields ih =>
    rw [List.map_cons, List.lookup_cons]
    rw [List.lookup_cons] at known
    split at known
    · rw [Option.some.inj known]
    · exact ih known

private theorem map_element_children (place : Located) :
    place.children.map (·.element) = place.element.children := by
  have slots : (List.range place.element.slots.length).map (place.element.slots[·]?) =
      place.element.slots.map some := by
    apply List.ext_getElem?
    intro index
    rw [List.getElem?_map, List.getElem?_map]
    rcases Nat.lt_or_ge index place.element.slots.length with inside | outside
    · simp [inside]
    · simp [outside]
  have slot (index : Nat) : (place.slot? index).map (·.element) =
      (place.element.slots[index]?).join := by
    rw [slot?, Option.map_map, Element.slot?]
    exact congrFun Option.map_id _
  calc place.children.map (·.element)
    _ = (List.range place.element.slots.length).filterMap
          (fun index => (place.element.slots[index]?).join) := by
        rw [children, List.map_filterMap]
        simp only [slot]
    _ = (place.element.slots.map some).filterMap Option.join := by
        rw [← slots, List.filterMap_map]
        rfl
    _ = place.element.children := by
        rw [List.filterMap_map]
        rfl

theorem slot?_of_element {element : Element} (filled : place.element.slot? index = some element) :
    ∃ found, place.slot? index = some found ∧ found.element = element :=
  ⟨_, by rw [slot?, filled, Option.map_some], rfl⟩

private theorem childIn?_of_element {element : Element} {category : Category}
    (filled : place.element.slot? index = some element) (accepted : element.isA category = true) :
    ∃ found, place.childIn? index category = some found ∧ found.element = element := by
  obtain ⟨found, here, rfl⟩ := slot?_of_element filled
  refine ⟨found, ?_, rfl⟩
  rw [childIn?_eq_slot?, here]
  intro other there
  rw [here] at there
  rwa [← Option.some.inj there]

private theorem listIn_of_element {elements : List Element}
    (filled : place.element.slot? index = some (.list elements)) :
    ∃ list, place.childIn? index (.exactly .list) = some list ∧
      list.children.map (·.element) = elements := by
  have accepted : (Element.list elements).isA (.exactly .list) = true := rfl
  obtain ⟨list, found, same⟩ := childIn?_of_element filled accepted
  refine ⟨list, found, ?_⟩
  rw [map_element_children, same, Element.list, Element.ofChildren, Element.children,
    Element.slots, List.filterMap_map]
  exact List.filterMap_some

theorem hasNode_of_slot {category : Category} {element : Element} {holds : Located → Prop}
    (known : place.kind.fields.lookup name = some (.child index category))
    (filled : place.element.slot? index = some element) (accepted : element.isA category = true)
    (shows : ∀ node : Located, node.element = element → holds node) : place.HasNode name holds := by
  obtain ⟨node, found, same⟩ := childIn?_of_element filled accepted
  refine ⟨node, ?_, shows node same⟩
  rw [part?_eq known, Field.read, found]

theorem part?_of_empty {category : Category}
    (known : place.kind.fields.lookup name = some (.child index category))
    (empty : place.element.slot? index = none) : place.part? name = some (.child none) := by
  rw [part?_eq known, Field.read, childIn?, slot?, empty]
  rfl

theorem hasToken_of_slot {token : Token} {text : List Char}
    (known : place.kind.fields.lookup name = some (.token index))
    (filled : place.element.slot? index = some (.leaf token))
    (reads : (Element.leaf token).text? = some text) : place.HasToken name text := by
  obtain ⟨found, here, same⟩ := slot?_of_element filled
  refine ⟨found, ?_, ?_⟩
  · have leaf : found.isNode = false := by rw [isNode, same, Element.isNode]
    rw [part?_eq known, Field.read, tokenIn?, here, Option.filter_some, leaf]
    rfl
  · rw [text?, same]
    exact reads

theorem part?_of_noToken (known : place.kind.fields.lookup name = some (.token index))
    (empty : place.element.slot? index = none) : place.part? name = some (.token none) := by
  rw [part?_eq known, Field.read, tokenIn?, slot?, empty]
  rfl

theorem hasList_of_filter {category : Category} {children elements : List Element}
    {holds : List Located → Prop}
    (known : place.kind.fields.lookup name = some (.list index category))
    (filled : place.element.slot? index = some (.list children))
    (own : children.filter (·.isA category) = elements)
    (shows : ∀ places : List Located, places.map (·.element) = elements → holds places) :
    place.HasList name holds := by
  obtain ⟨list, found, same⟩ := listIn_of_element filled
  have nodes : list.nodes.filter (category.accepts ·.kind) =
      list.children.filter (fun child => child.element.isA category) := by
    rw [nodes, List.filter_filter]
    exact List.filter_congr fun child _ => Bool.and_comm _ _
  have elements : (list.nodes.filter (category.accepts ·.kind)).map (·.element) = elements := by
    rw [nodes, ← own, ← same, List.filter_map]
    rfl
  refine ⟨list, _, list.tokens, ?_, shows _ elements⟩
  rw [part?_eq known, Field.read, found]

theorem hasList_of_slot {category : Category} {elements : List Element}
    {holds : List Located → Prop}
    (known : place.kind.fields.lookup name = some (.list index category))
    (filled : place.element.slot? index = some (.list elements))
    (accepted : ∀ element ∈ elements, element.isA category = true)
    (shows : ∀ places : List Located, places.map (·.element) = elements → holds places) :
    place.HasList name holds :=
  hasList_of_filter known filled (List.filter_eq_self.mpr accepted) shows

theorem hasTokens_of_slot {kind : Kind} {tokens : List Token} {texts : List (List Char)}
    (known : place.kind.fields.lookup name = some (.listTokens index [kind]))
    (filled : place.element.slot? index = some (.list (tokens.map .leaf)))
    (alike : ∀ token ∈ tokens, token.kind = kind)
    (reads : tokens.map (fun token => (Element.leaf token).text?) = texts.map some) :
    place.HasTokens name texts := by
  obtain ⟨list, found, children⟩ := listIn_of_element filled
  have leaf (place : Located) (member : place ∈ list.children) :
      place.isNode = false ∧ place.kind = kind := by
    have known := List.mem_map_of_mem (f := (·.element)) member
    rw [children] at known
    obtain ⟨token, member, same⟩ := List.mem_map.mp known
    rw [isNode, Located.kind, ← same]
    exact ⟨rfl, alike token member⟩
  have own : list.tokens = list.children := by
    rw [Located.tokens, List.filter_eq_self]
    intro place member
    simp [(leaf place member).1]
  refine ⟨list.children, ?_, ?_⟩
  · have all : list.children.filter (fun token =>
        [kind].isEmpty || [kind].contains token.kind) = list.children := by
      rw [List.filter_eq_self]
      intro place member
      simp [(leaf place member).2]
    rw [part?_eq known, Field.read, listTokens, found, Option.map_some, Option.getD_some, own, all]
  · calc list.children.map text?
      _ = (list.children.map (·.element)).map Element.text? := by
          rw [List.map_map]
          rfl
      _ = texts.map some := by
          rw [children, List.map_map, ← reads]
          rfl

end Located

end MatrixScript
