import MatrixScript.Proofs.Tree.Everywhere
import MatrixScript.Proofs.Tree.Layout

/-!
Reading the parts of nodes that follow their layouts.

A field reads one slot of a node. Kind by kind, that slot holds what the field asks for
(`Kind.fields_match`), so in a tree of nodes that follow their layouts a field passes over nothing
that stands in its slot, and finds something wherever the slot has to be filled.
-/

set_option autoImplicit false

namespace MatrixScript

/-- Whether a part is there. Flags, rows of tokens and texts always are. -/
def Part.isFound : Part → Bool
  | .child found | .token found | .list found _ _ => found.isSome
  | .flag _ | .tokens _ | .text _ => true

namespace Field

def Agrees : Field → Located → Prop
  | .child slot category, place => place.childIn? slot category = place.slot? slot
  | .token slot, place | .hasToken slot, place => place.tokenIn? slot = place.slot? slot
  | .list slot _, place | .listTokens slot _, place =>
    place.childIn? slot (.exactly .list) = place.slot? slot
  | .ownTokens _, _ | .ownText, _ => True
  | .within slot kind field, place =>
    place.childIn? slot (.exactly kind) = place.slot? slot ∧
      ∀ found, place.slot? slot = some found → field.Agrees found

/-- The layout has, in the slot of a field, what the field asks for. -/
def fitsIn : Field → List Slot → Bool
  | .child index category, layout => content? layout index == some (.node category)
  | .token index, layout | .hasToken index, layout => content? layout index == some .token
  | .list index category, layout =>
    content? layout index == some (if category == .statement then .statements else .list)
  | .listTokens index _, layout =>
    content? layout index == some .list || content? layout index == some .words
  | .ownTokens _, _ | .ownText, _ => true
  | .within index kind field, layout =>
    content? layout index == some (.node (.exactly kind)) && kind.layout?.any field.fitsIn
where
  content? (layout : List Slot) (index : Nat) : Option Content := layout[index]?.map Slot.content

def isNeeded : Field → List Slot → Bool
  | .child index _, layout | .token index, layout | .list index _, layout
  | .listTokens index _, layout => layout[index]?.any Slot.isNeeded
  | .hasToken _, _ | .ownTokens _, _ | .ownText, _ => true
  | .within .., _ => false

def isList : Field → Bool
  | .list .. | .listTokens .. => true
  | _ => false

end Field

namespace Kind

def optionalParts : Kind → List String
  | .expressionStatement => ["terminator"]
  | .functionDeclaration => ["output_description", "input_description", "end_keyword"]
  | .methodDefinition | .abstractMethodDeclaration => ["output_description", "input_description"]
  | .classDeclaration => ["attributes", "base_classes"]
  | .attribute => ["value"]
  | .propertiesList | .methodsList | .eventsList | .enumerationList => ["attributes"]
  | .enumerationItem => ["arguments"]
  | .switchCase => ["label"]
  | .ifStatement => ["else_clause"]
  | .tryCatchStatement => ["catch_clause"]
  | .catchClause => ["identifier"]
  | _ => []

/-- Every field reads what the layout has in its slot. Lists, and parts that are not optional, have
slots that are always filled. -/
theorem fields_match (kind : Kind) :
    kind.layout?.all (fun layout => kind.fields.all fun entry =>
      entry.2.fitsIn layout && (entry.2.isNeeded layout ||
        (kind.optionalParts.contains entry.1 && !entry.2.isList))) = true := by
  cases kind <;> decide

private theorem fitsIn_of_mem {kind : Kind} {layout : List Slot}
    (known : kind.layout? = some layout)
    {entry : String × Field} (member : entry ∈ kind.fields) : entry.2.fitsIn layout = true := by
  have all := fields_match kind
  rw [known, Option.all_some, List.all_eq_true] at all
  exact (Bool.and_eq_true_iff.mp (all entry member)).1

private theorem isNeeded_of_mem {kind : Kind} {layout : List Slot}
    (known : kind.layout? = some layout)
    {entry : String × Field} (member : entry ∈ kind.fields)
    (wanted : entry.1 ∉ kind.optionalParts ∨ entry.2.isList = true) :
    entry.2.isNeeded layout = true := by
  have all := fields_match kind
  rw [known, Option.all_some, List.all_eq_true] at all
  have checked := (Bool.and_eq_true_iff.mp (all entry member)).2
  rcases wanted with wanted | wanted
  · simpa [wanted] using checked
  · simpa [wanted] using checked

private theorem layout?_of_isNode {kind : Kind} (isNode : kind.isNode = true) :
    kind = .list ∨ kind = .compoundName ∨ ∃ layout, kind.layout? = some layout := by
  have table : kind = .list ∨ kind = .compoundName ∨ kind.layout?.isSome = true := by
    revert isNode
    cases kind <;> decide
  simpa [Option.isSome_iff_exists] using table

private theorem layout_or_own {kind : Kind} (isNode : kind.isNode = true) {entry : String × Field}
    (member : entry ∈ kind.fields) :
    (∃ layout, kind.layout? = some layout) ∨ entry.2 = .ownText ∨
      entry.2 = .ownTokens .identifier := by
  rcases layout?_of_isNode isNode with rfl | rfl | known
  · exact absurd member List.not_mem_nil
  · have fields : entry ∈ [("text", Field.ownText), ("segments", .ownTokens .identifier)] := member
    rw [List.mem_cons, List.mem_singleton] at fields
    rcases fields with rfl | rfl
    · exact Or.inr (Or.inl rfl)
    · exact Or.inr (Or.inr rfl)
  · exact Or.inl known

end Kind

namespace Slot

private theorem exists_of_isNeeded {slot : Slot} (needed : slot.isNeeded = true)
    {filled : Option Element}
    (holds : slot.holds filled = true) : ∃ element, filled = some element := by
  cases filled with
  | none => simp [Slot.holds, needed] at holds
  | some element => exact ⟨element, rfl⟩

end Slot

private theorem Element.allHold_of_fits {element : Element} (fits : element.fits = true)
    {layout : List Slot} (known : element.kind.layout? = some layout) :
    Slot.allHold layout element.slots = true := by
  cases element with
  | leaf token =>
    have isNode := Kind.isNode_of_layout? (show token.kind.layout?.isSome = true by simp_all [kind])
    have isToken := (Bool.and_eq_true_iff.mp fits).1
    rw [Kind.isNode, isToken] at isNode
    cases isNode
  | node kind slots diagnostics =>
    simp only [Element.fits, Bool.and_eq_true] at fits
    have all := fits.1.2
    rw [show kind.layout? = some layout from known] at all
    exact all

private theorem Element.labelled_of_fits {element : Element} (fits : element.fits = true)
    (branch : element.kind = .switchCase) : labelled element.slots = true := by
  cases element with
  | leaf token =>
    have significant : token.kind.isSignificant = true := fits
    rw [show token.kind = .switchCase from branch] at significant
    cases significant
  | node kind slots diagnostics =>
    have same : kind = .switchCase := branch
    subst same
    exact (Bool.and_eq_true_iff.mp fits).2

namespace Located

theorem element_of_slot? {place found : Located} {index : Nat}
    (here : place.slot? index = some found) : place.element.slot? index = some found.element := by
  obtain ⟨element, filled, rfl⟩ := Option.map_eq_some_iff.mp here
  exact filled

private theorem accepts_slot {place found : Located} (fits : place.element.fits = true)
    {layout : List Slot} (known : place.kind.layout? = some layout) {index : Nat}
    {content : Content} (here : Field.fitsIn.content? layout index = some content)
    (filled : place.slot? index = some found) : content.accepts found.element = true := by
  obtain ⟨slot, there, rfl⟩ := Option.map_eq_some_iff.mp here
  have holds := Slot.holds_of_allHold (Element.allHold_of_fits fits known) there
  rw [← Element.slot?, element_of_slot? filled] at holds
  exact holds

private theorem exists_slot {place : Located} (fits : place.element.fits = true)
    {layout : List Slot}
    (known : place.kind.layout? = some layout) {index : Nat} {slot : Slot}
    (here : layout[index]? = some slot) (needed : slot.isNeeded = true) :
    ∃ found, place.slot? index = some found := by
  have holds := Slot.holds_of_allHold (Element.allHold_of_fits fits known) here
  obtain ⟨element, filled⟩ := Slot.exists_of_isNeeded needed holds
  exact ⟨_, by rw [Located.slot?, Element.slot?, filled, Option.map_some]⟩

theorem childIn?_eq_slot? {place : Located} {index : Nat} {category : Category}
    (accepted : ∀ found, place.slot? index = some found → found.element.isA category = true) :
    place.childIn? index category = place.slot? index := by
  cases here : place.slot? index with
  | none => simp [childIn?, here]
  | some found =>
    have passes := accepted found here
    rw [childIn?, here, Option.filter_some]
    exact if_pos passes

private theorem tokenIn?_eq_slot? {place : Located} {index : Nat}
    (accepted : ∀ found, place.slot? index = some found → found.isNode = false) :
    place.tokenIn? index = place.slot? index := by
  cases here : place.slot? index with
  | none => simp [tokenIn?, here]
  | some found => simp [tokenIn?, here, accepted found here]

end Located

private theorem Content.isA_list_of_accepts {content : Content} {element : Element}
    (listed : content = .list ∨ content = .statements ∨ content = .words)
    (accepts : content.accepts element = true) : element.isA (.exactly .list) = true := by
  rcases listed with rfl | rfl | rfl
  · exact accepts
  · exact (Bool.and_eq_true_iff.mp accepts).1
  · exact (Bool.and_eq_true_iff.mp accepts).1

namespace Field

private theorem agrees {field : Field} {place : Located}
    (everywhere : place.element.Everywhere (·.fits = true)) {layout : List Slot}
    (known : place.kind.layout? = some layout) (matched : field.fitsIn layout = true) :
    field.Agrees place := by
  induction field generalizing place layout with
  | child index category =>
    apply Located.childIn?_eq_slot?
    intro found filled
    exact Located.accepts_slot everywhere.here known (beq_iff_eq.mp matched) filled
  | token index =>
    apply Located.tokenIn?_eq_slot?
    intro found filled
    have token := Located.accepts_slot everywhere.here known (beq_iff_eq.mp matched) filled
    exact (Bool.not_eq_true' _).mp token
  | hasToken index =>
    apply Located.tokenIn?_eq_slot?
    intro found filled
    have token := Located.accepts_slot everywhere.here known (beq_iff_eq.mp matched) filled
    exact (Bool.not_eq_true' _).mp token
  | list index category =>
    apply Located.childIn?_eq_slot?
    intro found filled
    apply Content.isA_list_of_accepts ?_
      (Located.accepts_slot everywhere.here known (beq_iff_eq.mp matched) filled)
    split <;> simp
  | listTokens index kinds =>
    apply Located.childIn?_eq_slot?
    intro found filled
    rcases Bool.or_eq_true_iff.mp matched with matched | matched
    · exact Located.accepts_slot everywhere.here known (beq_iff_eq.mp matched) filled
    · exact Content.isA_list_of_accepts (by simp)
        (Located.accepts_slot everywhere.here known (beq_iff_eq.mp matched) filled)
  | ownTokens kind => exact trivial
  | ownText => exact trivial
  | within index kind field ih =>
    rw [fitsIn, Bool.and_eq_true, beq_iff_eq] at matched
    have found {found : Located} (filled : place.slot? index = some found) :
        found.element.isA (.exactly kind) = true :=
      Located.accepts_slot everywhere.here known matched.1 filled
    constructor
    · exact Located.childIn?_eq_slot? fun _ filled => found filled
    · intro child filled
      cases inner : kind.layout? with
      | none => simp [inner] at matched
      | some below =>
        have same : child.kind = kind :=
          beq_iff_eq.mp (Bool.and_eq_true_iff.mp (found filled)).2
        apply ih (everywhere.slot (Located.element_of_slot? filled)) (same ▸ inner)
        simpa [inner] using matched.2

private theorem isFound_read {field : Field} {place : Located}
    (everywhere : place.element.Everywhere (·.fits = true)) {layout : List Slot}
    (known : place.kind.layout? = some layout) (matched : field.fitsIn layout = true)
    (needed : field.isNeeded layout = true) : (field.read place).isFound = true := by
  have agrees := agrees everywhere known matched
  have filled {index : Nat} (needed : layout[index]?.any Slot.isNeeded = true) :
      (place.slot? index).isSome = true := by
    cases here : layout[index]? with
    | none => simp [here] at needed
    | some slot =>
      rw [here, Option.any_some] at needed
      obtain ⟨found, filled⟩ := Located.exists_slot everywhere.here known here needed
      rw [filled, Option.isSome_some]
  cases field with
  | child index category =>
    show (place.childIn? index category).isSome = true
    rw [agrees, filled needed]
  | token index =>
    show (place.tokenIn? index).isSome = true
    rw [agrees, filled needed]
  | list index category =>
    obtain ⟨found, here⟩ := Option.isSome_iff_exists.mp (filled needed)
    simp only [read, show place.childIn? index (.exactly .list) = some found from agrees.trans here]
    rfl
  | hasToken _ | listTokens _ _ | ownTokens _ | ownText => rfl
  | within index kind field => cases needed

private theorem isFound_within (index : Nat) (kind : Kind) (field : Field) {place : Located}
    (everywhere : place.element.Everywhere (·.fits = true)) {layout below : List Slot}
    (known : place.kind.layout? = some layout) (inner : kind.layout? = some below)
    (matched : (within index kind field).fitsIn layout = true)
    (needed : field.isNeeded below = true) (absent : field.absent.isFound = false) :
    ((within index kind field).read place).isFound = (place.slot? index).isSome := by
  obtain ⟨same, -⟩ := agrees everywhere known matched
  rw [fitsIn, inner, Bool.and_eq_true, beq_iff_eq, Option.any_some] at matched
  rw [read, same]
  cases filled : place.slot? index with
  | none => exact absent
  | some found =>
    have exactly := Located.accepts_slot everywhere.here known matched.1 filled
    have kindFound : found.kind = kind := beq_iff_eq.mp (Bool.and_eq_true_iff.mp exactly).2
    exact isFound_read (everywhere.slot (Located.element_of_slot? filled))
      (by rw [kindFound, inner]) matched.2 needed

private theorem exists_list (index : Nat) (content : Content) {place : Located}
    (everywhere : place.element.Everywhere (·.fits = true)) {layout : List Slot}
    (known : place.kind.layout? = some layout)
    (matched : fitsIn.content? layout index = some content)
    (needed : layout[index]?.any Slot.isNeeded = true)
    (listed : content = .list ∨ content = .statements ∨ content = .words) :
    ∃ list, place.childIn? index (.exactly .list) = some list ∧
      content.accepts list.element = true := by
  obtain ⟨slot, here, -⟩ := Option.map_eq_some_iff.mp matched
  rw [here, Option.any_some] at needed
  obtain ⟨list, filled⟩ := Located.exists_slot everywhere.here known here needed
  have accepted := Located.accepts_slot everywhere.here known matched filled
  refine ⟨list, ?_, accepted⟩
  rw [Located.childIn?, filled, Option.filter_some]
  exact if_pos (Content.isA_list_of_accepts listed accepted)

end Field

namespace Located

private theorem element_mem_children {place child : Located} (member : child ∈ place.children) :
    child.element ∈ place.element.children := by
  obtain ⟨index, -, here⟩ := List.mem_filterMap.mp member
  have filled := element_of_slot? here
  rw [Element.slot?, Option.join_eq_some_iff] at filled
  exact List.mem_filterMap.mpr ⟨_, List.mem_of_getElem? filled, rfl⟩

/-- The parts of a node are read just as its slots hold them. -/
structure WellRead (place : Located) : Prop where
  /-- Each kind of node has one number of slots, lists and dotted names aside. -/
  count : place.kind = .list ∨ place.kind = .compoundName ∨
    place.kind.layout?.map List.length = some place.element.slots.length
  /-- What stands in a slot is accepted by every field that reads the slot. -/
  accepted : ∀ entry ∈ place.kind.fields, entry.2.Agrees place
  /-- All but the optional parts are found. -/
  found : ∀ entry ∈ place.parts, entry.1 ∉ place.kind.optionalParts → entry.2.isFound = true
  /-- The list of a row of tokens is found. -/
  listed : ∀ name index kinds, (name, Field.listTokens index kinds) ∈ place.kind.fields →
    (place.childIn? index (.exactly .list)).isSome = true
  /-- Lists of statements hold nothing else. -/
  statements : ∀ name index, (name, Field.list index .statement) ∈ place.kind.fields →
    ∃ list, place.childIn? index (.exactly .list) = some list ∧
      ∀ child ∈ list.children, child.isNode = true ∧ child.kind.isStatement = true
  /-- The words of a command are bare. -/
  words : place.kind = .commandExpression →
    ∃ list, place.childIn? 1 (.exactly .list) = some list ∧
      ∀ child ∈ list.children, child.isNode = false ∧ child.kind = .unquotedStringLiteral
  /-- An attribute has a value just where something is assigned to it. -/
  value : place.kind = .attribute →
    (place.parts.lookup "value").map Part.isFound = some (place.slot? 2).isSome
  /-- An enumerator has arguments just where it has a value. -/
  arguments : place.kind = .enumerationItem →
    (place.parts.lookup "arguments").map Part.isFound = some (place.slot? 1).isSome
  /-- A branch of a switch has a label after `case`, and none after `otherwise`. -/
  label : place.kind = .switchCase → ∃ keyword, place.element.slot? 0 = some (.leaf keyword) ∧
    (keyword.isWord "case" = true ∧
        (place.parts.lookup "label").map Part.isFound = some true ∨
      keyword.isWord "otherwise" = true ∧
        (place.parts.lookup "label").map Part.isFound = some false)

section

variable {place : Located} (everywhere : place.element.Everywhere (·.fits = true))

include everywhere

private theorem isNode_kind (isNode : place.isNode = true) : place.kind.isNode = true := by
  have fits := everywhere.here
  rw [Located.isNode] at isNode
  rw [Located.kind]
  cases element : place.element with
  | leaf token => simp [element, Element.isNode] at isNode
  | node kind slots diagnostics =>
    simp only [element, Element.fits, Bool.and_eq_true] at fits
    exact fits.1.1

private theorem count_slots (isNode : place.isNode = true) :
    place.kind = .list ∨ place.kind = .compoundName ∨
      place.kind.layout?.map List.length = some place.element.slots.length := by
  rcases Kind.layout?_of_isNode (isNode_kind everywhere isNode) with list | name | ⟨layout, known⟩
  · exact Or.inl list
  · exact Or.inr (Or.inl name)
  · have holds := Element.allHold_of_fits everywhere.here known
    rw [known, Option.map_some, Slot.length_of_allHold holds]
    exact Or.inr (Or.inr rfl)

private theorem reads_field (isNode : place.isNode = true) {entry : String × Field}
    (member : entry ∈ place.kind.fields) :
    entry.2.Agrees place ∧ (entry.1 ∉ place.kind.optionalParts ∨ entry.2.isList = true →
      (entry.2.read place).isFound = true) := by
  rcases Kind.layout_or_own (isNode_kind everywhere isNode) member with ⟨layout, known⟩ | own | own
  · have matched := Kind.fitsIn_of_mem known member
    constructor
    · exact Field.agrees everywhere known matched
    · intro wanted
      exact Field.isFound_read everywhere known matched (Kind.isNeeded_of_mem known member wanted)
  · rw [own]
    exact ⟨trivial, fun _ => rfl⟩
  · rw [own]
    exact ⟨trivial, fun _ => rfl⟩

private theorem layout_of_list (isNode : place.isNode = true) {entry : String × Field}
    (member : entry ∈ place.kind.fields) (isList : entry.2.isList = true) :
    ∃ layout, place.kind.layout? = some layout ∧ entry.2.fitsIn layout = true ∧
      entry.2.isNeeded layout = true := by
  rcases Kind.layout_or_own (isNode_kind everywhere isNode) member with ⟨layout, known⟩ | own | own
  · exact ⟨layout, known, Kind.fitsIn_of_mem known member,
      Kind.isNeeded_of_mem known member (Or.inr isList)⟩
  · rw [own] at isList
    cases isList
  · rw [own] at isList
    cases isList

private theorem finds_listTokens (isNode : place.isNode = true) {name : String} {index : Nat}
    {kinds : List Kind} (member : (name, Field.listTokens index kinds) ∈ place.kind.fields) :
    (place.childIn? index (.exactly .list)).isSome = true := by
  obtain ⟨layout, known, matched, needed⟩ := layout_of_list everywhere isNode member rfl
  rcases Bool.or_eq_true_iff.mp matched with matched | matched
  · obtain ⟨list, found, -⟩ := Field.exists_list index _ everywhere known
      (beq_iff_eq.mp matched) needed (by simp)
    rw [found, Option.isSome_some]
  · obtain ⟨list, found, -⟩ := Field.exists_list index _ everywhere known
      (beq_iff_eq.mp matched) needed (by simp)
    rw [found, Option.isSome_some]

private theorem finds_statements (isNode : place.isNode = true) {name : String} {index : Nat}
    (member : (name, Field.list index .statement) ∈ place.kind.fields) :
    ∃ list, place.childIn? index (.exactly .list) = some list ∧
      ∀ child ∈ list.children, child.isNode = true ∧ child.kind.isStatement = true := by
  obtain ⟨layout, known, matched, needed⟩ := layout_of_list everywhere isNode member rfl
  obtain ⟨list, found, accepted⟩ := Field.exists_list index .statements everywhere known
    (beq_iff_eq.mp matched) needed (by simp)
  refine ⟨list, found, ?_⟩
  intro child member
  have all := (Bool.and_eq_true_iff.mp accepted).2
  have statement := List.all_eq_true.mp all _ (element_mem_children member)
  exact Bool.and_eq_true_iff.mp statement

private theorem finds_words (command : place.kind = .commandExpression) :
    ∃ list, place.childIn? 1 (.exactly .list) = some list ∧
      ∀ child ∈ list.children, child.isNode = false ∧ child.kind = .unquotedStringLiteral := by
  have known : place.kind.layout? = some [
      .needed (.node (.exactly .identifierNameExpression)), .needed .words] := by
    rw [command]
    rfl
  obtain ⟨list, found, accepted⟩ := Field.exists_list 1 .words everywhere known rfl rfl (by simp)
  refine ⟨list, found, ?_⟩
  intro child member
  have all := (Bool.and_eq_true_iff.mp accepted).2
  have word := List.all_eq_true.mp all _ (element_mem_children member)
  simpa [Located.isNode, Located.kind] using word

private theorem finds_value (isAttribute : place.kind = .attribute) :
    (place.parts.lookup "value").map Part.isFound = some (place.slot? 2).isSome := by
  have known : place.kind.layout? = some [.optional .token, .needed .token,
      .optional (.node (.exactly .attributeAssignment))] := by
    rw [isAttribute]
    rfl
  have value := Field.isFound_within 2 .attributeAssignment (.child 1 .expression) everywhere known
    rfl rfl rfl rfl
  rw [← value, Located.parts, isAttribute]
  rfl

private theorem finds_arguments (enumerator : place.kind = .enumerationItem) :
    (place.parts.lookup "arguments").map Part.isFound = some (place.slot? 1).isSome := by
  have known : place.kind.layout? = some [.needed .token,
      .optional (.node (.exactly .enumerationItemValue))] := by
    rw [enumerator]
    rfl
  have arguments := Field.isFound_within 1 .enumerationItemValue (.list 1 .expression) everywhere
    known rfl rfl rfl rfl
  rw [← arguments, Located.parts, enumerator]
  rfl

private theorem finds_label (branch : place.kind = .switchCase) :
    ∃ keyword, place.element.slot? 0 = some (.leaf keyword) ∧
      (keyword.isWord "case" = true ∧
          (place.parts.lookup "label").map Part.isFound = some true ∨
        keyword.isWord "otherwise" = true ∧
          (place.parts.lookup "label").map Part.isFound = some false) := by
  have known : place.kind.layout? = some [.needed .token, .optional (.node .expression),
      .optional .token, .needed .statements] := by
    rw [branch]
    rfl
  have agrees : place.childIn? 1 .expression = place.slot? 1 :=
    @Field.agrees (.child 1 .expression) place everywhere _ known rfl
  have label : (place.parts.lookup "label").map Part.isFound = some (place.slot? 1).isSome := by
    rw [← agrees, Located.parts, branch]
    rfl
  rw [label]
  obtain ⟨keyword, found, rest, slots, labels⟩ :=
    Element.exists_of_labelled (Element.labelled_of_fits everywhere.here branch)
  refine ⟨keyword, by simp [Element.slot?, slots], ?_⟩
  have filled : (place.slot? 1).isSome = found.isSome := by
    simp [Located.slot?, Element.slot?, slots]
  simpa [filled] using labels

/-- Where every node follows its layout, parts are read as the slots hold them. -/
theorem wellRead (isNode : place.isNode = true) : place.WellRead where
  count := count_slots everywhere isNode
  accepted entry member := (reads_field everywhere isNode member).1
  found entry member wanted := by
    obtain ⟨field, read, rfl⟩ := List.mem_map.mp member
    exact (reads_field everywhere isNode read).2 (Or.inl wanted)
  listed name index kinds member := finds_listTokens everywhere isNode member
  statements name index member := finds_statements everywhere isNode member
  words := finds_words everywhere
  value := finds_value everywhere
  arguments := finds_arguments everywhere
  label := finds_label everywhere

end

end Located

end MatrixScript
