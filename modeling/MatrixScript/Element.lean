import MatrixScript.Token

/-!
Syntax trees without places: an element is a token or a node whose slots hold elements.

A slot can be empty where a part of the syntax is optional. The text of a tree is that of its tokens
from left to right. Widths, and the first and the last token, are found slot by slot, and are those
of the text (`Element.width_eq`, `Element.firstToken?_eq`, `Element.lastToken?_eq`).
-/

set_option autoImplicit false

namespace MatrixScript

/-- A token, or a node with slots. Diagnostics of a node count from its start. -/
inductive Element where
  | leaf (token : Token)
  | node (kind : Kind) (slots : List (Option Element)) (diagnostics : List Diagnostic)
  deriving Repr

namespace Element

def ofChildren (kind : Kind) (children : List Element) : Element :=
  .node kind (children.map some) []

def list (children : List Element) : Element := ofChildren .list children

def kind : Element → Kind
  | .leaf token => token.kind
  | .node kind _ _ => kind

def slots : Element → List (Option Element)
  | .leaf _ => []
  | .node _ slots _ => slots

def slot? (element : Element) (index : Nat) : Option Element := (element.slots[index]?).join

def children (element : Element) : List Element := element.slots.filterMap id

def diagnostics : Element → List Diagnostic
  | .leaf token => token.diagnostics
  | .node _ _ diagnostics => diagnostics

def token? : Element → Option Token
  | .leaf token => some token
  | .node .. => none

def isNode : Element → Bool
  | .leaf _ => false
  | .node .. => true

mutual

def tokens : Element → List Token
  | .leaf token => [token]
  | .node _ slots _ => slotTokens slots

def slotTokens : List (Option Element) → List Token
  | [] => []
  | none :: rest => slotTokens rest
  | some element :: rest => element.tokens ++ slotTokens rest

end

def fullText (element : Element) : List Char := element.tokens.flatMap Token.text

/-! Widths. A width is added up from the slots when a node is made, so that no text has to be put
together for it. The sums are refused beyond the largest offset. -/

mutual

/-- The bytes of an element: those of a token, and of a node the sum over its slots. -/
def width : Element → Nat
  | .leaf token => token.width
  | .node _ slots _ => slotsWidth slots

def slotsWidth : List (Option Element) → Nat
  | [] => 0
  | none :: rest => slotsWidth rest
  | some element :: rest => element.width + slotsWidth rest

end

/-- The bytes before slot `index`; past the last slot, the bytes of all. -/
def slotOffset (element : Element) (index : Nat) : Nat := slotsWidth (element.slots.take index)

/-- A number of bytes, refused beyond the largest offset. -/
def bounded? (bytes : Nat) : Option Nat :=
  if bytes ≤ Diagnostic.offsetLimit then some bytes else none

mutual

/-- `width`, as far as the element can be made: those it holds are made before it, and each adds its
width. -/
def width? : Element → Option Nat
  | .leaf token => bounded? token.width
  | .node _ slots _ => slotsWidth? slots 0

def slotsWidth? : List (Option Element) → (total : Nat) → Option Nat
  | [], total => some total
  | none :: rest, total => slotsWidth? rest total
  | some element :: rest, total => do
    let own ← element.width?
    let sum ← bounded? (total + own)
    slotsWidth? rest sum

end

def slotOffset? (element : Element) (index : Nat) : Option Nat :=
  slotsWidth? (element.slots.take index) 0

/-! Both ends. A token without text is passed over, on whatever level it stands. -/

mutual

def firstToken? : Element → Option Token
  | .leaf token => if token.width = 0 then none else some token
  | .node _ slots _ => firstIn? slots

def firstIn? : List (Option Element) → Option Token
  | [] => none
  | none :: rest => firstIn? rest
  | some element :: rest => element.firstToken?.or (firstIn? rest)

end

mutual

def lastToken? : Element → Option Token
  | .leaf token => if token.width = 0 then none else some token
  | .node _ slots _ => lastIn? slots

def lastIn? : List (Option Element) → Option Token
  | [] => none
  | none :: rest => lastIn? rest
  | some element :: rest => (lastIn? rest).or element.lastToken?

end

/-- The bytes of trivia before the first token with text. -/
def leadingWidth (element : Element) : Nat := (element.firstToken?.map Token.leadingWidth).getD 0

/-- The bytes of trivia after the last token with text. -/
def trailingWidth (element : Element) : Nat := (element.lastToken?.map Token.trailingWidth).getD 0

/-- The range without the trivia at both ends, when the element starts at `offset`. -/
def span (element : Element) (offset : Nat) : Range :=
  let start := offset + element.leadingWidth
  ⟨start, max start (offset + element.width - element.trailingWidth)⟩

/-- The text without the trivia at both ends; refused where trivia ends inside a character. -/
def text? (element : Element) : Option (List Char) :=
  let range := element.span 0
  Text.slice? range.start range.stop element.fullText

mutual

/-- Equality of all that two trees hold, with numbers compared as numbers. -/
def same : Element → Element → Bool
  | .leaf a, .leaf b => a.same b
  | .node kind slots diagnostics, .node kind' slots' diagnostics' =>
    kind == kind' && diagnostics == diagnostics' && sameSlots slots slots'
  | _, _ => false

def sameSlots : List (Option Element) → List (Option Element) → Bool
  | [], [] => true
  | none :: rest, none :: rest' => sameSlots rest rest'
  | some a :: rest, some b :: rest' => a.same b && sameSlots rest rest'
  | _, _ => false

end

mutual

def decEq : (a b : Element) → Decidable (a = b)
  | .leaf a, .leaf b => decidable_of_iff (a = b) (by simp)
  | .node kind slots diagnostics, .node kind' slots' diagnostics' =>
    have := decEqSlots slots slots'
    decidable_of_iff (kind = kind' ∧ slots = slots' ∧ diagnostics = diagnostics') (by simp)
  | .leaf _, .node .. | .node .., .leaf _ => isFalse (by simp)

def decEqSlots : (a b : List (Option Element)) → Decidable (a = b)
  | [], [] => isTrue rfl
  | none :: rest, none :: rest' =>
    have := decEqSlots rest rest'
    decidable_of_iff (rest = rest') (by simp)
  | some a :: rest, some b :: rest' =>
    have := decEq a b
    have := decEqSlots rest rest'
    decidable_of_iff (a = b ∧ rest = rest') (by simp)
  | none :: _, some _ :: _ | some _ :: _, none :: _ | [], _ :: _ | _ :: _, [] => isFalse (by simp)

end

instance : DecidableEq Element := decEq

def render (element : Element) : String := element.kind.name ++ "@" ++ toString element.width

@[simp]
theorem slotTokens_append (a b : List (Option Element)) :
    slotTokens (a ++ b) = slotTokens a ++ slotTokens b := by
  induction a with
  | nil => rfl
  | cons slot a ih => cases slot <;> simp [slotTokens, ih]

mutual

theorem width_eq : (element : Element) → element.width = Text.byteSize element.fullText
  | .leaf token => by simp [width, fullText, tokens, Token.width]
  | .node _ slots _ => by rw [width, slotsWidth_eq slots, fullText, tokens]

theorem slotsWidth_eq : (slots : List (Option Element)) →
    slotsWidth slots = Text.byteSize ((slotTokens slots).flatMap Token.text)
  | [] => rfl
  | none :: rest => by rw [slotsWidth, slotsWidth_eq rest, slotTokens]
  | some element :: rest => by
    rw [slotsWidth, width_eq element, slotsWidth_eq rest, slotTokens, List.flatMap_append,
      Text.byteSize_append, fullText]

end

@[simp]
theorem slotsWidth_append (a b : List (Option Element)) :
    slotsWidth (a ++ b) = slotsWidth a + slotsWidth b := by
  simp [slotsWidth_eq]

theorem bounded?_of_le {bytes : Nat} (fits : bytes ≤ Diagnostic.offsetLimit) :
    bounded? bytes = some bytes := if_pos fits

mutual

theorem width?_eq : (element : Element) → element.width? = bounded? element.width
  | .leaf token => rfl
  | .node _ slots _ => by
    rw [width?, slotsWidth?_eq slots (Nat.zero_le _), width, Nat.zero_add]

private theorem slotsWidth?_eq : (slots : List (Option Element)) → {total : Nat} →
    (fits : total ≤ Diagnostic.offsetLimit) →
    slotsWidth? slots total = bounded? (total + slotsWidth slots)
  | [], total, fits => (bounded?_of_le fits).symm
  | none :: rest, total, fits => slotsWidth?_eq rest fits
  | some element :: rest, total, fits => by
    rw [slotsWidth?, slotsWidth, width?_eq element]
    by_cases sum : total + element.width ≤ Diagnostic.offsetLimit
    · have own : element.width ≤ Diagnostic.offsetLimit := by omega
      simp only [bounded?_of_le own, bounded?_of_le sum, Option.bind_eq_bind, Option.bind_some,
        slotsWidth?_eq rest sum, Nat.add_assoc]
    · have all : ¬total + (element.width + slotsWidth rest) ≤ Diagnostic.offsetLimit := by omega
      by_cases own : element.width ≤ Diagnostic.offsetLimit
      · simp [bounded?, own, sum, all]
      · simp [bounded?, own, all]

end

theorem width?_isSome_iff {element : Element} :
    element.width?.isSome = true ↔ element.width ≤ Diagnostic.offsetLimit := by
  rw [width?_eq, bounded?]
  split <;> simp_all

theorem slotOffset?_eq (element : Element) (index : Nat) :
    element.slotOffset? index = bounded? (element.slotOffset index) := by
  rw [slotOffset?, slotsWidth?_eq _ (Nat.zero_le _), Nat.zero_add, slotOffset]

theorem slotOffset_le_width (element : Element) (index : Nat) :
    element.slotOffset index ≤ element.width := by
  cases element with
  | leaf token => simp [slotOffset, slots, slotsWidth]
  | node kind slots diagnostics =>
    calc slotsWidth (slots.take index)
      _ ≤ slotsWidth (slots.take index) + slotsWidth (slots.drop index) := Nat.le_add_right _ _
      _ = slotsWidth slots := by rw [← slotsWidth_append, List.take_append_drop]

mutual

theorem firstToken?_eq : (element : Element) →
    element.firstToken? = element.tokens.find? (·.width != 0)
  | .leaf token => by by_cases wide : token.width = 0 <;> simp [firstToken?, tokens, wide]
  | .node _ slots _ => firstIn?_eq slots

theorem firstIn?_eq : (slots : List (Option Element)) →
    firstIn? slots = (slotTokens slots).find? (·.width != 0)
  | [] => rfl
  | none :: rest => firstIn?_eq rest
  | some element :: rest => by
    rw [firstIn?, firstToken?_eq element, firstIn?_eq rest, slotTokens, List.find?_append]

end

mutual

theorem lastToken?_eq : (element : Element) →
    element.lastToken? = element.tokens.reverse.find? (·.width != 0)
  | .leaf token => by by_cases wide : token.width = 0 <;> simp [lastToken?, tokens, wide]
  | .node _ slots _ => lastIn?_eq slots

theorem lastIn?_eq : (slots : List (Option Element)) →
    lastIn? slots = (slotTokens slots).reverse.find? (·.width != 0)
  | [] => rfl
  | none :: rest => lastIn?_eq rest
  | some element :: rest => by
    rw [lastIn?, lastToken?_eq element, lastIn?_eq rest, slotTokens, List.reverse_append,
      List.find?_append]

end

/-- The tokens of a node whose slots are all filled. -/
@[simp]
theorem tokens_ofChildren (kind : Kind) (children : List Element) :
    (ofChildren kind children).tokens = children.flatMap tokens := by
  simp only [ofChildren, tokens]
  induction children with
  | nil => rfl
  | cons child children ih => simp [slotTokens, ih]

end Element

end MatrixScript
