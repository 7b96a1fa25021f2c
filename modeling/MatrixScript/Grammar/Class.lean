import MatrixScript.Grammar.Expression

/-!
Class declarations: attributes, base classes, and the blocks of members.

A class body has no place for other tokens, and one that stands there is a failure.
-/

set_option autoImplicit false

namespace MatrixScript.Grammar

def attributeAssignment (equals : Token) : Read Element := do
  let value ← expression false
  return .ofChildren .attributeAssignment [.leaf equals, value]

/-- The value of an attribute, which can be left out. -/
def attributeValue : Read (Option Element) := do
  match ← eat .equals with
  | some equals => some <$> attributeAssignment equals
  | none => return none

/-- A name, with `~` before it or a value after it. -/
def classAttribute : Read Element := do
  let negation ← eat .tilde
  let name ← expect .identifier
  let assignment ← attributeValue
  let slots := [negation.map .leaf, some (.leaf name), assignment]
  return .node .attribute slots []

def attributeItem : Read (List Element) := do
  let state ← get
  if state.isAt .comma then return [.leaf (← advance)]
  else if state.isAt .identifier || state.isAt .tilde then return [← classAttribute]
  else return [← errorNode .closeParenthesis]

def attributeList : Read Element := do
  let opening ← advance
  let attributes ← listUntil .closeParenthesis fun _ => attributeItem
  let closing ← expect .closeParenthesis
  return .ofChildren .attributeList [.leaf opening, attributes, .leaf closing]

def baseClassStep (bases : List Element) : Read (Option (List Element)) := do
  match ← eat .ampersand with
  | some ampersand => return some (bases ++ [.leaf ampersand, ← compoundName])
  | none => return none

def baseClassList : Read Element := do
  let less ← advance
  let first ← compoundName
  let bases ← repeatRead baseClassStep [first]
  return .ofChildren .baseClassList [.leaf less, .list bases]

/-- The failure at a token that is no member of a class. -/
def State.unexpectedMember (state : State) : Failure :=
  let current := state.current
  ⟨⟨.unexpectedClassMember (current.token.trimmed?.getD []), current.range⟩⟩

/-- One more member, unless `end` or the end of the text comes next. -/
def memberStep (member : Parse Element) (elements : List Element) :
    Parse (Option (List Element)) := do
  let state ← get
  if state.isAtEnd || state.isAtWord "end" then return none
  else return some (elements ++ [← member])

def members (member : Parse Element) : Parse Element := do
  let elements ← repeatParse (memberStep member) []
  return .list elements

/-- A member that is a `;` or `,`, or else read by `other`. -/
def separatorOr (other : Parse Element) : Parse Element := do
  if (← get).isAtSeparator then return .leaf (← advance) else other

/-- A block of members: its word, attributes on the same line, the members, and `end`. -/
def memberBlock (kind : Kind) (items : Parse Element) : Parse Element := do
  let keyword ← advance
  let state ← get
  let hasAttributes := state.isAt .openParenthesis && !state.previousEndsLine
  let attributes ← if hasAttributes then some <$> attributeList else pure none
  let body ← items
  let closing ← expectWord "end"
  return .node kind [some (.leaf keyword), attributes, some body, some (.leaf closing)] []

def method (block : Parse Element) : Parse Element := separatorOr do
  let state ← get
  if state.isAtWord "function" then functionDeclaration block .methodDefinition
  else if state.isAt .identifier || state.isAt .openSquareBracket then abstractMethodDeclaration
  else throw state.unexpectedMember

def event : Parse Element := separatorOr do
  let state ← get
  if state.isAt .identifier then return .leaf (← advance) else throw state.unexpectedMember

def enumerationValue : Read Element := do
  let inner := expressionWithin ((← get).rest.length + 1)
  return .ofChildren .enumerationItemValue (← arguments inner .closeParenthesis)

def enumerationItem : Read Element := do
  let name ← advance
  let state ← get
  let hasValue := state.isAt .openParenthesis && !state.previousEndsLine
  let value ← if hasValue then some <$> enumerationValue else pure none
  return .node .enumerationItem [some (.leaf name), value] []

def enumerator : Parse Element := separatorOr do
  let state ← get
  if state.isAt .identifier then enumerationItem else throw state.unexpectedMember

/-- A block of properties, methods, events or enumerators. -/
def classMember (block : Parse Element) : Parse Element := separatorOr do
  let state ← get
  if state.isAtWord "properties" then memberBlock .propertiesList block
  else if state.isAtWord "methods" then memberBlock .methodsList (members (method block))
  else if state.isAtWord "events" then memberBlock .eventsList (members event)
  else if state.isAtWord "enumeration" then memberBlock .enumerationList (members enumerator)
  else throw state.unexpectedMember

/-- `classdef`, attributes, name, base classes, members and `end`. -/
def classDeclaration (block : Parse Element) : Parse Element := do
  let keyword ← advance
  let attributes ← if (← get).isAt .openParenthesis then some <$> attributeList else pure none
  let name ← expect .identifier
  let bases ← if (← get).isAt .less then some <$> baseClassList else pure none
  let body ← members (classMember block)
  let closing ← expectWord "end"
  return .node .classDeclaration [some (.leaf keyword), attributes, some (.leaf name), bases,
    some body, some (.leaf closing)] []

end MatrixScript.Grammar
