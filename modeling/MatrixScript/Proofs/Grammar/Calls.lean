import Mathlib.Logic.Relation
import MatrixScript.Proofs.Grammar.Recursion

/-!
Which rule of the grammar comes to which.

A rule for statements or members reads a word and what belongs to it, and comes to a rule for what
stands inside; or it gets past a part and goes on. `Rule.Leads` is one such step, on rules with the
states in which they stand, and `Rule.Reaches` is any number of them. From outside a class only the
word `classdef` leads to its members.
-/

set_option autoImplicit false

namespace MatrixScript.Grammar

/-- What a class or a block of its members is made of. -/
inductive ClassBody where
  /-- A class, which is made of blocks of members. -/
  | blocks
  | methods
  | events
  | enumerators
  deriving DecidableEq, Repr

namespace ClassBody

def member (block : Parse Element) : ClassBody → Parse Element
  | .blocks => classMember block
  | .methods => method block
  | .events => event
  | .enumerators => enumerator

/-- Whether a member starts with the current token. Words are identifiers as well. -/
def admits : ClassBody → State → Bool
  | .blocks, s => ["properties", "methods", "events", "enumeration"].any s.isAtWord
  | .methods, s => s.isAt .identifier || s.isAt .openSquareBracket
  | .events, s => s.isAt .identifier
  | .enumerators, s => s.isAt .identifier

/-- Whether the current token stands where a member should and is none: it does not end the body,
separates no members and starts none. -/
def refuses (body : ClassBody) (s : State) : Bool :=
  !s.isAtEnd && !s.isAtWord "end" && !s.isAtSeparator && !body.admits s

end ClassBody

/-- The rules in which a script can fail. -/
inductive Rule where
  | statements (scope : Scope)
  /-- The alternatives of a condition, after its first statements. -/
  | alternatives
  | cases
  /-- What handles an error, after the statements that are tried. -/
  | handler
  | members (body : ClassBody)
  deriving DecidableEq, Repr

/-! What stands before the statements or members inside. -/

def wordHead : Read Unit := do
  let _ ← advance
  let _ ← eatSeparator

def clauseHead (inside : Bool) : Read Unit := do
  let _ ← advance
  let _ ← expression inside
  let _ ← eatSeparator

def functionHead : Read Unit := do
  let _ ← advance
  let _ ← signature

def handlerHead : Read Unit := do
  let _ ← advance
  let _ ← eatIf fun state =>
    !state.previousEndsLine && !state.isAtTerminator && state.isAt .identifier
  let _ ← eatSeparator

def optionally (test : State → Bool) (part : Read Element) : Read Unit := do
  if test (← get) then let _ ← part

def memberHead : Read Unit := do
  let _ ← advance
  optionally (fun state => state.isAt .openParenthesis && !state.previousEndsLine) attributeList

def classHead : Read Unit := do
  let _ ← advance
  optionally (·.isAt .openParenthesis) attributeList
  let _ ← expect .identifier
  optionally (·.isAt .less) baseClassList

instance : Forward wordHead := by
  unfold wordHead
  infer_instance

instance (inside : Bool) : Forward (clauseHead inside) := by
  unfold clauseHead
  infer_instance

instance : Forward functionHead := by
  unfold functionHead
  infer_instance

instance : Forward handlerHead := by
  unfold handlerHead
  infer_instance

instance (test : State → Bool) (part : Read Element) [Forward part] :
    Forward (optionally test part) := by
  unfold optionally
  infer_instance

instance : Forward memberHead := by
  unfold memberHead
  infer_instance

instance : Forward classHead := by
  unfold classHead
  infer_instance

/-- A word and all that is read from it up to another rule. -/
structure Way where
  word : String
  part : Parse Unit
  inner : Rule

namespace Rule

variable (inside : Bool)

def ways : Rule → List Way
  | .statements _ => [
    ⟨"function", functionHead, .statements .block⟩,
    ⟨"classdef", classHead, .members .blocks⟩,
    ⟨"switch", clauseHead inside, .cases⟩,
    ⟨"while", clauseHead inside, .statements .block⟩,
    ⟨"if", clauseHead inside, .statements .block⟩,
    ⟨"if", do let _ ← clause (block inside) inside, .alternatives⟩,
    ⟨"for", clauseHead inside, .statements .block⟩,
    ⟨"parfor", clauseHead inside, .statements .block⟩,
    ⟨"try", wordHead, .statements .block⟩,
    ⟨"try", do wordHead; let _ ← block inside, .handler⟩]
  | .alternatives => [
    ⟨"elseif", clauseHead inside, .statements .block⟩,
    ⟨"else", (do let _ ← advance : Read Unit), .statements .block⟩]
  | .cases => [
    ⟨"case", clauseHead inside, .statements .block⟩,
    ⟨"otherwise", wordHead, .statements .block⟩]
  | .handler => [⟨"catch", handlerHead, .statements .block⟩]
  | .members .blocks => [
    ⟨"properties", memberHead, .statements .block⟩,
    ⟨"methods", memberHead, .members .methods⟩,
    ⟨"events", memberHead, .members .events⟩,
    ⟨"enumeration", memberHead, .members .enumerators⟩]
  | .members .methods => [⟨"function", functionHead, .statements .block⟩]
  | .members .events => []
  | .members .enumerators => []

/-- One round of the loop of a rule, after some elements. -/
def step : Rule → List Element → Parse (Option (List Element))
  | .statements scope => statementStep (block inside) inside scope
  | .alternatives => elseifStep (block inside) inside
  | .cases => switchStep (block inside) inside
  | .handler => fun _ => pure none
  | .members body => memberStep (body.member (block inside))

def ending : Rule → Parse Unit
  | .alternatives => do let _ ← elseClause (block inside)
  | .handler => do let _ ← catchClause (block inside)
  | .statements _ | .cases | .members _ => pure ()

def parser (rule : Rule) : Parse Unit := do
  let _ ← repeatParse (rule.step inside) []
  rule.ending inside

/-- One step from a rule to a rule: a round that goes on, or the way to a rule inside. -/
inductive Leads : Rule × State → Rule × State → Prop
  | further {rule : Rule} {s t : State} {elements : List Element}
      (goesOn : outcome (rule.step inside []) s = .ok (some elements, t)) :
      Leads (rule, s) (rule, t)
  | within {rule : Rule} {s t : State} {way : Way} (member : way ∈ rule.ways inside)
      (here : s.isAtWord way.word = true) (opens : outcome way.part s = .ok ((), t)) :
      Leads (rule, s) (way.inner, t)

/-- Whether a rule stands at a token that is no member of a class. -/
def refuses : Rule → State → Bool
  | .members body, s => body.refuses s
  | .statements _, _ | .alternatives, _ | .cases, _ | .handler, _ => false

instance (body : ClassBody) (block : Parse Element) [Forward block] :
    Forward (body.member block) := by
  cases body <;> unfold ClassBody.member <;> infer_instance

instance (rule : Rule) (elements : List Element) : Forward (rule.step inside elements) := by
  cases rule <;> unfold step <;> infer_instance

theorem steady_step (rule : Rule) : Steady (rule.step inside) := by
  cases rule with
  | statements scope => exact Steady.statementStep (block inside) inside scope
  | alternatives => exact Steady.elseifStep (block inside) inside
  | cases => exact Steady.switchStep (block inside) inside
  | handler => exact ⟨fun _ _ _ => Gives.pure (by simp), fun _ _ _ _ => rfl⟩
  | members body =>
    refine Steady.memberStep fun s _ more => ?_
    cases body with
    | blocks => exact Uses.classMember (block inside) more
    | methods => exact Uses.method (block inside) more
    | events => exact Uses.event more
    | enumerators => exact Uses.enumerator more

end Rule

namespace Rule

variable {inside : Bool} {rule : Rule} {s : State}

private theorem part_uses {way : Way} (member : way ∈ rule.ways inside) (more : s.rest ≠ []) :
    Forward way.part ∧ Uses way.part s := by
  have head {next : Token → Read Unit} [∀ token, Forward (next token)] :
      Forward (liftM (advance >>= next) : Parse Unit) ∧
        Uses (liftM (advance >>= next) : Parse Unit) s :=
    ⟨inferInstance, (Uses.advance more).andThen.lift⟩
  cases rule with
  | statements scope =>
    simp only [ways, List.mem_cons, List.not_mem_nil, or_false] at member
    rcases member with rfl | rfl | rfl | rfl | rfl | rfl | rfl | rfl | rfl | rfl
    · exact head
    · exact head
    · exact head
    · exact head
    · exact head
    · exact ⟨inferInstance, (Uses.clause (block inside) more inside).andThen⟩
    · exact head
    · exact head
    · exact head
    · exact ⟨inferInstance, head.2.andThen⟩
  | alternatives =>
    simp only [ways, List.mem_cons, List.not_mem_nil, or_false] at member
    rcases member with rfl | rfl <;> exact head
  | cases =>
    simp only [ways, List.mem_cons, List.not_mem_nil, or_false] at member
    rcases member with rfl | rfl <;> exact head
  | handler =>
    simp only [ways, List.mem_cons, List.not_mem_nil, or_false] at member
    rw [member]
    exact head
  | members body =>
    cases body <;> simp only [ways, List.mem_cons, List.not_mem_nil, or_false] at member
    case blocks => rcases member with rfl | rfl | rfl | rfl <;> exact head
    case methods =>
      rw [member]
      exact head

private theorem word_of_members {way : Way} (member : way ∈ rule.ways inside) {body : ClassBody}
    (inner : way.inner = .members body) (outside : ∀ body, rule ≠ .members body) :
    way.word = "classdef" := by
  cases rule <;> simp only [ways, List.mem_cons, List.not_mem_nil, or_false] at member
  case members body => exact absurd rfl (outside body)
  case statements =>
    rcases member with rfl | rfl | rfl | rfl | rfl | rfl | rfl | rfl | rfl | rfl <;>
      first | rfl | cases inner
  case alternatives => rcases member with rfl | rfl <;> cases inner
  case cases => rcases member with rfl | rfl <;> cases inner
  case handler =>
    subst member
    cases inner

namespace Leads

variable {before after : Rule × State}

theorem moves (leads : Leads inside before after) (ends : before.2.eof.kind = .eof) :
    before.2.Moves after.2 ∧ after.2.rest.length < before.2.rest.length := by
  cases leads with
  | @further rule s t elements goesOn =>
    exact ⟨Forward.moves (f := rule.step inside []) s _ _ goesOn,
      (rule.steady_step inside).uses [] s ends _ _ goesOn rfl⟩
  | @within rule s t way member here opens =>
    obtain ⟨forward, uses⟩ := part_uses member (State.more_of_isAtWord ends here)
    exact ⟨forward.moves s _ _ opens, uses _ _ opens⟩

end Leads

abbrev Reaches (inside : Bool) : Rule × State → Rule × State → Prop :=
  Relation.ReflTransGen (Leads inside)

theorem Reaches.moves {before after : Rule × State} (reaches : Reaches inside before after)
    (ends : before.2.eof.kind = .eof) : before.2.Moves after.2 := by
  induction reaches with
  | refl => exact .refl _
  | tail _ leads ih => exact ih.trans (leads.moves (ih.ends ends)).1

theorem Reaches.isAtClass {before after : Rule × State} (reaches : Reaches inside before after)
    (ends : before.2.eof.kind = .eof) {body : ClassBody} (members : after.1 = .members body)
    (outside : ∀ body, before.1 ≠ .members body) :
    ∃ s, before.2.Moves s ∧ s.isAtWord "classdef" = true := by
  induction reaches using Relation.ReflTransGen.head_induction_on with
  | refl => exact absurd members (outside body)
  | @head before between leads _ ih =>
    obtain ⟨moves, -⟩ := leads.moves ends
    by_cases inner : ∃ body, between.1 = .members body
    · obtain ⟨body, inner⟩ := inner
      cases leads with
      | further goesOn => exact absurd inner (outside body)
      | @within rule s t way member here opens =>
        refine ⟨s, .refl s, ?_⟩
        rw [← word_of_members member inner outside]
        exact here
    · obtain ⟨s, later, here⟩ := ih (moves.ends ends) fun body same => inner ⟨body, same⟩
      exact ⟨s, moves.trans later, here⟩

end Rule

end MatrixScript.Grammar
