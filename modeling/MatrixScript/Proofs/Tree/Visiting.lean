import MatrixScript.Proofs.Tree.Pruning
import MatrixScript.Proofs.Tree.Stretches
import MatrixScript.Tree.Visitor

/-!
Visits and walks meet the same elements.

A visitor goes down a tree by calling itself, and a walk keeps a stack. A visitor that records its
calls and leaves everything open is called for the nodes and the tokens that a walk without skips
enters, in the same order (`Visitor.visit_observes`). It goes on into the trivia of a token, so it is
refused where trivia ends inside a character, and there only.
-/

set_option autoImplicit false

namespace MatrixScript

/-- What a visitor is called for. -/
inductive VisitCall where
  | viewed (place : Located)
  | plain (place : Located)
  | token (place : Located)
  | trivia (piece : Located.Trivia)
  deriving DecidableEq, Repr

namespace VisitCall

/-- The node that is visited: through the call for nodes with parts, or through the call for any
node if it has none. -/
def node? : VisitCall → Option Located
  | .viewed place => some place
  | .plain place => if place.kind.hasView then none else some place
  | .token _ | .trivia _ => none

def token? : VisitCall → Option Located
  | .token place => some place
  | .viewed _ | .plain _ | .trivia _ => none

def ofNode (place : Located) : List VisitCall :=
  if place.kind.hasView then [.viewed place, .plain place] else [.plain place]

/-- The calls for an element itself, if those for a token are known. -/
def of? (ofToken? : Located → Option (List VisitCall)) (place : Located) :
    Option (List VisitCall) :=
  if place.isNode then some (ofNode place) else ofToken? place

def ofTrivia? (place : Located) : Option (List VisitCall) :=
  place.trivia?.map fun pieces => .token place :: pieces.map .trivia

end VisitCall

namespace Visitor

/-- Records the trivia that it is called for, and leaves everything else open. -/
def observingTrivia : Visitor (List VisitCall) where
  trivia piece calls := calls ++ [.trivia piece]

/-- Records every call, and goes on like a visitor that leaves everything open. -/
def observing : Visitor (List VisitCall) where
  viewed place plain calls := plain (calls ++ [.viewed place])
  plain place walk calls := walk (calls ++ [.plain place])
  token place calls := observingTrivia.token place (calls ++ [.token place])

/-- Records every call for a node or a token, and goes no further into tokens. -/
def observingElements : Visitor (List VisitCall) :=
  { observing with token := fun place calls => some (calls ++ [.token place]) }

section

variable {σ : Type} (visitor : Visitor σ)

def visitPlace (place : Located) (state : σ) : Option σ :=
  visitor.visitAt place.element place.offset place.trail state

private theorem visitSlots_eq_foldlM (parent : Element) (start : Nat) (trail : List Crumb)
    (slots : List (Option Element)) (index offset : Nat) (state : σ) :
    visitor.visitSlots parent start trail slots index offset state =
      (Located.row parent start trail slots index offset).foldlM
        (fun state child => visitor.visitPlace child state) state := by
  induction slots generalizing index offset state with
  | nil => rfl
  | cons slot slots ih =>
    cases slot with
    | none => rw [visitSlots, Located.row, ih]
    | some element =>
      rw [visitSlots, Located.row, List.foldlM_cons]
      exact congrArg (Option.bind _) (funext fun state => ih _ _ state)

private theorem visitPlace_of_not_isNode {place : Located} (leaf : place.isNode = false)
    (state : σ) :
    visitor.visitPlace place state = visitor.token place state := by
  obtain ⟨_ | _, offset, trail⟩ := place
  · rw [visitPlace, visitAt]
  · cases leaf

private theorem visitPlace_of_isNode {place : Located} (isNode : place.isNode = true) (state : σ) :
    visitor.visitPlace place state =
      (if place.kind.hasView then
        visitor.viewed place (visitor.plain place (place.children.foldlM fun state child =>
          visitor.visitPlace child state)) state
      else visitor.plain place (place.children.foldlM fun state child =>
        visitor.visitPlace child state) state) := by
  rw [← Located.row_slots]
  obtain ⟨_ | ⟨kind, slots, diagnostics⟩, offset, trail⟩ := place
  · cases isNode
  · rw [visitPlace, visitAt]
    simp only [visitSlots_eq_foldlM]
    rfl

end

section

variable {visitor : Visitor (List VisitCall)} {ofToken? : Located → Option (List VisitCall)}

private theorem visitPlace_eq_mapM
    (viewed : ∀ place plain calls, visitor.viewed place plain calls =
      plain (calls ++ [.viewed place]))
    (plain : ∀ place walk calls, visitor.plain place walk calls = walk (calls ++ [.plain place]))
    (token : ∀ place calls, visitor.token place calls = (ofToken? place).map (calls ++ ·))
    (place : Located) (calls : List VisitCall) :
    visitor.visitPlace place calls =
      (place.preorder.mapM (VisitCall.of? ofToken?)).map fun each => calls ++ each.flatten := by
  induction place using Located.induction generalizing calls with
  | step place ih =>
    have row (children : List Located) (known : children ⊆ place.children)
        (calls : List VisitCall) :
        children.foldlM (fun calls child => visitor.visitPlace child calls) calls =
          ((children.flatMap Located.preorder).mapM (VisitCall.of? ofToken?)).map
            fun each => calls ++ each.flatten := by
      induction children generalizing calls with
      | nil => simp
      | cons child children rowIh =>
        rw [List.cons_subset] at known
        rw [List.foldlM_cons, ih child known.1, List.flatMap_cons, List.mapM_append]
        cases child.preorder.mapM (VisitCall.of? ofToken?) with
        | none => rfl
        | some each =>
          have further := rowIh known.2 (calls ++ each.flatten)
          simp only [Option.map_some, Option.bind_eq_bind, Option.bind_some, further]
          cases (children.flatMap Located.preorder).mapM (VisitCall.of? ofToken?) <;> simp
    cases isNode : place.isNode with
    | false =>
      rw [visitPlace_of_not_isNode _ isNode, token, Located.preorder_of_not_isNode isNode]
      cases same : ofToken? place <;> simp [VisitCall.of?, isNode, same]
    | true =>
      have below := row place.children (List.Subset.refl _)
      have here : VisitCall.of? ofToken? place = some (VisitCall.ofNode place) := by
        rw [VisitCall.of?, if_pos isNode]
      rw [visitPlace_of_isNode _ isNode, Located.preorder_eq, List.mapM_cons, here]
      simp only [viewed, plain, below, VisitCall.ofNode]
      cases (place.children.flatMap Located.preorder).mapM (VisitCall.of? ofToken?) <;>
        cases place.kind.hasView <;> simp

end

end Visitor

namespace VisitCall

variable {ofToken? : Located → Option (List VisitCall)} {places : List Located}

private theorem filterMap_flatten
    (own : ∀ place found, ofToken? place = some found →
      found.filterMap token? = [place] ∧ found.filterMap node? = [])
    {each : List (List VisitCall)} (made : places.mapM (of? ofToken?) = some each) :
    each.flatten.filterMap token? = places.filter (!·.isNode) ∧
      each.flatten.filterMap node? = places.filter Located.isNode := by
  induction places generalizing each with
  | nil =>
    obtain rfl := Option.some.inj made
    exact ⟨rfl, rfl⟩
  | cons place places ih =>
    rw [List.mapM_cons, Option.bind_eq_bind, Option.bind_eq_some_iff] at made
    obtain ⟨here, found, made⟩ := made
    rw [Option.bind_eq_bind, Option.bind_eq_some_iff] at made
    obtain ⟨later, made, same⟩ := made
    obtain rfl := Option.some.inj same
    obtain ⟨tokens, nodes⟩ := ih made
    rw [List.flatten_cons, List.filterMap_append, List.filterMap_append, tokens, nodes]
    cases isNode : place.isNode with
    | true =>
      rw [of?, if_pos isNode, Option.some.injEq, ofNode] at found
      subst found
      cases view : place.kind.hasView <;> simp [isNode, token?, node?, view]
    | false =>
      rw [of?, isNode, if_neg Bool.false_ne_true] at found
      obtain ⟨token, node⟩ := own place here found
      simp [isNode, token, node]

private theorem mapM_eq_none :
    places.mapM (of? ofToken?) = none ↔
      ∃ place ∈ places.filter (!·.isNode), ofToken? place = none := by
  induction places with
  | nil => simp
  | cons place places ih =>
    have either : (place :: places).mapM (of? ofToken?) = none ↔
        of? ofToken? place = none ∨ places.mapM (of? ofToken?) = none := by
      rw [List.mapM_cons]
      cases of? ofToken? place <;> cases places.mapM (of? ofToken?) <;> simp
    rw [either, ih]
    cases isNode : place.isNode <;> simp [of?, isNode]

end VisitCall

open VisitCall

/-- The calls of a visitor are for the nodes and the tokens of a tree, each in order. -/
structure Sees (root : Element) (calls : List VisitCall) : Prop where
  tokens : calls.filterMap token? = (Located.root root).descendantTokens
  nodes : calls.filterMap node? = (Located.root root).descendants

namespace Visitor

private theorem observing_token (place : Located) (calls : List VisitCall) :
    observing.token place calls = (ofTrivia? place).map (calls ++ ·) := by
  have recorded (pieces : List Located.Trivia) (calls : List VisitCall) :
      pieces.foldl (fun calls piece => calls ++ [VisitCall.trivia piece]) calls =
        calls ++ pieces.map .trivia := by
    induction pieces generalizing calls with
    | nil => simp
    | cons piece pieces ih => rw [List.foldl_cons, ih, List.map_cons, List.append_assoc]; rfl
  rw [ofTrivia?, Option.map_map]
  refine congrArg (Option.map · place.trivia?) (funext fun pieces => ?_)
  exact (recorded pieces _).trans (List.append_assoc _ _ _)

private theorem visit_observing (root : Element) : observing.visit root [] =
    ((Located.root root).preorder.mapM (of? ofTrivia?)).map fun each => [] ++ each.flatten :=
  visitPlace_eq_mapM (fun _ _ _ => rfl) (fun _ _ _ => rfl) observing_token (Located.root root) []

private theorem observingElements_sees (root : Element) :
    ∃ calls, observingElements.visit root [] = some calls ∧ Sees root calls := by
  have visited : observingElements.visit root [] =
      ((Located.root root).preorder.mapM (of? fun place => some [.token place])).map
        fun each => [] ++ each.flatten :=
    visitPlace_eq_mapM (fun _ _ _ => rfl) (fun _ _ _ => rfl) (fun _ _ => rfl) (Located.root root) []
  cases made : (Located.root root).preorder.mapM (of? fun place => some [.token place]) with
  | none =>
    obtain ⟨place, -, nothing⟩ := mapM_eq_none.mp made
    cases nothing
  | some each =>
    obtain ⟨tokens, nodes⟩ := filterMap_flatten (by rintro place _ ⟨⟩; exact ⟨rfl, rfl⟩) made
    rw [made, Option.map_some, List.nil_append] at visited
    exact ⟨_, visited, tokens, nodes⟩

private theorem observing_sees (root : Element) :
    (observing.visit root [] = none ↔
      ∃ token ∈ (Located.root root).descendantTokens, token.trivia? = none) ∧
    ∀ calls, observing.visit root [] = some calls → Sees root calls := by
  have own (place : Located) (found : List VisitCall) (made : ofTrivia? place = some found) :
      found.filterMap token? = [place] ∧ found.filterMap node? = [] := by
    obtain ⟨pieces, -, rfl⟩ := Option.map_eq_some_iff.mp made
    have silent (f : VisitCall → Option Located) (nothing : ∀ piece, f (.trivia piece) = none) :
        (pieces.map VisitCall.trivia).filterMap f = [] := by
      rw [List.filterMap_map, List.filterMap_eq_nil_iff]
      exact fun piece _ => nothing piece
    exact ⟨congrArg (place :: ·) (silent token? fun _ => rfl), silent node? fun _ => rfl⟩
  rw [visit_observing, Option.map_eq_none_iff, mapM_eq_none]
  refine ⟨?_, fun calls visited => ?_⟩
  · simp only [ofTrivia?, Option.map_eq_none_iff, Located.descendantTokens]
  · obtain ⟨each, made, rfl⟩ := Option.map_eq_some_iff.mp visited
    obtain ⟨tokens, nodes⟩ := filterMap_flatten own made
    exact ⟨tokens, nodes⟩

/-- A visitor and a walk meet the same elements of every tree. In a parsed tree a visitor goes into
all trivia, and the stretches of the tokens that it sees make up the text: their ranges tile it, and
each is the text at its range. -/
theorem visit_observes :
    (∀ root, ∃ events calls, Walk.Tells (.root root) (fun _ => 0) events ∧
      observingElements.visit root [] = some calls ∧ Sees root calls ∧
      (WalkEvent.entered events).filter (!·.isNode) = calls.filterMap token? ∧
      (WalkEvent.entered events).filter Located.isNode = calls.filterMap node?) ∧
    (∀ root, (observing.visit root [] = none ↔
        ∃ token ∈ (Located.root root).descendantTokens, token.trivia? = none) ∧
      ∀ calls, observing.visit root [] = some calls → Sees root calls) ∧
    ∀ text options name tree, Tree.parse text options name = .ok tree →
      ∃ calls stretches, observing.visit tree.root [] = some calls ∧ Sees tree.root calls ∧
        (calls.filterMap token?).mapM Located.stretches? = some stretches ∧
        stretches.flatten.flatMap Prod.fst = text ∧
        Range.Tile (stretches.flatten.map Prod.snd) 0 (Text.byteSize text) ∧
        ∀ stretch ∈ stretches.flatten,
          Text.slice? stretch.2.start stretch.2.stop text = some stretch.1 := by
  refine ⟨fun root => ?_, observing_sees, fun text options name tree parsed => ?_⟩
  · obtain ⟨events, tells⟩ := Walk.exists_tells (.root root) fun _ => 0
    obtain ⟨calls, visited, sees⟩ := observingElements_sees root
    exact ⟨events, calls, tells, visited, sees, by rw [tells.entered_eq, sees.tokens]; rfl,
      by rw [tells.entered_eq, sees.nodes]; rfl⟩
  · obtain ⟨stretches, found, each, covers⟩ := Tree.parse_covers parsed
    obtain ⟨refused, sees⟩ := observing_sees tree.root
    obtain ⟨calls, visited⟩ := Option.ne_none_iff_exists'.mp fun nothing => by
      obtain ⟨token, member, nothing⟩ := refused.mp nothing
      have some := Located.trivia?_isSome (each token member)
      rw [nothing] at some
      cases some
    have tile := covers.tile
    have slice := covers.slice [] Text.byteSize_nil
    rw [Nat.zero_add] at tile
    rw [List.nil_append, List.append_nil] at slice
    exact ⟨calls, stretches, visited, sees calls visited, by rwa [(sees calls visited).tokens],
      covers.text, tile, slice⟩

/-- A visitor sees a comment with a letter of two bytes, and an operand that is missing. -/
theorem visit_observes_comment :
    ∃ tree calls stretches, Tree.parse "% é\nx = \ty +".toList {} none = .ok tree ∧
      observing.visit tree.root [] = some calls ∧ Sees tree.root calls ∧
      (calls.filterMap token?).mapM Located.stretches? = some stretches ∧
      stretches.flatten.flatMap Prod.fst = "% é\nx = \ty +".toList ∧
      Range.Tile (stretches.flatten.map Prod.snd) 0 13 := by
  have ok : (Tree.parse "% é\nx = \ty +".toList {} none).toOption.any (fun _ => true) = true := by
    decide +kernel
  obtain ⟨tree, parsed, -⟩ := exists_ok_of_any ok
  obtain ⟨calls, stretches, visited, sees, found, whole, tile, -⟩ :=
    visit_observes.2.2 _ _ _ _ parsed
  exact ⟨tree, calls, stretches, parsed, visited, sees, found, whole, tile⟩

end Visitor

end MatrixScript
