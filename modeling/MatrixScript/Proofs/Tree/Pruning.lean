import Mathlib.Data.List.Infix
import MatrixScript.Proofs.Tree.Preorder
import MatrixScript.Tree.Walk

/-!
Walks that skip.

A schedule says how many skips stand in front of each call of a walk. Whatever the schedule, the
answers are finitely many events and then nothing for ever. Every leave is of the innermost element
entered and not left, and what is entered is what preorder meets, in its order, without what the
skips have cut off: a skip cuts off the children, not entered yet, of the innermost node entered and
not left.

`Follows` is what holds of a walk and of the events told so far. `Follows.step` keeps it over an
event and `Follows.skip` over a skip.
-/

set_option autoImplicit false

namespace MatrixScript

/-! What events say of what is entered and left. -/

namespace WalkEvent

def entered? : WalkEvent → Option Located
  | .enter place => some place
  | .leave _ => none

def entered (events : List WalkEvent) : List Located := events.filterMap entered?

def nestStep (nested : List Located) : WalkEvent → Option (List Located)
  | .enter place => some (place :: nested)
  | .leave place =>
    match nested with
    | [] => none
    | innermost :: outer => if innermost = place then some outer else none

/-- The elements entered and not left, innermost first. Refused where one is left that is not the
innermost of them. -/
def nest? (events : List WalkEvent) : Option (List Located) := events.foldlM nestStep []

def innermost? (events : List WalkEvent) : Option Located :=
  (nest? events).bind (List.find? Located.isNode)

/-- A skip after certain events cuts off the children of the innermost node that are not entered. -/
def CutOff (events : List WalkEvent) (place : Located) : Prop :=
  ∃ node, innermost? events = some node ∧ place ∈ node.children ∧ place ∉ entered events

def Pruned (schedule : Nat → Nat) (events : List WalkEvent) (place : Located) : Prop :=
  ∃ call top, 0 < schedule call ∧ CutOff (events.take call) top ∧ place ∈ top.preorder

/-- The events of a whole walk: well nested, from entering the start to leaving it, and no event
comes twice. -/
structure Bracketed (start : Located) (events : List WalkEvent) : Prop where
  first : events.head? = some (.enter start)
  last : events.getLast? = some (.leave start)
  nested : nest? events = some []
  nodup : events.Nodup
  matched (place : Located) : .enter place ∈ events ↔ .leave place ∈ events

/-- The line of an element, indented by twice a depth. -/
def line (depth : Nat) (place : Located) : String :=
  String.ofList (List.replicate (2 * depth) ' ') ++ place.outline

/-- Writes a line for each element entered and counts the nodes entered and not left. Refused where
the count would fall below zero. -/
def writeStep (state : Nat × List String) : WalkEvent → Option (Nat × List String)
  | .enter place =>
    some (if place.isNode then state.1 + 1 else state.1, state.2 ++ [line state.1 place])
  | .leave place =>
    if place.isNode then
      if state.1 = 0 then none else some (state.1 - 1, state.2)
    else some state

/-- The count and the lines after certain events. -/
def write? (events : List WalkEvent) : Option (Nat × List String) :=
  events.foldlM writeStep (0, [])

variable {past : List WalkEvent} {place : Located} {nested : List Located}

@[simp]
theorem entered_append (past later : List WalkEvent) :
    entered (past ++ later) = entered past ++ entered later := List.filterMap_append

@[simp]
theorem entered_enter (place : Located) : entered [.enter place] = [place] := rfl

@[simp]
theorem entered_leave (place : Located) : entered [.leave place] = [] := rfl

private theorem mem_entered : place ∈ entered past ↔ .enter place ∈ past := by
  rw [entered, List.mem_filterMap]
  constructor
  · rintro ⟨event, member, found⟩
    cases event with
    | enter other =>
      cases found
      exact member
    | leave other => cases found
  · exact fun member => ⟨_, member, rfl⟩

private theorem nest?_enter (nest : nest? past = some nested) :
    nest? (past ++ [.enter place]) = some (place :: nested) := by
  rw [nest?, List.foldlM_append, ← nest?, nest]
  rfl

private theorem nest?_leave (nest : nest? past = some (place :: nested)) :
    nest? (past ++ [.leave place]) = some nested := by
  rw [nest?, List.foldlM_append, ← nest?, nest]
  simp [nestStep]

private theorem nest?_append {event : WalkEvent} (nest : nest? (past ++ [event]) = some nested) :
    ∃ before, nest? past = some before ∧
      ((∃ place, event = .enter place ∧ nested = place :: before) ∨
        ∃ place, event = .leave place ∧ before = place :: nested) := by
  rw [nest?, List.foldlM_append, ← nest?, Option.bind_eq_bind, Option.bind_eq_some_iff] at nest
  obtain ⟨before, nest, step⟩ := nest
  rw [List.foldlM_cons, Option.bind_eq_bind, Option.bind_eq_some_iff] at step
  obtain ⟨after, step, last⟩ := step
  obtain rfl := Option.some.inj last
  refine ⟨before, nest, ?_⟩
  cases event with
  | enter place => exact Or.inl ⟨place, rfl, (Option.some.inj step).symm⟩
  | leave place =>
    cases before with
    | nil => cases step
    | cons innermost outer =>
      obtain ⟨rfl, same⟩ := Option.ite_none_right_eq_some.mp step
      exact Or.inr ⟨innermost, rfl, by rw [Option.some.inj same]⟩

private theorem count_enter (nest : nest? past = some nested) (place : Located) :
    past.count (.enter place) = past.count (.leave place) + nested.count place := by
  induction past using List.reverseRecOn generalizing nested with
  | nil =>
    obtain rfl := Option.some.inj nest
    rfl
  | append_singleton past event ih =>
    obtain ⟨before, earlier, ⟨other, rfl, rfl⟩ | ⟨other, rfl, rfl⟩⟩ := nest?_append nest
    · have counted := ih earlier
      simp only [List.count_append, List.count_cons, List.count_nil, beq_iff_eq,
        enter.injEq, reduceCtorEq, if_false]
      omega
    · have counted := ih earlier
      simp only [List.count_append, List.count_cons, List.count_nil, beq_iff_eq,
        leave.injEq, reduceCtorEq, if_false] at counted ⊢
      omega

private theorem count_entered (past : List WalkEvent) (place : Located) :
    past.count (.enter place) = (entered past).count place := by
  induction past using List.reverseRecOn with
  | nil => rfl
  | append_singleton past event ih =>
    cases event <;> simp [ih, List.count_singleton]

private theorem mem_entered_of_nest? (nest : nest? past = some nested) (member : place ∈ nested) :
    place ∈ entered past := by
  have counted := count_enter nest place
  have positive := List.count_pos_iff.mpr member
  rw [count_entered] at counted
  exact List.count_pos_iff.mp (by omega)

private theorem bracketed_of_nest? {start : Located} {events : List WalkEvent}
    (first : events.head? = some (.enter start)) (last : events.getLast? = some (.leave start))
    (nested : nest? events = some []) (nodup : (entered events).Nodup) :
    Bracketed start events := by
  have counted (place : Located) :
      events.count (.enter place) = events.count (.leave place) := count_enter nested place
  have most (place : Located) : events.count (.enter place) ≤ 1 := by
    rw [count_entered]
    exact List.nodup_iff_count_le_one.mp nodup place
  refine ⟨first, last, nested, List.nodup_iff_count_le_one.mpr fun event => ?_, fun place => ?_⟩
  · cases event with
    | enter place => exact most place
    | leave place => exact counted place ▸ most place
  · rw [← List.count_pos_iff, ← List.count_pos_iff, counted]

private theorem write?_enter {depth : Nat} {lines : List String}
    (written : write? past = some (depth, lines))
    (place : Located) :
    write? (past ++ [.enter place]) =
      some (if place.isNode then depth + 1 else depth, lines ++ [line depth place]) := by
  rw [write?, List.foldlM_append, ← write?, written]
  rfl

private theorem write?_leave {depth : Nat} {lines : List String}
    (written : write? past = some (depth, lines))
    (place : Located) :
    write? (past ++ [.leave place]) = writeStep (depth, lines) (.leave place) := by
  rw [write?, List.foldlM_append, ← write?, written]
  simp

end WalkEvent

open WalkEvent

namespace Walk

/-! The calls of a walk. -/

def skips (count : Nat) (walk : Walk) : Walk := skip^[count] walk

/-- A walk after some calls, with the skips of a schedule in front of each. -/
def after (walk : Walk) (schedule : Nat → Nat) : (calls : Nat) → Walk
  | 0 => walk
  | calls + 1 =>
    let skipped := (walk.after schedule calls).skips (schedule calls)
    skipped.next.elim skipped Prod.snd

def answer (walk : Walk) (schedule : Nat → Nat) (call : Nat) : Option WalkEvent :=
  ((walk.after schedule call).skips (schedule call)).next.map Prod.fst

def told (walk : Walk) (schedule : Nat → Nat) (calls : Nat) : List WalkEvent :=
  (List.range calls).filterMap (walk.answer schedule)

/-- One event of a walk: it begins, goes on to a child, leaves a token, or leaves a node. -/
inductive Step : Walk → WalkEvent → Walk → Prop
  | begin (stack : List WalkFrame) (place : Located) :
    Step ⟨stack, some (.enter place)⟩ (.enter place) (enter stack place).2
  | child (node child : Located) (todo : List Located) (outer : List WalkFrame) :
    Step ⟨⟨node, child :: todo⟩ :: outer, none⟩ (.enter child)
      (enter (⟨node, todo⟩ :: outer) child).2
  | token (stack : List WalkFrame) (place : Located) :
    Step ⟨stack, some (.leave place)⟩ (.leave place) ⟨stack, none⟩
  | node (node : Located) (outer : List WalkFrame) :
    Step ⟨⟨node, []⟩ :: outer, none⟩ (.leave node) ⟨outer, none⟩

private theorem enter_eq (stack : List WalkFrame) (place : Located) :
    enter stack place = (.enter place, (enter stack place).2) := by
  unfold enter
  split <;> rfl

private theorem step_of_next {walk later : Walk} {event : WalkEvent}
    (found : walk.next = some (event, later)) : Step walk event later := by
  obtain ⟨stack, due⟩ := walk
  cases due with
  | some event' =>
    cases event' with
    | enter place =>
      have found : some (enter stack place) = some (event, later) := found
      rw [enter_eq, Option.some.injEq, Prod.mk.injEq] at found
      obtain ⟨rfl, rfl⟩ := found
      exact .begin stack place
    | leave place =>
      cases found
      exact .token stack place
  | none =>
    obtain _ | ⟨⟨node, _ | ⟨child, todo⟩⟩, outer⟩ := stack
    · cases found
    · cases found
      exact .node node outer
    · have found : some (enter (⟨node, todo⟩ :: outer) child) = some (event, later) := found
      rw [enter_eq, Option.some.injEq, Prod.mk.injEq] at found
      obtain ⟨rfl, rfl⟩ := found
      exact .child node child todo outer

def held (walk : Walk) : List Located :=
  (match walk.due with
    | some (.leave place) => [place]
    | _ => []) ++ walk.stack.map WalkFrame.node

def ahead (walk : Walk) : List Located :=
  (match walk.due with
    | some (.enter place) => place.preorder
    | _ => []) ++ walk.stack.flatMap fun frame => frame.todo.flatMap Located.preorder

@[simp]
theorem held_enter (stack : List WalkFrame) (place : Located) :
    (enter stack place).2.held = place :: stack.map WalkFrame.node := by
  unfold enter
  split <;> rfl

@[simp]
theorem ahead_enter (stack : List WalkFrame) (place : Located) :
    (enter stack place).2.ahead = place.children.flatMap Located.preorder ++
      stack.flatMap fun frame => frame.todo.flatMap Located.preorder := by
  unfold enter
  split
  · simp [ahead]
  · rename_i leaf
    have none := Located.children_of_not_isNode (by simpa using leaf)
    simp [ahead, none]

/-- The frames of a walk from a start: each holds a node, which is a child of the node below it and
taken from its children to come. -/
inductive Chain (start : Located) : List WalkFrame → Prop
  | empty : Chain start []
  | bottom {todo : List Located} (isNode : start.isNode = true)
      (rest : todo.Sublist start.children) : Chain start [⟨start, todo⟩]
  | push {node : Located} {todo : List Located} {below : WalkFrame} {outer : List WalkFrame}
      (isNode : node.isNode = true) (rest : todo.Sublist node.children)
      (child : node ∈ below.node.children) (taken : node ∉ below.todo)
      (further : Chain start (below :: outer)) : Chain start (⟨node, todo⟩ :: below :: outer)

namespace Chain

variable {start node : Located} {todo fewer : List Located} {frame : WalkFrame}
  {outer : List WalkFrame}

private theorem isNode (chain : Chain start (frame :: outer)) : frame.node.isNode = true := by
  cases chain with
  | bottom isNode => exact isNode
  | push isNode => exact isNode

private theorem rest (chain : Chain start (frame :: outer)) :
    frame.todo.Sublist frame.node.children := by
  cases chain with
  | bottom _ rest => exact rest
  | push _ rest => exact rest

private theorem sublist (chain : Chain start (⟨node, todo⟩ :: outer)) (less : fewer.Sublist todo) :
    Chain start (⟨node, fewer⟩ :: outer) := by
  cases chain with
  | bottom isNode rest => exact .bottom isNode (less.trans rest)
  | push isNode rest child taken further => exact .push isNode (less.trans rest) child taken further

private theorem tail (chain : Chain start (frame :: outer)) : Chain start outer := by
  cases chain with
  | bottom => exact .empty
  | push _ _ _ _ further => exact further

private theorem enter {child : Located} (chain : Chain start (⟨node, child :: todo⟩ :: outer)) :
    Chain start (Walk.enter (⟨node, todo⟩ :: outer) child).2.stack := by
  have less : Chain start (⟨node, todo⟩ :: outer) := chain.sublist (List.sublist_cons_self _ _)
  have member : child ∈ node.children := chain.rest.subset List.mem_cons_self
  have taken : child ∉ todo :=
    (List.nodup_cons.mp (node.nodup_children.sublist chain.rest)).1
  unfold Walk.enter
  split
  · rename_i isNode
    exact .push isNode (List.Sublist.refl _) member taken less
  · exact less

private theorem depth (chain : Chain start (frame :: outer)) :
    frame.node.depth = start.depth + outer.length := by
  induction outer generalizing frame with
  | nil =>
    cases chain with
    | bottom => rfl
  | cons below outer ih =>
    cases chain with
    | push _ _ child _ further =>
      rw [Located.depth_of_mem_children child, ih further, List.length_cons, Nat.add_assoc]

private theorem getLast? (chain : Chain start (frame :: outer)) :
    ((frame :: outer).map WalkFrame.node).getLast? = some start := by
  induction outer generalizing frame with
  | nil =>
    cases chain with
    | bottom => rfl
  | cons below outer ih =>
    cases chain with
    | push _ _ _ _ further =>
      rw [List.map_cons, List.map_cons, List.getLast?_cons_cons, ← List.map_cons]
      exact ih further

private theorem apart (chain : Chain start (frame :: outer)) {below : WalkFrame}
    (deeper : below ∈ outer)
    {child place : Located} (member : child ∈ below.todo) (met : place ∈ child.preorder) :
    place ∉ frame.node.preorder := by
  induction outer generalizing frame with
  | nil => cases deeper
  | cons next outer ih =>
    cases chain with
    | push _ _ between taken further =>
      intro again
      rcases List.mem_cons.mp deeper with rfl | deeper
      · have same := Located.eq_of_mem_preorder between (further.rest.subset member) again met
        exact taken (same ▸ member)
      · exact ih further deeper (Located.preorder_subset_of_mem_children between again)

end Chain

/-- What holds of a walk after certain events, when the elements for which `pruned` holds are cut
off. -/
structure Follows (start : Located) (past : List WalkEvent) (pruned : Located → Prop)
    (walk : Walk) : Prop where
  chain : Chain start walk.stack
  begins : ∀ place, walk.due = some (.enter place) →
    place = start ∧ walk.stack = [] ∧ past = []
  leaves : ∀ place, walk.due = some (.leave place) →
    place.isNode = false ∧ (walk.stack = [] → place = start)
  nest : nest? past = some walk.held
  /-- What is entered is entered from above. -/
  closed : ∀ place ∈ entered past, ∀ top ∈ start.preorder, place ∈ top.preorder →
    top ∈ entered past
  order : (entered past ++ walk.ahead).Sublist start.preorder
  kept : ∀ place ∈ start.preorder, place ∈ entered past ++ walk.ahead ↔ ¬ pruned place
  written : write? past = some (walk.stack.length, (entered past).map fun place =>
    line (place.depth - start.depth) place)

namespace Follows

variable {start : Located} {past : List WalkEvent} {pruned : Located → Prop} {walk later : Walk}
  {event : WalkEvent}

private theorem start_of_root (start : Located) :
    Follows start [] (fun _ => False) (Walk.start start) := by
  refine ⟨.empty, ?_, ?_, rfl, ?_, ?_, ?_, rfl⟩
  · rintro place due
    cases due
    exact ⟨rfl, rfl, rfl⟩
  · rintro place due
    cases due
  · rintro place member
    cases member
  · simp [entered, Walk.start, ahead]
  · simp [entered, Walk.start, ahead]

private theorem enter (follows : Follows start past pruned walk) {stack : List WalkFrame}
    {place : Located} (chain : Chain start (Walk.enter stack place).2.stack)
    (length : stack.length = walk.stack.length) (depth : place.depth = start.depth + stack.length)
    (held : walk.held = stack.map WalkFrame.node)
    (ahead : walk.ahead = place.preorder ++
      stack.flatMap fun frame => frame.todo.flatMap Located.preorder)
    (bottom : stack = [] → place = start)
    (above : ∀ top ∈ start.preorder, place ∈ top.preorder → top = place ∨
      ∃ other ∈ entered past, other ∈ top.preorder) :
    Follows start (past ++ [.enter place]) pruned (Walk.enter stack place).2 := by
  have nest : nest? (past ++ [.enter place]) = some (place :: walk.held) :=
    nest?_enter follows.nest
  have written := write?_enter follows.written place
  have next : entered past ++ walk.ahead =
      entered (past ++ [.enter place]) ++ (Walk.enter stack place).2.ahead := by
    rw [ahead, Located.preorder_eq, ahead_enter]
    simp
  refine ⟨chain, ?_, ?_, ?_, ?_, next ▸ follows.order, next ▸ follows.kept, ?_⟩
  · unfold Walk.enter
    split <;> simp
  · unfold Walk.enter
    split
    · simp
    · rintro _ ⟨⟩
      exact ⟨by simpa using ‹¬ place.isNode = true›, bottom⟩
  · rw [nest, held, held_enter]
  · intro inner member top inside met
    rw [entered_append, entered_enter, List.mem_append, List.mem_singleton] at member ⊢
    rcases member with member | rfl
    · exact Or.inl (follows.closed inner member top inside met)
    · rcases above top inside met with same | ⟨other, member, met⟩
      · exact Or.inr same
      · exact Or.inl (follows.closed other member top inside met)
  · have indent : place.depth - start.depth = walk.stack.length := by omega
    rw [written, entered_append, entered_enter, List.map_append, List.map_singleton, indent]
    unfold Walk.enter
    split <;> simp [length]

/-- An event keeps what holds of a walk. -/
theorem step (follows : Follows start past pruned walk) (step : Step walk event later) :
    Follows start (past ++ [event]) pruned later := by
  cases step with
  | begin stack place =>
    obtain ⟨rfl, rfl, rfl⟩ := follows.begins place rfl
    have chain : Chain place (Walk.enter [] place).2.stack := by
      unfold Walk.enter
      split
      · exact .bottom ‹_› (List.Sublist.refl _)
      · exact .empty
    exact follows.enter chain rfl rfl rfl rfl (fun _ => rfl) fun top inside met =>
      Or.inl (Located.preorder_antisymm inside met).symm
  | child node child todo outer =>
    have opened : node ∈ entered past := mem_entered_of_nest? follows.nest (by simp [held])
    have member : child ∈ node.children := follows.chain.rest.subset List.mem_cons_self
    have depth : child.depth = start.depth + (outer.length + 1) := by
      rw [Located.depth_of_mem_children member, follows.chain.depth, Nat.add_assoc]
    refine follows.enter follows.chain.enter rfl depth rfl (by simp [ahead]) (by simp)
      fun top inside met => ?_
    rcases Located.parent_mem_preorder member met with same | met
    · exact Or.inl same.symm
    · exact Or.inr ⟨node, opened, met⟩
  | token stack place =>
    obtain ⟨leaf, bottom⟩ := follows.leaves place rfl
    have written := write?_leave follows.written place
    refine ⟨follows.chain, by simp, by simp, nest?_leave follows.nest, by simpa using follows.closed,
      by simpa [ahead] using follows.order, by simpa [ahead] using follows.kept, ?_⟩
    simpa [writeStep, leaf] using written
  | node node outer =>
    have isNode := follows.chain.isNode
    have written := write?_leave follows.written node
    refine ⟨follows.chain.tail, by simp, by simp, nest?_leave follows.nest,
      by simpa using follows.closed, by simpa [ahead] using follows.order,
      by simpa [ahead] using follows.kept, ?_⟩
    simpa [writeStep, isNode] using written

private theorem innermost (follows : Follows start past pruned walk) :
    innermost? past = walk.stack.head?.map WalkFrame.node := by
  have nodes : (walk.stack.map WalkFrame.node).find? Located.isNode =
      walk.stack.head?.map WalkFrame.node := by
    cases stack : walk.stack with
    | nil => rfl
    | cons frame outer =>
      have chain := follows.chain
      rw [stack] at chain
      rw [List.map_cons, List.find?_cons_of_pos chain.isNode]
      rfl
  rw [innermost?, follows.nest, Option.bind_some, held]
  split
  · rename_i place due
    have leaf : ¬ place.isNode = true := by simp [(follows.leaves place due).1]
    rw [List.singleton_append, List.find?_cons_of_neg leaf, nodes]
  · exact nodes

private theorem nodup (follows : Follows start past pruned walk) :
    (entered past ++ walk.ahead).Nodup :=
  start.nodup_preorder.sublist follows.order

private theorem mem_preorder (follows : Follows start past pruned walk) {place : Located}
    (member : place ∈ entered past) : place ∈ start.preorder :=
  follows.order.subset (List.mem_append_left _ member)

private theorem congr {other : Located → Prop} (follows : Follows start past pruned walk)
    (same : ∀ place, other place ↔ pruned place) : Follows start past other walk :=
  (funext fun place => propext (same place) : other = pruned) ▸ follows

private theorem not_mem_preorder_of_cutOff (follows : Follows start past pruned walk)
    {place top : Located}
    (member : place ∈ entered past) (cut : CutOff past top) : place ∉ top.preorder := by
  obtain ⟨node, found, child, fresh⟩ := cut
  rw [innermost?, follows.nest, Option.bind_some] at found
  have opened : node ∈ entered past :=
    mem_entered_of_nest? follows.nest (List.mem_of_find?_eq_some found)
  have below := Located.mem_preorder_of_mem_children (follows.mem_preorder opened) child
  exact fun met => fresh (follows.closed place member top below met)

private theorem ahead_cons {frame : WalkFrame} {outer : List WalkFrame} {due : Option WalkEvent}
    (follows : Follows start past pruned ⟨frame :: outer, due⟩) (todo : List Located) :
    (⟨{ frame with todo := todo } :: outer, due⟩ : Walk).ahead = todo.flatMap Located.preorder ++
      outer.flatMap fun frame => frame.todo.flatMap Located.preorder := by
  unfold ahead
  split
  · exact absurd (follows.begins _ ‹_›).2.1 (List.cons_ne_nil _ _)
  · simp

private theorem cutOff_of_mem_todo {frame : WalkFrame} {outer : List WalkFrame}
    {due : Option WalkEvent}
    (follows : Follows start past pruned ⟨frame :: outer, due⟩) {top : Located}
    (waiting : top ∈ frame.todo) : CutOff past top := by
  refine ⟨frame.node, follows.innermost, follows.chain.rest.subset waiting, fun again => ?_⟩
  have nodup := follows.nodup
  rw [follows.ahead_cons frame.todo] at nodup
  exact List.disjoint_of_nodup_append nodup again (List.mem_append_left _
    (List.mem_flatMap.mpr ⟨top, waiting, top.self_mem_preorder⟩))

private theorem not_mem_preorder_of_deeper {frame : WalkFrame} {outer : List WalkFrame}
    {due : Option WalkEvent} (follows : Follows start past pruned ⟨frame :: outer, due⟩)
    {place top : Located}
    (waits : place ∈ outer.flatMap fun frame => frame.todo.flatMap Located.preorder)
    (cut : CutOff past top) : place ∉ top.preorder := by
  obtain ⟨node, found, child, -⟩ := cut
  obtain rfl := Option.some.inj (follows.innermost.symm.trans found)
  obtain ⟨below, deeper, waits⟩ := List.mem_flatMap.mp waits
  obtain ⟨other, waiting, met⟩ := List.mem_flatMap.mp waits
  intro again
  exact follows.chain.apart deeper waiting met
    (Located.preorder_subset_of_mem_children child again)

/-- A skip keeps what holds of a walk, with more cut off. -/
theorem skip (follows : Follows start past pruned walk) :
    Follows start past (fun place => pruned place ∨ ∃ top, CutOff past top ∧ place ∈ top.preorder)
      walk.skip := by
  obtain ⟨_ | ⟨frame, outer⟩, due⟩ := walk
  · have nothing : ∀ top, ¬ CutOff past top := by
      rintro top ⟨node, found, -⟩
      cases follows.innermost.symm.trans found
    exact follows.congr (by simp [nothing])
  · have order := follows.order
    have kept := follows.kept
    rw [follows.ahead_cons frame.todo] at order kept
    refine ⟨follows.chain.sublist (List.nil_sublist _), fun place again => ?_,
      fun place again => ⟨(follows.leaves place again).1, by simp [Walk.skip]⟩, follows.nest,
      follows.closed, ?_, fun place inside => ?_, follows.written⟩
    · exact absurd (follows.begins place again).2.1 (List.cons_ne_nil _ _)
    · rw [Walk.skip, follows.ahead_cons []]
      exact ((List.sublist_append_right _ _).append_left _).trans order
    · rw [Walk.skip, follows.ahead_cons [], List.flatMap_nil, List.nil_append, not_or,
        ← kept place inside, List.mem_append, List.mem_append, List.mem_append]
      constructor
      · rintro (member | waits)
        · refine ⟨Or.inl member, ?_⟩
          rintro ⟨top, cut, met⟩
          exact follows.not_mem_preorder_of_cutOff member cut met
        · refine ⟨Or.inr (Or.inr waits), ?_⟩
          rintro ⟨top, cut, met⟩
          exact follows.not_mem_preorder_of_deeper waits cut met
      · rintro ⟨member | member | waits, whole⟩
        · exact Or.inl member
        · obtain ⟨top, waiting, met⟩ := List.mem_flatMap.mp member
          exact absurd ⟨top, follows.cutOff_of_mem_todo waiting, met⟩ whole
        · exact Or.inr waits

private theorem skips (follows : Follows start past pruned walk) (count : Nat) :
    Follows start past (fun place => pruned place ∨
      0 < count ∧ ∃ top, CutOff past top ∧ place ∈ top.preorder) (walk.skips count) := by
  cases count with
  | zero => exact follows.congr (by simp)
  | succ count =>
    have again : walk.skip.skip = walk.skip := by
      obtain ⟨_ | ⟨frame, outer⟩, due⟩ := walk <;> rfl
    rw [Walk.skips, Function.iterate_succ_apply, Function.iterate_fixed again]
    exact follows.skip.congr (by simp)

private theorem bottom (follows : Follows start past pruned walk) {place : Located}
    (alone : walk.held = [place]) : place = start := by
  unfold held at alone
  split at alone
  · rename_i other due
    rw [List.singleton_append, List.cons.injEq, List.map_eq_nil_iff] at alone
    rw [← alone.1]
    exact (follows.leaves other due).2 alone.2
  · have chain := follows.chain
    obtain ⟨frame, stack, rfl⟩ := List.map_eq_singleton_iff.mp alone
    rw [stack] at chain
    exact Option.some.inj chain.getLast?

end Follows

/-! Whole walks. -/

def weight (walk : Walk) : Nat := 2 * walk.ahead.length + walk.held.length

private theorem weight_step {walk later : Walk} {event : WalkEvent} (step : Step walk event later) :
    later.weight + 1 = walk.weight := by
  cases step with
  | begin stack place =>
    rw [weight, weight, ahead_enter, held_enter]
    simp only [ahead, held, Located.preorder_eq place, List.cons_append, List.nil_append,
      List.length_cons]
    omega
  | child node child todo outer =>
    rw [weight, weight, ahead_enter, held_enter]
    simp only [ahead, held, Located.preorder_eq child, List.nil_append, List.flatMap_cons,
      List.map_cons, List.append_assoc, List.cons_append, List.length_cons]
    omega
  | token stack place =>
    simp only [weight, ahead, held, List.nil_append, List.cons_append, List.length_cons]
    omega
  | node node outer =>
    simp only [weight, ahead, held, List.nil_append, List.flatMap_cons, List.flatMap_nil,
      List.map_cons, List.length_cons]
    omega

private theorem weight_skip_le (walk : Walk) : walk.skip.weight ≤ walk.weight := by
  obtain ⟨stack, due⟩ := walk
  cases stack with
  | nil => exact Nat.le_refl _
  | cons frame outer =>
    simp only [weight, ahead, held, skip, List.flatMap_cons, List.map_cons, List.length_append,
      List.flatMap_nil, List.length_nil]
    omega

private theorem weight_skips_le (walk : Walk) (count : Nat) :
    (walk.skips count).weight ≤ walk.weight := by
  induction count generalizing walk with
  | zero => exact Nat.le_refl _
  | succ count ih => exact (ih walk.skip).trans walk.weight_skip_le

private theorem eq_of_next_eq_none {walk : Walk} (ended : walk.next = none) :
    walk = ⟨[], none⟩ := by
  obtain ⟨_ | ⟨⟨node, _ | ⟨child, todo⟩⟩, outer⟩, _ | _ | _⟩ := walk <;> first | rfl | cases ended

section

variable {walk : Walk} {schedule : Nat → Nat}

private theorem after_of_answer {call : Nat} {event : WalkEvent}
    (answers : walk.answer schedule call = some event) :
    Step ((walk.after schedule call).skips (schedule call)) event
      (walk.after schedule (call + 1)) := by
  obtain ⟨⟨_, later⟩, found, rfl⟩ := Option.map_eq_some_iff.mp answers
  rw [after, found]
  exact step_of_next found

private theorem after_of_none {call : Nat} (ended : walk.answer schedule call = none) :
    (walk.after schedule call).skips (schedule call) = ⟨[], none⟩ ∧
      walk.after schedule (call + 1) = ⟨[], none⟩ := by
  have nothing := Option.map_eq_none_iff.mp ended
  have same := eq_of_next_eq_none nothing
  refine ⟨same, ?_⟩
  rw [after, nothing]
  exact same

private theorem answer_stays_none (call : Nat) (ended : walk.answer schedule call = none) :
    walk.answer schedule (call + 1) = none := by
  have fixed (count : Nat) : (⟨[], none⟩ : Walk).skips count = ⟨[], none⟩ :=
    Function.iterate_fixed rfl count
  rw [answer, (after_of_none ended).2, fixed]
  rfl

private theorem exists_answer_none (walk : Walk) (schedule : Nat → Nat) :
    ∃ call, walk.answer schedule call = none := by
  by_contra goesOn
  have spent (calls : Nat) : (walk.after schedule calls).weight + calls ≤ walk.weight := by
    induction calls with
    | zero => exact Nat.le_refl _
    | succ calls ih =>
      obtain ⟨event, answers⟩ := Option.ne_none_iff_exists'.mp fun ended => goesOn ⟨calls, ended⟩
      have less := weight_step (after_of_answer answers)
      have bound := weight_skips_le (walk.after schedule calls) (schedule calls)
      omega
  have late := spent (walk.weight + 1)
  omega

private theorem told_succ (calls : Nat) :
    walk.told schedule (calls + 1) =
      walk.told schedule calls ++ (walk.answer schedule calls).toList := by
  rw [told, List.range_succ, List.filterMap_append, ← told]
  cases answers : walk.answer schedule calls <;> simp [answers]

private theorem exists_list {α : Type} {answers : Nat → Option α}
    (stays : ∀ call, answers call = none → answers (call + 1) = none) {stop : Nat}
    (ended : answers stop = none) : ∃ events : List α, ∀ call, answers call = events[call]? := by
  induction stop generalizing answers with
  | zero =>
    refine ⟨[], fun call => ?_⟩
    induction call with
    | zero => exact ended
    | succ call ih => exact stays call ih
  | succ stop ih =>
    cases first : answers 0 with
    | none =>
      refine ⟨[], fun call => ?_⟩
      induction call with
      | zero => exact first
      | succ call ih => exact stays call ih
    | some event =>
      obtain ⟨events, same⟩ := ih (fun call => stays (call + 1)) ended
      refine ⟨event :: events, fun call => ?_⟩
      cases call with
      | zero => exact first
      | succ call => exact same call

private theorem exists_events (walk : Walk) (schedule : Nat → Nat) :
    ∃ events : List WalkEvent, (∀ call, walk.answer schedule call = events[call]?) ∧
      ∀ calls, walk.told schedule calls = events.take calls := by
  obtain ⟨stop, ended⟩ := exists_answer_none walk schedule
  obtain ⟨events, same⟩ := exists_list answer_stays_none ended
  refine ⟨events, same, fun calls => ?_⟩
  induction calls with
  | zero => rfl
  | succ calls ih => rw [told_succ, ih, same, List.take_add_one]

private theorem remaining_eq_weight (walk : Walk) : walk.remaining = walk.weight := by
  have below (todo : List Located) (total : Nat) :
      todo.foldl (fun total place => total + eventCount place) total =
        total + 2 * (todo.flatMap Located.preorder).length := by
    induction todo generalizing total with
    | nil => rfl
    | cons place todo ih =>
      rw [List.foldl_cons, ih, List.flatMap_cons, List.length_append, eventCount]
      omega
  have frames (stack : List WalkFrame) (total : Nat) :
      stack.foldl (fun total frame =>
          frame.todo.foldl (fun total place => total + eventCount place) (total + 1)) total =
        total + stack.length +
          2 * (stack.flatMap fun frame => frame.todo.flatMap Located.preorder).length := by
    induction stack generalizing total with
    | nil => rfl
    | cons frame stack ih =>
      rw [List.foldl_cons, ih, below, List.flatMap_cons, List.length_append, List.length_cons]
      omega
  obtain ⟨stack, due⟩ := walk
  rw [remaining, frames, weight, ahead, held, List.length_append, List.length_append,
    List.length_map]
  obtain _ | _ | _ := due <;> simp only [eventCount, List.length_nil, List.length_singleton] <;> omega

private theorem answer_succ {walk later : Walk} {event : WalkEvent}
    (found : walk.next = some (event, later))
    {schedule further : Nat → Nat} {count : Nat} (first : schedule 0 = 0)
    (second : schedule 1 = count) (begins : further 0 = 0)
    (later' : ∀ call, schedule (call + 2) = further (call + 1)) (call : Nat) :
    walk.answer schedule (call + 1) = (later.skips count).answer further call := by
  have same (call : Nat) : (walk.after schedule (call + 1)).skips (schedule (call + 1)) =
      ((later.skips count).after further call).skips (further call) := by
    induction call with
    | zero =>
      have step : walk.after schedule 1 = later := by
        rw [after, after, first]
        exact congrArg (·.elim walk Prod.snd) found
      rw [step, second, begins]
      rfl
    | succ call ih => rw [after, ih, later', after]
  rw [answer, same, answer]

private theorem exists_schedule (walk : Walk) (test : WalkEvent → Bool) :
    ∃ schedule, ∀ call, walk.answer schedule call = (walk.events test)[call]? := by
  have ended {walk : Walk} (nothing : walk.next = none) (call : Nat) :
      walk.answer (fun _ => 0) call = none := by
    induction call with
    | zero => exact congrArg (Option.map Prod.fst) nothing
    | succ call ih => exact answer_stays_none call ih
  have runs (count : Nat) (walk : Walk) (enough : walk.weight ≤ count) :
      ∃ schedule, schedule 0 = 0 ∧
        ∀ call, walk.answer schedule call = (run test count walk)[call]? := by
    induction count generalizing walk with
    | zero =>
      refine ⟨fun _ => 0, rfl, fun call => ended ?_ call⟩
      by_contra goesOn
      obtain ⟨⟨event, later⟩, found⟩ := Option.ne_none_iff_exists'.mp goesOn
      have less := weight_step (step_of_next found)
      omega
    | succ count ih =>
      cases found : walk.next with
      | none => exact ⟨fun _ => 0, rfl, fun call => by rw [ended found, run, found]; rfl⟩
      | some result =>
        obtain ⟨event, later⟩ := result
        have less := weight_step (step_of_next found)
        have bound := weight_skips_le later (if test event then 1 else 0)
        obtain ⟨further, begins, same⟩ :=
          ih (later.skips (if test event then 1 else 0)) (by omega)
        refine ⟨fun
          | 0 => 0
          | 1 => if test event then 1 else 0
          | call + 2 => further (call + 1), rfl, fun call => ?_⟩
        have next : run test (count + 1) walk =
            event :: run test count (later.skips (if test event then 1 else 0)) := by
          simp only [run, found]
          cases test event <;> rfl
        rw [next]
        cases call with
        | zero => exact congrArg (Option.map Prod.fst) found
        | succ call => exact (answer_succ found rfl rfl begins (fun _ => rfl) call).trans (same call)
  obtain ⟨schedule, -, same⟩ := runs walk.remaining walk (Nat.le_of_eq walk.remaining_eq_weight.symm)
  exact ⟨schedule, same⟩

private theorem follows_after (start : Located) (schedule : Nat → Nat) (calls : Nat) :
    Follows start ((Walk.start start).told schedule calls)
      (fun place => ∃ call < calls, 0 < schedule call ∧
        ∃ top, CutOff ((Walk.start start).told schedule call) top ∧ place ∈ top.preorder)
      ((Walk.start start).after schedule calls) := by
  induction calls with
  | zero => exact (Follows.start_of_root start).congr (by simp)
  | succ calls ih =>
    have skipped : Follows start ((Walk.start start).told schedule calls)
        (fun place => ∃ call < calls + 1, 0 < schedule call ∧
          ∃ top, CutOff ((Walk.start start).told schedule call) top ∧ place ∈ top.preorder)
        (((Walk.start start).after schedule calls).skips (schedule calls)) :=
      (ih.skips (schedule calls)).congr fun place => Nat.exists_lt_succ_right
    rw [told_succ]
    cases answers : (Walk.start start).answer schedule calls with
    | none =>
      obtain ⟨ended, same⟩ := after_of_none answers
      rw [same, ← ended]
      rwa [Option.toList_none, List.append_nil]
    | some event => exact skipped.step (after_of_answer answers)

end

/-- The events of a walk in terms of its start and its schedule. -/
structure Tells (start : Located) (schedule : Nat → Nat) (events : List WalkEvent) : Prop where
  /-- The answers are the events, and then nothing for ever. -/
  answers (call : Nat) : (Walk.start start).answer schedule call = events[call]?
  bracketed : Bracketed start events
  order : (entered events).Sublist start.preorder
  /-- Everything is entered but what the skips cut off. -/
  kept : ∀ place ∈ start.preorder, .enter place ∈ events ↔ ¬ Pruned schedule events place
  /-- The count of open nodes is never below zero, and indents each line by its depth. -/
  written : write? events = some (0, (entered events).map fun place =>
    line (place.depth - start.depth) place)

private theorem answer_zero (start : Located) (schedule : Nat → Nat) :
    (Walk.start start).answer schedule 0 = some (.enter start) := by
  have fixed : (Walk.start start).skips (schedule 0) = Walk.start start :=
    Function.iterate_fixed rfl _
  have begins : (Walk.start start).next = some (enter [] start) := rfl
  rw [answer, after, fixed, begins, enter_eq, Option.map_some]

private theorem leaves_last {start : Located} {schedule : Nat → Nat} {events : List WalkEvent}
    (told : ∀ calls, (Walk.start start).told schedule calls = events.take calls)
    (some' : events ≠ []) (nested : nest? events = some []) :
    events.getLast? = some (.leave start) := by
  obtain rfl | ⟨front, event, rfl⟩ := List.eq_nil_or_concat events
  · exact absurd rfl some'
  · rw [List.concat_eq_append] at nested told ⊢
    have follows := follows_after start schedule front.length
    rw [told, List.take_left] at follows
    obtain ⟨before, nest, ⟨place, -, same⟩ | ⟨place, rfl, rfl⟩⟩ := nest?_append nested
    · cases same
    · have alone := Option.some.inj (follows.nest.symm.trans nest)
      rw [List.getLast?_concat, follows.bottom alone]

theorem exists_tells (start : Located) (schedule : Nat → Nat) :
    ∃ events, Tells start schedule events := by
  obtain ⟨events, answers, told⟩ := exists_events (Walk.start start) schedule
  have ended : (Walk.start start).answer schedule events.length = none := by simp [answers]
  have whole : (Walk.start start).told schedule events.length = events := by simp [told]
  have follows := follows_after start schedule (events.length + 1)
  rw [told_succ, ended, Option.toList_none, List.append_nil, whole,
    (after_of_none ended).2] at follows
  have nested : nest? events = some [] := follows.nest
  have first : events.head? = some (.enter start) := by
    rw [List.head?_eq_getElem?, ← answers, answer_zero]
  have last := leaves_last told (by rintro rfl; cases first) nested
  refine ⟨events, answers, bracketed_of_nest? first last nested ?_, ?_, fun place inside => ?_,
    follows.written⟩
  · exact (List.nodup_append.mp follows.nodup).1
  · exact (List.sublist_append_left _ _).trans follows.order
  · have kept := follows.kept place inside
    rw [show ahead ⟨[], none⟩ = [] from rfl, List.append_nil, mem_entered] at kept
    rw [kept, not_iff_not]
    constructor
    · rintro ⟨call, -, skipped, top, cut, met⟩
      rw [told] at cut
      exact ⟨call, top, skipped, cut, met⟩
    · rintro ⟨call, top, skipped, cut, met⟩
      refine ⟨call, ?_, skipped, top, by rwa [told], met⟩
      by_contra late
      obtain ⟨node, found, -⟩ := cut
      rw [List.take_of_length_le (by omega), innermost?, nested] at found
      cases found

/-- Without skips everything is entered. -/
theorem Tells.entered_eq {start : Located} {events : List WalkEvent}
    (tells : Tells start (fun _ => 0) events) : entered events = start.preorder := by
  have unpruned (place : Located) : ¬ Pruned (fun _ => 0) events place := by
    rintro ⟨call, top, skipped, -⟩
    exact Nat.lt_irrefl 0 skipped
  have subset : start.preorder ⊆ entered events := fun place inside =>
    mem_entered.mpr ((tells.kept place inside).mpr (unpruned place))
  exact tells.order.eq_of_length_le (start.nodup_preorder.length_le_of_subset subset)

/-- Whatever is skipped and when, a walk answers finitely many events, well nested, and then nothing.
It enters what preorder meets, in that order, without what the skips cut off. `Walk.events` gives all
events of one schedule. Without skips everything is entered, and the lines written from a root are
its outline. -/
theorem start_bracketed (start : Located) :
    (∀ schedule, ∃ events, Tells start schedule events) ∧
      (∀ test, ∃ schedule, Tells start schedule ((Walk.start start).events test)) ∧
      ∃ events, Tells start (fun _ => 0) events ∧ entered events = start.preorder ∧
        ∀ root, start = .root root → write? events = some (0, root.outline) := by
  refine ⟨exists_tells start, fun test => ?_, ?_⟩
  · obtain ⟨schedule, same⟩ := exists_schedule (Walk.start start) test
    obtain ⟨events, tells⟩ := exists_tells start schedule
    have equal : events = (Walk.start start).events test :=
      List.ext_getElem? fun call => (tells.answers call).symm.trans (same call)
    exact ⟨schedule, equal ▸ tells⟩
  obtain ⟨events, tells⟩ := exists_tells start fun _ => 0
  refine ⟨events, tells, tells.entered_eq, ?_⟩
  rintro root rfl
  have depth : (Located.root root).depth = 0 := rfl
  rw [tells.written, tells.entered_eq, Element.outline]
  simp only [depth, Nat.sub_zero, line]

end Walk

end MatrixScript
