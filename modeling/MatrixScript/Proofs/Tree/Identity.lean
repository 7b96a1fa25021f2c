import Mathlib.Data.List.Perm.Basic
import MatrixScript.Proofs.Tree.Ownership

/-!
Identity of nodes over whole runs.

A `Session` is a client that makes roots, visits slots, and holds and gives up what it finds, in any
order. It notes of everything it holds where it has it from: the call that made the root, and the
slots it visited. After every run, nodes with one origin are one node, and nodes with two origins
are two, whichever of them were given up and made again in between; and each stands where its origin
says.
-/

set_option autoImplicit false

namespace MatrixScript

/-- Where a client has something from: the call that made the root, and the slots visited. -/
@[ext]
structure Origin where
  call : Nat
  path : List Nat := []
  deriving DecidableEq, Repr

namespace Origin

def child (origin : Origin) (index : Nat) : Origin := ⟨origin.call, origin.path ++ [index]⟩

def parent (origin : Origin) : Origin := ⟨origin.call, origin.path.dropLast⟩

@[simp]
theorem parent_child (origin : Origin) (index : Nat) : (origin.child index).parent = origin := by
  simp [child, parent]

private theorem child_inj {origin origin' : Origin} {index index' : Nat} :
    origin.child index = origin'.child index' ↔ origin = origin' ∧ index = index' := by
  constructor
  · intro same
    rw [child, child, Origin.mk.injEq] at same
    obtain ⟨path, slot⟩ := List.append_inj' same.2 rfl
    exact ⟨Origin.ext same.1 path, List.singleton_inj.mp slot⟩
  · rintro ⟨rfl, rfl⟩
    rfl

end Origin

/-- What a client can do with what it holds; it names nodes and tokens by their positions. -/
inductive Operation where
  | newRoot (green : Green)
  | slot (position index : Nat)
  | children (position : Nat)
  | parent (position : Nat)
  | clone (position : Nat)
  | drop (position : Nat)
  | cloneToken (position : Nat)
  | tokenParent (position : Nat)
  | dropToken (position : Nat)
  deriving DecidableEq, Repr

/-- A client with the nodes and tokens it holds, the last first. -/
structure Session where
  store : Store := {}
  /-- The roots that were made, in the order of the calls. -/
  roots : List RedNode := []
  nodes : List (Origin × RedNode) := []
  tokens : List (Origin × RedToken) := []
  deriving DecidableEq, Repr

def Green.descend? (green : Green) : List Nat → Option Green
  | [] => some green
  | index :: path => (green.slot? index).bind (·.descend? path)

private theorem Green.descend?_append (green : Green) (front back : List Nat) :
    green.descend? (front ++ back) = (green.descend? front).bind (·.descend? back) := by
  induction front generalizing green with
  | nil => rfl
  | cons index front ih =>
    rw [List.cons_append, descend?, descend?]
    cases green.slot? index with
    | none => rfl
    | some child => exact ih child

private theorem RedNode.Sound.descend? {node : RedNode} (sound : node.Sound) :
    node.top.green.descend? node.path = some node.green := by
  induction node with
  | root => rfl
  | child address green parent index offset ih =>
    obtain ⟨-, there, -, -, above⟩ := sound
    rw [top, path, Green.descend?_append, ih above, Option.bind_some, Green.descend?, there]
    rfl

namespace Session

def hold (session : Session) (origin : Origin) (node : RedNode) : Session :=
  { session with
    store := session.store.retain node
    nodes := (origin, node) :: session.nodes }

/-- Visits a slot of a node, and holds what stands there. -/
def visit (session : Session) (origin : Origin) (node : RedNode) (index : Nat) : Session :=
  match session.store.slot node index with
  | (none, after) => { session with store := after }
  | (some (.node found), after) =>
    { session with
      store := after
      nodes := (origin.child index, found) :: session.nodes }
  | (some (.token found), after) =>
    { session with
      store := after
      tokens := (origin.child index, found) :: session.tokens }

def visitAll (session : Session) (origin : Origin) (node : RedNode) (indices : List Nat) :
    Session :=
  indices.foldl (fun session index => session.visit origin node index) session

def drop (session : Session) (position : Nat) : Session :=
  session.nodes[position]?.elim session fun held =>
    { session with
      store := session.store.release held.2
      nodes := session.nodes.eraseIdx position }

def cloneToken (session : Session) (origin : Origin) (token : RedToken) : Session :=
  { session with
    store := session.store.retain token.parent
    tokens := (origin, token) :: session.tokens }

def dropToken (session : Session) (position : Nat) : Session :=
  session.tokens[position]?.elim session fun held =>
    { session with
      store := session.store.release held.2.parent
      tokens := session.tokens.eraseIdx position }

def newRoot (session : Session) (green : Green) : Session :=
  let (root, after) := session.store.newRoot green
  { session with
    store := after
    roots := session.roots ++ [root]
    nodes := (⟨session.roots.length, []⟩, root) :: session.nodes }

/-- One operation. What is not held cannot be used. -/
def step (session : Session) : Operation → Session
  | .newRoot green => session.newRoot green
  | .slot position index =>
    session.nodes[position]?.elim session fun held => session.visit held.1 held.2 index
  | .children position =>
    session.nodes[position]?.elim session fun held =>
      session.visitAll held.1 held.2 (List.range held.2.green.element.slots.length)
  | .parent position =>
    session.nodes[position]?.elim session fun held =>
      held.2.parent?.elim session (session.hold held.1.parent)
  | .clone position =>
    session.nodes[position]?.elim session fun held => session.hold held.1 held.2
  | .drop position => session.drop position
  | .cloneToken position =>
    session.tokens[position]?.elim session fun held => session.cloneToken held.1 held.2
  | .tokenParent position =>
    session.tokens[position]?.elim session fun held =>
      session.hold held.1.parent held.2.parent
  | .dropToken position => session.dropToken position

def run (operations : List Operation) : Session := operations.foldl step {}

def outside (session : Session) : List RedNode :=
  session.nodes.map Prod.snd ++ session.tokens.map (·.2.parent)

def Stems (session : Session) (origin : Origin) (node : RedNode) : Prop :=
  session.roots[origin.call]? = some node.top ∧ node.path = origin.path

namespace Stems

variable {session : Session} {origin : Origin} {node above : RedNode}

private theorem mono (stems : session.Stems origin node) (more : List RedNode) {session' : Session}
    (roots : session'.roots = session.roots ++ more) : session'.Stems origin node := by
  refine ⟨?_, stems.2⟩
  rw [roots, List.getElem?_append_left (List.getElem?_eq_some_iff.mp stems.1).1]
  exact stems.1

private theorem child (stems : session.Stems origin above) (below : node.parent? = some above)
    {index : Nat} (slot : node.index = index) : session.Stems (origin.child index) node := by
  refine ⟨?_, ?_⟩
  · rw [RedNode.top_of_parent? below]
    exact stems.1
  · rw [RedNode.path_of_parent? below, stems.2, slot]
    rfl

private theorem parent (stems : session.Stems origin node) (below : node.parent? = some above) :
    session.Stems origin.parent above := by
  refine ⟨?_, ?_⟩
  · rw [← RedNode.top_of_parent? below]
    exact stems.1
  · rw [Origin.parent, ← stems.2, RedNode.path_of_parent? below, List.dropLast_concat]

end Stems

/-- What every operation keeps. -/
structure Valid (session : Session) : Prop where
  owned : session.store.Owned session.outside
  distinct : (session.roots.map RedNode.address).Nodup
  older : ∀ root ∈ session.roots, root.address < session.store.next
  nodes : ∀ entry ∈ session.nodes, session.Stems entry.1 entry.2
  tokens : ∀ entry ∈ session.tokens,
    ∃ origin, entry.1 = origin.child entry.2.index ∧ session.Stems origin entry.2.parent
  sound : ∀ entry ∈ session.tokens, entry.2.Sound

private theorem mem_visit {session : Session} {entry : Origin × RedNode}
    (held : entry ∈ session.nodes)
    (origin : Origin) (node : RedNode) (index : Nat) :
    entry ∈ (session.visit origin node index).nodes := by
  unfold visit
  split
  · exact held
  · exact List.mem_cons_of_mem _ held
  · exact held

namespace Valid

variable {session : Session} {origin : Origin} {node : RedNode}

private theorem empty : Valid {} where
  owned := .empty
  distinct := List.nodup_nil
  older := by simp
  nodes := by simp
  tokens := by simp
  sound := by simp

private theorem elim {α : Type} (valid : session.Valid) {found : Option α} {use : α → Session}
    (each : ∀ held, found = some held → (use held).Valid) : (found.elim session use).Valid := by
  cases found with
  | none => exact valid
  | some held => exact each held rfl

private theorem node_mem (valid : session.Valid) (held : (origin, node) ∈ session.nodes) :
    node ∈ session.store.nodes := by
  refine valid.owned.held node (List.mem_append_left _ (List.mem_append_left _ ?_))
  exact List.mem_map.mpr ⟨(origin, node), held, rfl⟩

theorem token_mem (valid : session.Valid) {token : RedToken}
    (held : (origin, token) ∈ session.tokens) : token.parent ∈ session.store.nodes := by
  refine valid.owned.held token.parent (List.mem_append_left _ (List.mem_append_right _ ?_))
  exact List.mem_map.mpr ⟨(origin, token), held, rfl⟩

private theorem takesNode (valid : session.Valid) {store : Store} {entry : Origin × RedNode}
    (owned : store.Owned (entry.2 :: session.outside)) (next : session.store.next ≤ store.next)
    (stems : session.Stems entry.1 entry.2) :
    Valid { session with store := store, nodes := entry :: session.nodes } where
  owned := owned
  distinct := valid.distinct
  older root member := Nat.lt_of_lt_of_le (valid.older root member) next
  nodes := List.forall_mem_cons.mpr ⟨stems, valid.nodes⟩
  tokens := valid.tokens
  sound := valid.sound

private theorem takesToken (valid : session.Valid) {store : Store} {entry : Origin × RedToken}
    (owned : store.Owned (entry.2.parent :: session.outside))
    (next : session.store.next ≤ store.next)
    (stems : ∃ origin, entry.1 = origin.child entry.2.index ∧
      session.Stems origin entry.2.parent) (sound : entry.2.Sound) :
    Valid { session with store := store, tokens := entry :: session.tokens } where
  owned := owned.perm List.perm_middle.symm
  distinct := valid.distinct
  older root member := Nat.lt_of_lt_of_le (valid.older root member) next
  nodes := valid.nodes
  tokens := List.forall_mem_cons.mpr ⟨stems, valid.tokens⟩
  sound := List.forall_mem_cons.mpr ⟨sound, valid.sound⟩

private theorem hold (valid : session.Valid) (member : node ∈ session.store.nodes)
    (stems : session.Stems origin node) : (session.hold origin node).Valid :=
  valid.takesNode (valid.owned.retain member) (Nat.le_refl _) stems

private theorem newRoot (valid : session.Valid) (green : Green) :
    (session.newRoot green).Valid where
  owned := valid.owned.newRoot green
  distinct := by
    rw [Session.newRoot, List.map_append, List.nodup_append]
    refine ⟨valid.distinct, List.nodup_singleton _, ?_⟩
    intro address member fresh new same
    obtain ⟨root, earlier, rfl⟩ := List.mem_map.mp member
    rw [List.map_singleton, List.mem_singleton] at new
    have older := valid.older root earlier
    rw [same, new] at older
    exact Nat.lt_irrefl _ older
  older root member := by
    obtain earlier | new := List.mem_append.mp member
    · exact Nat.lt_succ_of_lt (valid.older root earlier)
    · rw [List.mem_singleton.mp new]
      exact Nat.lt_succ_self _
  nodes := by
    have new : (session.roots ++ [(session.store.newRoot green).1])[session.roots.length]? =
        some (session.store.newRoot green).1 := List.getElem?_concat_length
    exact List.forall_mem_cons.mpr
      ⟨⟨new, rfl⟩, fun entry member => (valid.nodes entry member).mono _ rfl⟩
  tokens entry member := by
    obtain ⟨origin, place, stems⟩ := valid.tokens entry member
    exact ⟨origin, place, stems.mono _ rfl⟩
  sound := valid.sound

private theorem visit (valid : session.Valid) (held : (origin, node) ∈ session.nodes)
    (index : Nat) :
    (session.visit origin node index).Valid := by
  have stems := valid.nodes _ held
  have next := session.store.le_next_slot node index
  obtain nothing | ⟨element, after, found, owned, stands⟩ :=
    valid.owned.slot (valid.node_mem held) index
  · rw [Session.visit, nothing]
    exact valid
  · rw [found] at next
    cases element with
    | node child =>
      obtain ⟨parent, slot⟩ := stands
      rw [Session.visit, found]
      exact valid.takesNode owned next (stems.child parent slot)
    | token token =>
      obtain ⟨parent, slot, sound⟩ := stands
      rw [Session.visit, found]
      exact valid.takesToken owned next ⟨origin, by rw [slot], parent ▸ stems⟩ sound

private theorem visitAll (valid : session.Valid) (held : (origin, node) ∈ session.nodes)
    (indices : List Nat) : (session.visitAll origin node indices).Valid := by
  induction indices generalizing session with
  | nil => exact valid
  | cons index indices ih => exact ih (valid.visit held index) (mem_visit held origin node index)

private theorem drop (valid : session.Valid) (position : Nat) : (session.drop position).Valid := by
  refine valid.elim fun held found => ?_
  obtain ⟨inside, rfl⟩ := List.getElem?_eq_some_iff.mp found
  have parted : session.outside.Perm (session.nodes[position].2 ::
      ((session.nodes.eraseIdx position).map Prod.snd ++ session.tokens.map (·.2.parent))) :=
    ((List.getElem_cons_eraseIdx_perm inside).symm.map Prod.snd).append_right _
  exact {
    owned := (valid.owned.perm parted).release
    distinct := valid.distinct
    older := fun root member => by
      rw [Store.next_release]
      exact valid.older root member
    nodes := fun entry member => valid.nodes entry (List.mem_of_mem_eraseIdx member)
    tokens := valid.tokens
    sound := valid.sound }

private theorem dropToken (valid : session.Valid) (position : Nat) :
    (session.dropToken position).Valid := by
  refine valid.elim fun held found => ?_
  obtain ⟨inside, rfl⟩ := List.getElem?_eq_some_iff.mp found
  have parted : session.outside.Perm (session.tokens[position].2.parent ::
      (session.nodes.map Prod.snd ++ (session.tokens.eraseIdx position).map (·.2.parent))) :=
    (((List.getElem_cons_eraseIdx_perm inside).symm.map (·.2.parent)).append_left _).trans
      List.perm_middle
  exact {
    owned := (valid.owned.perm parted).release
    distinct := valid.distinct
    older := fun root member => by
      rw [Store.next_release]
      exact valid.older root member
    nodes := valid.nodes
    tokens := fun entry member => valid.tokens entry (List.mem_of_mem_eraseIdx member)
    sound := fun entry member => valid.sound entry (List.mem_of_mem_eraseIdx member) }

/-- Every operation keeps a client valid. -/
theorem step (valid : session.Valid) (operation : Operation) :
    (session.step operation).Valid := by
  cases operation with
  | newRoot green => exact valid.newRoot green
  | slot position index =>
    exact valid.elim fun held found => valid.visit (List.mem_of_getElem? found) index
  | children position =>
    exact valid.elim fun held found => valid.visitAll (List.mem_of_getElem? found) _
  | parent position =>
    refine valid.elim fun held found => valid.elim fun parent below => ?_
    have member := valid.node_mem (List.mem_of_getElem? found)
    exact valid.hold (valid.owned.parent_mem member below)
      ((valid.nodes held (List.mem_of_getElem? found)).parent below)
  | clone position =>
    refine valid.elim fun held found => ?_
    have member := List.mem_of_getElem? found
    exact valid.hold (valid.node_mem member) (valid.nodes held member)
  | drop position => exact valid.drop position
  | cloneToken position =>
    refine valid.elim fun held found => ?_
    have member := List.mem_of_getElem? found
    exact valid.takesToken (valid.owned.retain (valid.token_mem member)) (Nat.le_refl _)
      (valid.tokens held member) (valid.sound held member)
  | tokenParent position =>
    refine valid.elim fun held found => ?_
    have member := List.mem_of_getElem? found
    obtain ⟨origin, place, stems⟩ := valid.tokens held member
    exact valid.hold (valid.token_mem member) (by rw [place, Origin.parent_child]; exact stems)
  | dropToken position => exact valid.dropToken position

end Valid

theorem run_valid (operations : List Operation) : (run operations).Valid := by
  have from_valid {session : Session} (valid : session.Valid) :
      (operations.foldl Session.step session).Valid := by
    induction operations generalizing session with
    | nil => exact valid
    | cons operation operations ih => exact ih (valid.step operation)
  exact from_valid .empty

/-- The nodes that a client keeps, and where it has them from: those it holds, those its tokens
hold, and their ancestors. -/
inductive Reached (session : Session) : Origin → RedNode → Prop
  | held {origin : Origin} {node : RedNode} (member : (origin, node) ∈ session.nodes) :
    Reached session origin node
  | token {origin : Origin} {token : RedToken} (member : (origin, token) ∈ session.tokens) :
    Reached session origin.parent token.parent
  | parent {origin : Origin} {node above : RedNode} (reached : Reached session origin node)
    (below : node.parent? = some above) : Reached session origin.parent above

/-- A node has the element that its origin leads to, and the place that its parent gives it. -/
structure Positioned (session : Session) (origin : Origin) (node : RedNode) : Prop where
  green : ∃ root, session.roots[origin.call]? = some root ∧
    root.green.descend? origin.path = some node.green
  place : origin.path = [] ∧ node.parent? = none ∧ node.index = 0 ∧ node.offset = 0 ∨
    ∃ above index parent, origin = above.child index ∧ session.Reached above parent ∧
      node.parent? = some parent ∧ node.index = index ∧
      node.offset = parent.offset + parent.green.element.slotOffset index

/-- Nodes are told apart by their origins, and stand where these say. -/
structure Coherent (session : Session) : Prop where
  live : ∀ node, node ∈ session.store.nodes ↔ ∃ origin, session.Reached origin node
  identity : ∀ {origin origin' : Origin} {node node' : RedNode}, session.Reached origin node →
    session.Reached origin' node' → (node.ptrEq node' = true ↔ origin = origin')
  position : ∀ {origin : Origin} {node : RedNode}, session.Reached origin node →
    session.Positioned origin node
  returns : ∀ {origin : Origin} {node parent : RedNode}, session.Reached origin node →
    node.parent? = some parent →
    (session.store.slot parent node.index).1 = some (.node node)
  tokens : ∀ held ∈ session.tokens, held.2.Sound ∧ ∀ held' ∈ session.tokens,
    (held.2.same held'.2 = true ↔
      held.2.parent.ptrEq held'.2.parent = true ∧ held.2.index = held'.2.index) ∧
    (held.2.same held'.2 = true ↔ held.1 = held'.1)

namespace Valid

variable {session : Session} {origin origin' : Origin} {node node' : RedNode}

theorem of_reached (valid : session.Valid) (reached : session.Reached origin node) :
    node ∈ session.store.nodes ∧ session.Stems origin node := by
  induction reached with
  | held member => exact ⟨valid.node_mem member, valid.nodes _ member⟩
  | @token origin token member =>
    obtain ⟨above, place, stems⟩ := valid.tokens (origin, token) member
    rw [show origin = above.child token.index from place, Origin.parent_child]
    exact ⟨valid.token_mem member, stems⟩
  | parent _ below ih => exact ⟨valid.owned.parent_mem ih.1 below, ih.2.parent below⟩

private theorem exists_reached (valid : session.Valid) (member : node ∈ session.store.nodes) :
    ∃ origin, session.Reached origin node := by
  -- A child is younger than its parent, so the way down through held children ends.
  induction gap : session.store.next - node.address using Nat.strongRecOn
    generalizing node with
  | _ gap ih =>
    obtain ⟨cell, there, rfl⟩ := List.mem_map.mp member
    have positive := valid.owned.positive cell there
    rw [valid.owned.counts cell there, List.count_pos_iff] at positive
    rcases List.mem_append.mp positive with direct | byChild
    · rcases List.mem_append.mp direct with held | byToken
      · obtain ⟨⟨origin, node⟩, held, rfl⟩ := List.mem_map.mp held
        exact ⟨origin, .held held⟩
      · obtain ⟨⟨origin, token⟩, held, same⟩ := List.mem_map.mp byToken
        rw [← same]
        exact ⟨origin.parent, .token held⟩
    · obtain ⟨child, held, below⟩ := List.mem_filterMap.mp byChild
      have younger := ((valid.owned.sound child held).of_parent? below).1
      have older := valid.owned.older child held
      obtain ⟨origin, reached⟩ := ih _ (by omega) held rfl
      exact ⟨origin.parent, .parent reached below⟩

private theorem ptrEq_iff (valid : session.Valid) (reached : session.Reached origin node)
    (reached' : session.Reached origin' node') : node.ptrEq node' = true ↔ origin = origin' := by
  obtain ⟨member, top, path⟩ := valid.of_reached reached
  obtain ⟨member', top', path'⟩ := valid.of_reached reached'
  rw [RedNode.ptrEq, beq_iff_eq]
  constructor
  · intro same
    obtain rfl := valid.owned.eq_of_address member member' same
    have roots : session.roots.Nodup := valid.distinct.of_map _
    have inside := (List.getElem?_eq_some_iff.mp top).1
    have call := (List.getElem?_inj inside roots).mp (top.trans top'.symm)
    exact Origin.ext call (path.symm.trans path')
  · rintro rfl
    have tops : node.top = node'.top := Option.some.inj (top.symm.trans top')
    rw [valid.owned.eq_of_path member member' tops (path.trans path'.symm)]

private theorem positioned (valid : session.Valid) (reached : session.Reached origin node) :
    session.Positioned origin node := by
  obtain ⟨member, top, path⟩ := valid.of_reached reached
  have sound := valid.owned.sound node member
  refine ⟨⟨node.top, top, path ▸ sound.descend?⟩, ?_⟩
  cases node with
  | root => exact Or.inl ⟨path.symm, rfl, rfl, rfl⟩
  | child address green parent index offset =>
    have place : origin = origin.parent.child index := by
      refine Origin.ext rfl ?_
      rw [Origin.child, Origin.parent, ← path, RedNode.path, List.dropLast_concat]
    obtain ⟨-, -, -, offset, -⟩ := sound
    exact Or.inr ⟨origin.parent, index, parent, place, .parent reached rfl, rfl, rfl, offset⟩

private theorem same_iff (valid : session.Valid) {held held' : Origin × RedToken}
    (member : held ∈ session.tokens) (member' : held' ∈ session.tokens) :
    held.2.same held'.2 = true ↔ held.1 = held'.1 := by
  obtain ⟨above, place, -⟩ := valid.tokens held member
  obtain ⟨above', place', -⟩ := valid.tokens held' member'
  have parents := valid.ptrEq_iff (.token member) (.token member')
  rw [place, place', Origin.parent_child, Origin.parent_child] at parents
  rw [RedToken.same, Bool.and_eq_true, beq_iff_eq, parents, place, place', Origin.child_inj]

end Valid

/-- Whatever a client does, nodes with one origin are one node and stand where it says. -/
theorem run_coherent (operations : List Operation) : (run operations).Coherent := by
  have valid := run_valid operations
  refine ⟨fun node => ⟨valid.exists_reached, ?_⟩, valid.ptrEq_iff, valid.positioned, ?_, ?_⟩
  · rintro ⟨origin, reached⟩
    exact (valid.of_reached reached).1
  · intro origin node parent reached below
    rw [valid.owned.slot_of_child (valid.of_reached reached).1 below]
  · intro held member
    refine ⟨valid.sound held member, fun held' member' => ⟨?_, valid.same_iff member member'⟩⟩
    rw [RedToken.same, Bool.and_eq_true, beq_iff_eq]

/-- A child that is given up has a new address when it is visited again, and two children that hold
the same have two. -/
theorem run_coherent_rebuilt :
    let child := Element.node .list [] []
    let root : Green := ⟨.node .list [some child, some child] [], []⟩
    let session := run [.newRoot root, .slot 0 0, .drop 0, .slot 0 1, .slot 1 0, .slot 2 0]
    session.Coherent ∧
      session.nodes.map (fun held => (held.1.path, held.2.address)) =
        [([0], 3), ([0], 3), ([1], 2), ([], 0)] :=
  ⟨run_coherent _, by decide⟩

end Session

end MatrixScript
