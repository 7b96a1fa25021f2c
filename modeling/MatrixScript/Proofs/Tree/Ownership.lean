import Mathlib.Data.List.Nodup
import MatrixScript.Tree.Red

/-!
Who holds the nodes of a store.

`Store.Owned store outside` says that the nodes of a store are held by the references `outside` of
it and by their own children, each as often as its cell counts, and that a node remembers exactly
those of its children that are held. Making, visiting and giving up nodes keep it. With it, nodes of
one root and one path are one node.
-/

set_option autoImplicit false

namespace MatrixScript

namespace RedNode

def top : RedNode → RedNode
  | node@(.root ..) => node
  | .child _ _ parent .. => parent.top

def path : RedNode → List Nat
  | .root .. => []
  | .child _ _ parent index _ => parent.path ++ [index]

/-- A child is younger than its parent, and has the element and the offset of its slot; so for all
nodes up to the root. -/
def Sound : RedNode → Prop
  | .root .. => True
  | .child address green parent index offset =>
    parent.address < address ∧ parent.green.slot? index = some green ∧
      green.element.isNode = true ∧
      offset = parent.offset + parent.green.element.slotOffset index ∧ parent.Sound

theorem top_of_parent? {node parent : RedNode} (below : node.parent? = some parent) :
    node.top = parent.top := by
  cases node with
  | root => simp [parent?] at below
  | child =>
    rw [parent?, Option.some.injEq] at below
    rw [top, below]

theorem path_of_parent? {node parent : RedNode} (below : node.parent? = some parent) :
    node.path = parent.path ++ [node.index] := by
  cases node with
  | root => simp [parent?] at below
  | child =>
    rw [parent?, Option.some.injEq] at below
    rw [path, below, index]

theorem Sound.of_parent? {node parent : RedNode} (sound : node.Sound)
    (below : node.parent? = some parent) :
    parent.address < node.address ∧ parent.green.slot? node.index = some node.green ∧
      node.green.element.isNode = true ∧
      node.offset = parent.offset + parent.green.element.slotOffset node.index ∧
      parent.Sound := by
  cases node with
  | root => simp [parent?] at below
  | child address green own index offset =>
    rw [parent?, Option.some.injEq] at below
    subst below
    exact sound

end RedNode

/-- A token is the one of its slot, and has the offset of the slot. -/
def RedToken.Sound (token : RedToken) : Prop :=
  token.parent.green.element.slot? token.index = some (.leaf token.token) ∧
    token.offset = token.parent.offset + token.parent.green.element.slotOffset token.index

def RedElement.StandsIn (node : RedNode) (index : Nat) : RedElement → Prop
  | .node found => found.parent? = some node ∧ found.index = index
  | .token found => found.parent = node ∧ found.index = index ∧ found.Sound

private theorem Green.lt_of_slot? {green child : Green} {index : Nat}
    (found : green.slot? index = some child) : index < green.element.slots.length := by
  obtain ⟨element, slot, -⟩ := Option.map_eq_some_iff.mp found
  rw [Element.slot?, Option.join_eq_some_iff] at slot
  exact (List.getElem?_eq_some_iff.mp slot).1

namespace Store

/-- The references that hold nodes: those from outside, and those of nodes to their parents. -/
def references (store : Store) (outside : List RedNode) : List RedNode :=
  outside ++ store.nodes.filterMap RedNode.parent?

/-- Nodes are held as often as they count, and remember those of their children that are held. -/
structure Owned (store : Store) (outside : List RedNode) : Prop where
  distinct : (store.nodes.map RedNode.address).Nodup
  older : ∀ node ∈ store.nodes, node.address < store.next
  sound : ∀ node ∈ store.nodes, node.Sound
  held : ∀ node ∈ store.references outside, node ∈ store.nodes
  counts : ∀ cell ∈ store.cells, cell.holders = (store.references outside).count cell.node
  positive : ∀ cell ∈ store.cells, 0 < cell.holders
  table : ∀ cell ∈ store.cells, cell.children.length = cell.node.green.element.slots.length
  remembered : ∀ cell ∈ store.cells, ∀ index address,
    cell.children[index]? = some (some address) → address < store.next ∧
      ∀ node ∈ store.nodes, node.address = address →
        node.parent? = some cell.node ∧ node.index = index
  complete : ∀ node ∈ store.nodes, ∀ cell ∈ store.cells, node.parent? = some cell.node →
    cell.children[node.index]? = some (some node.address)

private theorem mem_modify {store : Store} {node : RedNode} {change : Cell → Option Cell}
    {cell' : Cell} :
    cell' ∈ (store.modify node change).cells ↔ ∃ cell ∈ store.cells,
      (if cell.node.address = node.address then change cell else some cell) = some cell' :=
  List.mem_filterMap

theorem next_release (store : Store) (node : RedNode) : (store.release node).next = store.next := by
  induction node generalizing store with
  | root => rfl
  | child address green parent index offset ih =>
    rw [release]
    split
    · rfl
    · rw [ih]
      rfl

theorem le_next_slot (store : Store) (node : RedNode) (index : Nat) :
    store.next ≤ (store.slot node index).2.next := by
  unfold slot childNode
  split
  · exact Nat.le_refl _
  · split
    · exact Nat.le_refl _
    · split
      · exact Nat.le_refl _
      · exact Nat.le_succ _

private theorem nodes_modify {store : Store} {node : RedNode} {change : Cell → Option Cell}
    (keeps : ∀ cell ∈ store.cells, cell.node.address = node.address →
      (change cell).map Cell.node = some cell.node) :
    (store.modify node change).nodes = store.nodes := by
  have each : ∀ cell ∈ store.cells,
      (if cell.node.address = node.address then change cell else some cell).map Cell.node =
        some cell.node := by
    intro cell member
    split
    · exact keeps cell member ‹_›
    · rfl
  rw [nodes, modify, List.map_filterMap, List.filterMap_congr each, List.filterMap_eq_map']
  rfl

private theorem isHeld_iff {store : Store} {node : RedNode} :
    store.isHeld node = true ↔ ∃ other ∈ store.nodes, other.address = node.address := by
  simp [isHeld, cell?, nodes, List.find?_isSome]

namespace Owned

variable {store store' : Store} {outside outside' : List RedNode} {node : RedNode}

theorem empty : Owned {} [] := by
  constructor <;> simp [nodes, references]

theorem eq_of_address (owned : store.Owned outside) {a b : RedNode} (left : a ∈ store.nodes)
    (right : b ∈ store.nodes) (same : a.address = b.address) : a = b :=
  List.inj_on_of_nodup_map owned.distinct left right same

private theorem node_mem {cell : Cell} (member : cell ∈ store.cells) : cell.node ∈ store.nodes :=
  List.mem_map_of_mem member

theorem parent_mem (owned : store.Owned outside) {parent : RedNode} (member : node ∈ store.nodes)
    (below : node.parent? = some parent) : parent ∈ store.nodes :=
  owned.held parent (List.mem_append_right _ (List.mem_filterMap.mpr ⟨node, member, below⟩))

private theorem cell_unique (owned : store.Owned outside) {a b : Cell} (left : a ∈ store.cells)
    (right : b ∈ store.cells) (same : a.node.address = b.node.address) : a = b := by
  have addresses := owned.distinct
  rw [nodes, List.map_map] at addresses
  exact List.inj_on_of_nodup_map addresses left right same

private theorem cell?_eq_some (owned : store.Owned outside) {cell : Cell}
    (member : cell ∈ store.cells) :
    store.cell? cell.node.address = some cell := by
  cases found : store.cell? cell.node.address with
  | none => simpa using List.find?_eq_none.mp found cell member
  | some other =>
    have same : other.node.address = cell.node.address := by simpa using List.find?_some found
    rw [owned.cell_unique (List.mem_of_find?_eq_some found) member same]

theorem perm (owned : store.Owned outside) (same : outside.Perm outside') :
    store.Owned outside' := by
  have references : (store.references outside).Perm (store.references outside') :=
    same.append_right _
  exact { owned with
    held := fun node member => owned.held node (references.mem_iff.mpr member)
    counts := fun cell member => by rw [owned.counts cell member, references.count_eq] }

private theorem recounted (owned : store.Owned outside) (next : store'.next = store.next)
    (nodes : store'.nodes.Sublist store.nodes)
    (held : ∀ node ∈ store'.references outside', node ∈ store'.nodes)
    (cells : ∀ cell' ∈ store'.cells, ∃ cell ∈ store.cells,
      cell'.node = cell.node ∧ cell'.children = cell.children ∧
        cell'.holders = (store'.references outside').count cell.node ∧ 0 < cell'.holders) :
    store'.Owned outside' where
  distinct := owned.distinct.sublist (nodes.map _)
  older node member := next ▸ owned.older node (nodes.subset member)
  sound node member := owned.sound node (nodes.subset member)
  held := held
  counts cell' member := by
    obtain ⟨cell, -, node, -, holders, -⟩ := cells cell' member
    rw [holders, node]
  positive cell' member := by
    obtain ⟨-, -, -, -, -, positive⟩ := cells cell' member
    exact positive
  table cell' member := by
    obtain ⟨cell, before, node, children, -⟩ := cells cell' member
    rw [node, children]
    exact owned.table cell before
  remembered cell' member index address found := by
    obtain ⟨cell, before, node, children, -⟩ := cells cell' member
    rw [children] at found
    obtain ⟨older, child⟩ := owned.remembered cell before index address found
    rw [next, node]
    exact ⟨older, fun node member => child node (nodes.subset member)⟩
  complete node member cell' there parent := by
    obtain ⟨cell, before, same, children, -⟩ := cells cell' there
    rw [children]
    exact owned.complete node (nodes.subset member) cell before (by rw [parent, same])

theorem retain (owned : store.Owned outside) (member : node ∈ store.nodes) :
    (store.retain node).Owned (node :: outside) := by
  have nodes : (store.retain node).nodes = store.nodes := nodes_modify fun _ _ _ => rfl
  have references : (store.retain node).references (node :: outside) =
      node :: store.references outside := by
    rw [Store.references, nodes]
    rfl
  refine owned.recounted rfl (by rw [nodes]) ?_ fun cell' after => ?_
  · rw [references, nodes]
    exact List.forall_mem_cons.mpr ⟨member, owned.held⟩
  · obtain ⟨cell, before, changed⟩ := mem_modify.mp after
    have counted := owned.counts cell before
    have positive := owned.positive cell before
    refine ⟨cell, before, ?_⟩
    rw [references]
    split at changed
    · rename_i same
      have isNode := owned.eq_of_address (node_mem before) member same
      rw [Option.some.injEq] at changed
      subst changed
      have more : cell.holders + 1 = (node :: store.references outside).count cell.node := by
        rw [isNode, List.count_cons_self, ← isNode, counted]
      exact ⟨rfl, rfl, more, Nat.succ_pos _⟩
    · rename_i other
      rw [Option.some.injEq] at changed
      subst changed
      have apart : node ≠ cell.node := fun same => other (by rw [same])
      exact ⟨rfl, rfl, by rw [List.count_cons_of_ne apart, counted], positive⟩

private theorem loosen_cells (owned : store.Owned (node :: outside)) {rest : List RedNode}
    (parted : (store.references (node :: outside)).Perm (node :: rest)) :
    ∀ cell' ∈ (store.loosen node).cells, ∃ cell ∈ store.cells,
      cell'.node = cell.node ∧ cell'.children = cell.children ∧
        cell'.holders = rest.count cell.node ∧ 0 < cell'.holders := by
  intro cell' after
  obtain ⟨cell, before, changed⟩ := mem_modify.mp after
  have counted := owned.counts cell before
  rw [parted.count_eq] at counted
  refine ⟨cell, before, ?_⟩
  split at changed
  · rename_i same
    have isNode := owned.eq_of_address (node_mem before) (owned.held node List.mem_cons_self) same
    rw [isNode, List.count_cons_self, ← isNode] at counted
    rw [Cell.loosen?, Option.ite_none_left_eq_some, Option.some.injEq] at changed
    obtain ⟨more, rfl⟩ := changed
    have less : cell.holders - 1 = rest.count cell.node := by omega
    have some_left : 0 < cell.holders - 1 := by omega
    exact ⟨rfl, rfl, less, some_left⟩
  · rename_i other
    have apart : node ≠ cell.node := fun same => other (by rw [same])
    rw [List.count_cons_of_ne apart] at counted
    rw [Option.some.injEq] at changed
    subst changed
    exact ⟨rfl, rfl, counted, owned.positive cell before⟩

private theorem loosen_stays (owned : store.Owned (node :: outside)) {cell : Cell}
    (member : cell ∈ store.cells) (isNode : cell.node = node) (more : 1 < cell.holders) :
    (store.loosen node).Owned outside ∧ (store.loosen node).isHeld node = true := by
  have nodes : (store.loosen node).nodes = store.nodes := by
    refine nodes_modify fun other there same => ?_
    have isCell := owned.cell_unique there member (by rw [same, isNode])
    rw [Cell.loosen?, if_neg (by rw [isCell]; omega)]
    rfl
  have references : store.references (node :: outside) =
      node :: (store.loosen node).references outside := by
    rw [Store.references, Store.references, nodes]
    rfl
  have held := owned.held
  rw [references, List.forall_mem_cons] at held
  have cells := owned.loosen_cells (List.Perm.of_eq references)
  refine ⟨owned.recounted rfl (by rw [nodes]) (by rw [nodes]; exact held.2) cells, ?_⟩
  rw [isHeld_iff, nodes]
  exact ⟨node, held.1, rfl⟩

private theorem loosen_goes (owned : store.Owned (node :: outside)) {cell : Cell}
    (member : cell ∈ store.cells) (isNode : cell.node = node) (last : cell.holders ≤ 1) :
    (store.loosen node).Owned (node.parent?.toList ++ outside) ∧
      (store.loosen node).isHeld node = false := by
  have there : node ∈ store.nodes := owned.held node List.mem_cons_self
  have distinct : store.nodes.Nodup := owned.distinct.of_map _
  have nodes : (store.loosen node).nodes = store.nodes.erase node := by
    have each : ∀ other ∈ store.cells,
        (if other.node.address = node.address then other.loosen? else some other).map Cell.node =
          Option.guard (· != node) other.node := by
      intro other before
      split
      · rename_i same
        have isCell := owned.cell_unique before member (by rw [same, isNode])
        rw [isCell, Cell.loosen?, if_pos last, isNode]
        simp [Option.guard]
      · rename_i apart
        have different : other.node ≠ node := fun same => apart (by rw [same])
        simp [Option.guard, different]
    rw [Store.nodes, loosen, modify, List.map_filterMap, List.filterMap_congr each,
      distinct.erase_eq_filter, ← List.filterMap_eq_filter, Store.nodes, List.filterMap_map]
    rfl
  have parted : (store.references (node :: outside)).Perm
      (node :: (store.loosen node).references (node.parent?.toList ++ outside)) := by
    have parents : (store.nodes.filterMap RedNode.parent?).Perm
        (node.parent?.toList ++ (store.nodes.erase node).filterMap RedNode.parent?) := by
      have front := (List.perm_cons_erase there).filterMap RedNode.parent?
      rw [List.filterMap_cons] at front
      cases parent : node.parent? <;> simpa [parent] using front
    rw [Store.references, Store.references, nodes, List.cons_append, List.perm_cons]
    refine (parents.append_left outside).trans ?_
    rw [← List.append_assoc]
    exact List.perm_append_comm.append_right _
  -- The one reference counted is the one given up, so no other is left.
  have alone : node ∉ (store.loosen node).references (node.parent?.toList ++ outside) := by
    have counted := owned.counts cell member
    rw [parted.count_eq, isNode, List.count_cons_self] at counted
    rw [← List.count_eq_zero]
    omega
  refine ⟨owned.recounted rfl ?_ ?_ (owned.loosen_cells parted), ?_⟩
  · rw [nodes]
    exact List.erase_sublist
  · intro other reference
    have before := owned.held other (parted.mem_iff.mpr (List.mem_cons_of_mem _ reference))
    have different : other ≠ node := fun same => alone (same ▸ reference)
    rw [nodes]
    exact (List.mem_erase_of_ne different).mpr before
  · rw [← Bool.not_eq_true, isHeld_iff, nodes]
    rintro ⟨other, left, same⟩
    have before := List.mem_of_mem_erase left
    rw [owned.eq_of_address before there same] at left
    exact distinct.not_mem_erase left

private theorem loosen (owned : store.Owned (node :: outside)) :
    (store.loosen node).Owned outside ∧ (store.loosen node).isHeld node = true ∨
      (store.loosen node).Owned (node.parent?.toList ++ outside) ∧
        (store.loosen node).isHeld node = false := by
  obtain ⟨cell, member, isNode⟩ := List.mem_map.mp (owned.held node List.mem_cons_self)
  by_cases more : 1 < cell.holders
  · exact Or.inl (owned.loosen_stays member isNode more)
  · exact Or.inr (owned.loosen_goes member isNode (by omega))

theorem release (owned : store.Owned (node :: outside)) : (store.release node).Owned outside := by
  induction node generalizing store with
  | root address green =>
    rw [Store.release]
    obtain ⟨after, -⟩ | ⟨after, -⟩ := owned.loosen
    · exact after
    · exact after
  | child address green parent index offset ih =>
    rw [Store.release]
    obtain ⟨after, isHeld⟩ | ⟨after, isGone⟩ := owned.loosen
    · rw [if_pos isHeld]
      exact after
    · rw [if_neg (by rw [isGone]; exact Bool.false_ne_true)]
      exact ih after

private theorem of_handedOut? (owned : store.Owned outside) {parent child : RedNode} {index : Nat}
    (member : parent ∈ store.nodes) (found : store.handedOut? parent index = some child) :
    child ∈ store.nodes ∧ child.parent? = some parent ∧ child.index = index := by
  obtain ⟨cell, there, rfl⟩ := List.mem_map.mp member
  simp only [handedOut?, owned.cell?_eq_some there, Option.bind_eq_bind, Option.bind_some] at found
  obtain ⟨address, remembered, later⟩ := Option.bind_eq_some_iff.mp found
  obtain ⟨other, held, same⟩ := Option.bind_eq_some_iff.mp later
  rw [Option.pure_def, Option.some.injEq] at same
  subst same
  have isNode := node_mem (List.mem_of_find?_eq_some held)
  have place : other.node.address = address := by simpa using List.find?_some held
  obtain ⟨-, child⟩ :=
    owned.remembered cell there index address (Option.join_eq_some_iff.mp remembered)
  exact ⟨isNode, child other.node isNode place⟩

private theorem handedOut?_of_child (owned : store.Owned outside) {parent child : RedNode}
    (member : child ∈ store.nodes) (below : child.parent? = some parent) :
    store.handedOut? parent child.index = some child := by
  obtain ⟨cell, there, rfl⟩ := List.mem_map.mp (owned.parent_mem member below)
  obtain ⟨own, ownThere, rfl⟩ := List.mem_map.mp member
  have remembered := owned.complete own.node member cell there below
  simp only [handedOut?, owned.cell?_eq_some there, remembered, owned.cell?_eq_some ownThere,
    Option.bind_eq_bind, Option.bind_some, Option.join_some, Option.pure_def]

end Owned

/-- A store in which `child` was made, and is remembered by its parent if it has one. -/
structure Grows (store store' : Store) (child : RedNode) : Prop where
  address : child.address = store.next
  sound : child.Sound
  gone : ∀ parent, child.parent? = some parent → store.handedOut? parent child.index = none
  next : store'.next = store.next + 1
  nodes : store'.nodes = child :: store.nodes
  cells : ∀ cell' ∈ store'.cells, cell' = .new child ∨ ∃ cell ∈ store.cells,
    cell' = if child.parent? = some cell.node then cell.remember child.index child else cell

namespace Grows

variable {store store' : Store} {outside outside' : List RedNode} {child : RedNode}

private theorem cell_cases (grows : Grows store store' child) {cell' : Cell}
    (member : cell' ∈ store'.cells) : cell' = .new child ∨ ∃ cell ∈ store.cells,
      cell'.node = cell.node ∧ cell'.holders = cell.holders ∧
        (cell'.children = cell.children ∧ child.parent? ≠ some cell.node ∨
          cell'.children = cell.children.set child.index (some child.address) ∧
            child.parent? = some cell.node) := by
  refine (grows.cells cell' member).imp_right fun ⟨cell, before, same⟩ => ⟨cell, before, ?_⟩
  by_cases below : child.parent? = some cell.node
  · rw [same, if_pos below]
    exact ⟨rfl, rfl, Or.inr ⟨rfl, below⟩⟩
  · rw [same, if_neg below]
    exact ⟨rfl, rfl, Or.inl ⟨rfl, below⟩⟩

private theorem apart (grows : Grows store store' child) (owned : store.Owned outside)
    {node : RedNode}
    (member : node ∈ store.nodes) : node.address ≠ child.address := by
  have older := owned.older node member
  have youngest := grows.address
  omega

private theorem unheld (grows : Grows store store' child) (owned : store.Owned outside) :
    child ∉ store.references outside :=
  fun reference => grows.apart owned (owned.held child reference) rfl

private theorem keeps (grows : Grows store store' child) (owned : store.Owned outside)
    {cell : Cell} (before : cell ∈ store.cells) {index address : Nat}
    (found : cell.children[index]? = some (some address)) :
    address < store'.next ∧ ∀ node ∈ store'.nodes, node.address = address →
      node.parent? = some cell.node ∧ node.index = index := by
  obtain ⟨older, below⟩ := owned.remembered cell before index address found
  have youngest := grows.address
  rw [grows.nodes, grows.next, List.forall_mem_cons]
  exact ⟨Nat.lt_succ_of_lt older, fun same => by omega, below⟩

private theorem remembered (grows : Grows store store' child) (owned : store.Owned outside)
    {cell' : Cell} (member : cell' ∈ store'.cells) {index address : Nat}
    (found : cell'.children[index]? = some (some address)) :
    address < store'.next ∧ ∀ node ∈ store'.nodes, node.address = address →
      node.parent? = some cell'.node ∧ node.index = index := by
  obtain rfl | ⟨cell, before, node, -, ⟨children, -⟩ | ⟨children, below⟩⟩ :=
    grows.cell_cases member
  · rw [Cell.new, List.getElem?_map, Option.map_eq_some_iff] at found
    obtain ⟨_, _, unset⟩ := found
    exact absurd unset (Option.some_ne_none _).symm
  · rw [children] at found
    rw [node]
    exact grows.keeps owned before found
  · rw [children, List.getElem?_set] at found
    rw [node]
    split at found
    · rename_i here
      simp only [Option.ite_none_right_eq_some, Option.some.injEq] at found
      obtain ⟨-, rfl⟩ := found
      have youngest := grows.address
      rw [grows.nodes, grows.next, List.forall_mem_cons]
      refine ⟨by omega, fun _ => ⟨below, here⟩, fun other member same => ?_⟩
      exact absurd same (grows.apart owned member)
    · exact grows.keeps owned before found

private theorem remembers_child (grows : Grows store store' child) (owned : store.Owned outside)
    {cell' : Cell} (member : cell' ∈ store'.cells) (below : child.parent? = some cell'.node) :
    cell'.children[child.index]? = some (some child.address) := by
  obtain rfl | ⟨cell, before, node, -, ⟨-, other⟩ | ⟨children, parent⟩⟩ := grows.cell_cases member
  · exact absurd (grows.sound.of_parent? below).1 (Nat.lt_irrefl _)
  · rw [node] at below
    exact absurd below other
  · have inside : child.index < cell.children.length := by
      rw [owned.table cell before]
      exact Green.lt_of_slot? (grows.sound.of_parent? parent).2.1
    rw [children, List.getElem?_set_self inside]

private theorem remembers_other (grows : Grows store store' child) (owned : store.Owned outside)
    {other : RedNode} (earlier : other ∈ store.nodes) {cell' : Cell}
    (member : cell' ∈ store'.cells) (below : other.parent? = some cell'.node) :
    cell'.children[other.index]? = some (some other.address) := by
  obtain rfl | ⟨cell, before, node, -, ⟨children, -⟩ | ⟨children, parent⟩⟩ :=
    grows.cell_cases member
  · exact absurd (owned.parent_mem earlier below) fun held => grows.apart owned held rfl
  · rw [children]
    exact owned.complete other earlier cell before (by rw [below, node])
  · rw [node] at below
    have handed := owned.handedOut?_of_child earlier below
    have different : child.index ≠ other.index := by
      intro same
      rw [← same, grows.gone cell.node parent] at handed
      exact Option.some_ne_none other handed.symm
    rw [children, List.getElem?_set_ne different]
    exact owned.complete other earlier cell before below

private theorem owned (grows : Grows store store' child) (owned : store.Owned outside)
    (references : (store'.references outside').Perm (child :: store.references outside)) :
    store'.Owned outside' where
  distinct := by
    rw [grows.nodes, List.map_cons, List.nodup_cons]
    refine ⟨fun inside => ?_, owned.distinct⟩
    obtain ⟨node, member, same⟩ := List.mem_map.mp inside
    exact grows.apart owned member same
  older := by
    have youngest := grows.address
    rw [grows.nodes, grows.next, List.forall_mem_cons]
    exact ⟨by omega, fun node member => Nat.lt_succ_of_lt (owned.older node member)⟩
  sound := by
    rw [grows.nodes, List.forall_mem_cons]
    exact ⟨grows.sound, owned.sound⟩
  held node member := by
    rw [grows.nodes]
    obtain rfl | before := List.mem_cons.mp (references.mem_iff.mp member)
    · exact List.mem_cons_self
    · exact List.mem_cons_of_mem _ (owned.held node before)
  counts cell' member := by
    rw [references.count_eq]
    obtain rfl | ⟨cell, before, node, holders, -⟩ := grows.cell_cases member
    · rw [Cell.new, List.count_cons_self, List.count_eq_zero.mpr (grows.unheld owned)]
    · have other : child ≠ cell.node :=
        fun same => grows.apart owned (Owned.node_mem before) (by rw [same])
      rw [node, holders, List.count_cons_of_ne other, owned.counts cell before]
  positive cell' member := by
    obtain rfl | ⟨cell, before, -, holders, -⟩ := grows.cell_cases member
    · exact Nat.one_pos
    · rw [holders]
      exact owned.positive cell before
  table cell' member := by
    obtain rfl | ⟨cell, before, node, -, ⟨children, -⟩ | ⟨children, -⟩⟩ := grows.cell_cases member
    · exact List.length_map _
    · rw [node, children, owned.table cell before]
    · rw [node, children, List.length_set, owned.table cell before]
  remembered cell' member index address found := grows.remembered owned member found
  complete other member cell' there below := by
    rw [grows.nodes] at member
    obtain rfl | earlier := List.mem_cons.mp member
    · exact grows.remembers_child owned there below
    · exact grows.remembers_other owned earlier there below

end Grows

namespace Owned

variable {store store' : Store} {outside : List RedNode} {node : RedNode}

theorem newRoot (owned : store.Owned outside) (green : Green) :
    (store.newRoot green).2.Owned ((store.newRoot green).1 :: outside) := by
  have grows : Grows store (store.newRoot green).2 (.root store.next green) :=
    { address := rfl
      sound := trivial
      gone := fun parent below => absurd below (Option.some_ne_none parent).symm
      next := rfl
      nodes := rfl
      cells := by
        intro cell' member
        rw [Store.newRoot, add, List.mem_cons] at member
        obtain rfl | before := member
        · exact Or.inl rfl
        · exact Or.inr ⟨cell', before, by simp [RedNode.parent?]⟩ }
  exact grows.owned owned (List.Perm.refl _)

private theorem grow (owned : store.Owned (node :: outside)) {green : Green} {index : Nat}
    (there : node.green.slot? index = some green) (isNode : green.element.isNode = true)
    (gone : store.handedOut? node index = none) {child : RedNode}
    (made : child = .child store.next green node index
      (node.offset + node.green.element.slotOffset index)) :
    ((store.add child).modify node fun cell => some (cell.remember index child)).Owned
      (child :: outside) := by
  have member : node ∈ store.nodes := owned.held node List.mem_cons_self
  have older := owned.older node member
  have address : child.address = store.next := by rw [made, RedNode.address]
  have parent : child.parent? = some node := by rw [made, RedNode.parent?]
  have slot : child.index = index := by rw [made, RedNode.index]
  have nodes : ((store.add child).modify node fun cell => some (cell.remember index child)).nodes =
      child :: store.nodes := by
    rw [nodes_modify fun _ _ _ => rfl]
    rfl
  have grows : Grows store
      ((store.add child).modify node fun cell => some (cell.remember index child)) child := by
    refine ⟨address, ?_, ?_, rfl, nodes, fun cell' after => ?_⟩
    · rw [made]
      exact ⟨older, there, isNode, rfl, owned.sound node member⟩
    · intro other below
      rw [parent, Option.some.injEq] at below
      rw [← below, slot]
      exact gone
    · obtain ⟨cell, before, changed⟩ := mem_modify.mp after
      rw [add, List.mem_cons] at before
      obtain rfl | before := before
      · rw [if_neg (by rw [Cell.new, address]; omega), Option.some.injEq] at changed
        exact Or.inl changed.symm
      · refine Or.inr ⟨cell, before, ?_⟩
        rw [parent, slot]
        split at changed
        · rename_i same
          rw [Option.some.injEq] at changed
          rw [if_pos (by rw [owned.eq_of_address (node_mem before) member same]), changed]
        · rename_i other
          rw [Option.some.injEq] at changed
          rw [if_neg (fun same => other (by rw [Option.some.inj same])), changed]
  refine grows.owned owned ?_
  rw [references, nodes, List.filterMap_cons, parent, List.cons_append, List.perm_cons]
  exact List.perm_middle

private theorem childNode (owned : store.Owned outside) (member : node ∈ store.nodes)
    {green : Green}
    {index : Nat} (there : node.green.slot? index = some green)
    (isNode : green.element.isNode = true) {child : RedNode}
    (visited : store.childNode node index green
      (node.offset + node.green.element.slotOffset index) = (child, store')) :
    store'.Owned (child :: outside) ∧ child.parent? = some node ∧ child.index = index := by
  unfold Store.childNode at visited
  split at visited
  · rename_i handed found
    rw [Prod.mk.injEq] at visited
    obtain ⟨rfl, rfl⟩ := visited
    obtain ⟨held, parent, slot⟩ := owned.of_handedOut? member found
    exact ⟨owned.retain held, parent, slot⟩
  · rename_i gone
    rw [Prod.mk.injEq] at visited
    obtain ⟨made, rfl⟩ := visited
    have retained := owned.retain member
    have nodes : (store.retain node).nodes = store.nodes := nodes_modify fun _ _ _ => rfl
    have stillGone : (store.retain node).handedOut? node index = none := by
      rw [← Option.not_isSome_iff_eq_none, Option.isSome_iff_exists]
      rintro ⟨other, found⟩
      obtain ⟨held, parent, rfl⟩ := retained.of_handedOut? (nodes ▸ member) found
      rw [nodes] at held
      simp [owned.handedOut?_of_child held parent] at gone
    refine ⟨?_, by rw [← made, RedNode.parent?], by rw [← made, RedNode.index]⟩
    rw [← made]
    exact retained.grow there isNode stillGone rfl

theorem slot (owned : store.Owned outside) (member : node ∈ store.nodes) (index : Nat) :
    store.slot node index = (none, store) ∨
      ∃ element after, store.slot node index = (some element, after) ∧
        after.Owned (element.holds :: outside) ∧ element.StandsIn node index := by
  unfold Store.slot
  cases there : node.green.slot? index with
  | none => exact Or.inl rfl
  | some green =>
    refine Or.inr ?_
    cases content : green.element with
    | leaf token =>
      obtain ⟨element, slot, whole⟩ := Option.map_eq_some_iff.mp there
      have isLeaf : element = .leaf token := by rw [← content, ← whole]
      rw [isLeaf] at slot
      let found : RedToken :=
        ⟨token, node, index, node.offset + node.green.element.slotOffset index⟩
      refine ⟨.token found, store.retain node, ?_, owned.retain member, rfl, rfl, slot, rfl⟩
      simp only [content, found]
    | node kind slots diagnostics =>
      have isNode : green.element.isNode = true := by rw [content, Element.isNode]
      cases visited : store.childNode node index green
          (node.offset + node.green.element.slotOffset index) with
      | mk child after =>
        obtain ⟨kept, stands⟩ := owned.childNode member there isNode visited
        exact ⟨.node child, after, by simp only [content, visited], kept, stands⟩

/-- Visiting the slot of a child that is held gives the child. -/
theorem slot_of_child (owned : store.Owned outside) {parent child : RedNode}
    (member : child ∈ store.nodes) (below : child.parent? = some parent) :
    store.slot parent child.index = (some (.node child), store.retain child) := by
  obtain ⟨-, there, isNode, -⟩ := (owned.sound child member).of_parent? below
  have handed := owned.handedOut?_of_child member below
  unfold Store.slot
  rw [there]
  cases content : child.green.element with
  | leaf token => simp [content, Element.isNode] at isNode
  | node kind slots diagnostics => simp only [content, Store.childNode, handed]

theorem eq_of_path (owned : store.Owned outside) {a b : RedNode} (left : a ∈ store.nodes)
    (right : b ∈ store.nodes) (top : a.top = b.top) (path : a.path = b.path) : a = b := by
  induction a generalizing b with
  | root address green =>
    cases b with
    | root => exact top
    | child => simp [RedNode.path] at path
  | child address green parent index offset ih =>
    cases b with
    | root => simp [RedNode.path] at path
    | child address' green' parent' index' offset' =>
      simp only [RedNode.path] at path
      obtain ⟨above, slot⟩ := List.append_inj' path rfl
      rw [List.singleton_inj] at slot
      subst slot
      obtain rfl : parent = parent' :=
        ih (owned.parent_mem left rfl) (owned.parent_mem right rfl) top above
      -- The parent remembers one child for the slot.
      have first : store.handedOut? parent index =
          some (.child address green parent index offset) := owned.handedOut?_of_child left rfl
      have second : store.handedOut? parent index =
          some (.child address' green' parent index offset') := owned.handedOut?_of_child right rfl
      exact Option.some.inj (first.symm.trans second)

end Owned

end Store

end MatrixScript
