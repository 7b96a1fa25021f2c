import MatrixScript.Kind

/-!
Sets of kinds as bit masks: bit `k.number` is set for each member `k`, so equal sets are equal
values.
-/

set_option autoImplicit false

namespace MatrixScript

/-- A set of kinds, one bit per kind. -/
structure KindSet where
  mask : Nat
  deriving DecidableEq, Repr, Inhabited

namespace KindSet

def empty : KindSet := ⟨0⟩

def insert (set : KindSet) (kind : Kind) : KindSet := ⟨set.mask ||| 1 <<< kind.number⟩

def union (left right : KindSet) : KindSet := ⟨left.mask ||| right.mask⟩

def contains (set : KindSet) (kind : Kind) : Bool := set.mask.testBit kind.number

def insertMany (set : KindSet) (kinds : List Kind) : KindSet := kinds.foldl insert set

def ofList (kinds : List Kind) : KindSet := empty.insertMany kinds

def toList (set : KindSet) : List Kind := Kind.all.filter set.contains

@[simp]
theorem contains_empty (kind : Kind) : empty.contains kind = false := by
  simp [contains, empty]

@[simp]
theorem contains_union (left right : KindSet) (kind : Kind) :
    (left.union right).contains kind = (left.contains kind || right.contains kind) := by
  simp [contains, union, Nat.testBit_or]

@[simp]
theorem contains_insert (set : KindSet) (added kind : Kind) :
    (set.insert added).contains kind = (set.contains kind || decide (added = kind)) := by
  have key : decide (added.number = kind.number) = decide (added = kind) := by
    by_cases h : added = kind
    · simp [h]
    · simp [h, mt Kind.number_injective h]
  simp [contains, insert, Nat.testBit_or, Nat.one_shiftLeft, Nat.testBit_two_pow, key]

@[simp]
theorem contains_insertMany (set : KindSet) (kinds : List Kind) (kind : Kind) :
    (set.insertMany kinds).contains kind = (set.contains kind || kinds.contains kind) := by
  induction kinds generalizing set with
  | nil => simp [insertMany]
  | cons added kinds ih =>
    have step := ih (set.insert added)
    simp only [insertMany, List.foldl_cons] at step ⊢
    rw [step, contains_insert, Bool.or_assoc, List.contains_cons]
    congr 2
    exact decide_eq_decide.2 eq_comm

/-- The set of a list has the members of the list. -/
@[simp]
theorem contains_ofList (kinds : List Kind) (kind : Kind) :
    (ofList kinds).contains kind = kinds.contains kind := by
  simp [ofList]

end KindSet

end MatrixScript
