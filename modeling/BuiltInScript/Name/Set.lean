import BuiltInScript.Name.Borrowed

/-!
# Sets of names

A set holds one spelling of each name: the first that was inserted since the name was last
removed. Members are kept in order of insertion.
-/
namespace BuiltInScript

structure NameSet where
  members : List Name := []
deriving Repr, Inhabited

namespace NameSet

def empty : NameSet := {}

def contains (s : NameSet) (n : Name) : Bool := s.members.any (· == n)

/-- The member that a borrowed name is equal to. -/
def find? (s : NameSet) (n : BorrowedName) : Option Name := s.members.find? fun m => m.borrow == n

/-- A name that is already there keeps its spelling. -/
def insert (s : NameSet) (n : Name) : NameSet :=
  if s.contains n then s else { members := s.members ++ [n] }

def erase (s : NameSet) (n : Name) : NameSet :=
  { members := s.members.filter fun m => !(m == n) }

@[simp] theorem contains_empty (n : Name) : empty.contains n = false := rfl

/-- After an insertion the set holds the name, and what it held before. -/
@[simp] theorem contains_insert (s : NameSet) (n m : Name) :
    (s.insert n).contains m = (s.contains m || n == m) := by
  unfold insert
  split
  · cases h : n == m
    · simp
    · simp_all only [contains, List.any_eq_true, Bool.or_true]
      obtain ⟨x, hx, hn⟩ := ‹∃ x ∈ s.members, _›
      exact ⟨x, hx, PartialEquivBEq.trans hn h⟩
  · simp [contains]

/-- After an erasure the set holds what it held before, except for the name. -/
@[simp] theorem contains_erase (s : NameSet) (n m : Name) :
    (s.erase n).contains m = (s.contains m && !(n == m)) := by
  cases h : n == m <;> simp only [contains, erase, List.any_filter]
  · simp only [Bool.not_false, Bool.and_true]
    congr 1
    funext x
    cases hx : x == m
    · simp
    · have : (x == n) = false := by
        cases hn : x == n
        · rfl
        · exact absurd (PartialEquivBEq.trans (PartialEquivBEq.symm hn) hx) (by simp [h])
      simp [this]
  · simp only [Bool.not_true, Bool.and_false, List.any_eq_false, Bool.and_eq_true, not_and]
    intro x _ hn hx
    simp [PartialEquivBEq.trans hx (PartialEquivBEq.symm h)] at hn

end NameSet
end BuiltInScript
