/-!
# Memoised values

A cell that holds a value once it has been computed, until the cell is cleared.
-/
namespace BuiltInScript

/-- Mirrors `CacheCell`. -/
structure Memo (α : Type) where
  value? : Option α := none
deriving Repr, Inhabited

namespace Memo

variable {α : Type}

/-- Mirrors `CacheCell.new`. -/
def empty : Memo α := {}

/-- The value of the cell, and the cell holding it. The producer runs only if the cell is empty.
Mirrors `CacheCell.get_or_compute`. -/
def force (m : Memo α) (produce : Unit → α) : α × Memo α :=
  match m.value? with
  | some a => (a, m)
  | none => let a := produce (); (a, ⟨some a⟩)

/-- The value that the cell held, and the empty cell. Mirrors `CacheCell.clear`. -/
def clear (m : Memo α) : Option α × Memo α := (m.value?, empty)

instance [ToString α] : ToString (Memo α) :=
  ⟨fun m => match m.value? with
    | some a => toString a
    | none => "<not computed>"⟩

@[simp] theorem force_empty (produce : Unit → α) :
    (empty : Memo α).force produce = (produce (), ⟨some (produce ())⟩) := rfl

@[simp] theorem value?_empty : (empty : Memo α).value? = none := rfl

end Memo
end BuiltInScript
