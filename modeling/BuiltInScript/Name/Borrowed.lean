import BuiltInScript.Name

/-!
# Borrowed names

To look a name up, its spelling need not be copied: a part of a text will do. A borrowed name is
compared, ordered and hashed like a name of its own.
-/
namespace BuiltInScript

/-- A name that is spelled by a part of a text. Mirrors `CaseInsensitive.new_ref`. -/
structure BorrowedName where
  spelling : String.Slice

namespace BorrowedName

/-- The folded spelling. Mirrors `CaseInsensitive.folded`. -/
def key (n : BorrowedName) : List Char := n.spelling.chars.toList.map Text.foldCase

/-- Mirrors `CaseInsensitive.eq`. -/
instance : BEq BorrowedName := ⟨fun a b => a.key == b.key⟩

/-- Mirrors `CaseInsensitive.cmp`. -/
instance : Ord BorrowedName := ⟨fun a b => Name.compareKeys a.key b.key⟩

/-- Passes the name to a hasher. Mirrors `CaseInsensitive.hash`. -/
def feed {H : Type} (write : H → Char → H) (state : H) (n : BorrowedName) : H :=
  n.key.foldl write state

/-- The name with a spelling of its own. -/
def copy (n : BorrowedName) : Name := ⟨n.spelling.copy⟩

@[simp] theorem key_copy (n : BorrowedName) : n.copy.key = n.key := by
  rw [Name.key, key, String.Slice.toList_chars]
  rfl

end BorrowedName

namespace Name

/-- The name, with its spelling lent. Mirrors `CaseInsensitive.borrow`. -/
def borrow (n : Name) : BorrowedName := ⟨n.spelling.toSlice⟩

@[simp] theorem copy_borrow (n : Name) : n.borrow.copy = n := by
  rw [BorrowedName.copy, borrow, String.copy_toSlice]

@[simp] theorem key_borrow (n : Name) : n.borrow.key = n.key := by
  rw [← BorrowedName.key_copy, copy_borrow]

end Name
end BuiltInScript
