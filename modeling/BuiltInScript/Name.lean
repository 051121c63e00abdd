import BuiltInScript.Text.Upper

/-!
# Names

The language ignores case, in Cyrillic as in Latin: two names are the same name if their folded
spellings agree. A name keeps the spelling that it was written with, for display.

Everything that identifies a name goes through `key`: equality, order and hash. Hence they agree
with each other for every pair of names, whatever their lengths.
-/
namespace BuiltInScript

/-- A name as written, compared without regard to case. Mirrors `CaseInsensitive`. -/
structure Name where
  spelling : String
deriving Repr, Inhabited

namespace Name

/-- The folded spelling, which is what all comparisons look at. Mirrors `CaseInsensitive.folded`. -/
def key (n : Name) : List Char := n.spelling.toList.map Text.foldCase

/-- Mirrors `CaseInsensitive.eq`. -/
instance : BEq Name := ⟨fun a b => a.key == b.key⟩

/-- Lexicographic order of characters by code point; a proper beginning of a word comes first. -/
def compareKeys : List Char → List Char → Ordering
  | [], [] => .eq
  | [], _ :: _ => .lt
  | _ :: _, [] => .gt
  | a :: as, b :: bs => (compare a.toNat b.toNat).then (compareKeys as bs)

/-- Mirrors `CaseInsensitive.cmp`. -/
instance : Ord Name := ⟨fun a b => compareKeys a.key b.key⟩

/-- Passes a name to a hasher: the folded characters one after another, and nothing else. Mirrors
`CaseInsensitive.hash`. -/
def feed {H : Type} (write : H → Char → H) (state : H) (n : Name) : H := n.key.foldl write state

instance : Hashable Name := ⟨feed (fun state c => mixHash state (hash c.toNat)) 7⟩

instance : ToString Name := ⟨Name.spelling⟩

theorem beq_iff {a b : Name} : (a == b) = true ↔ a.key = b.key := by
  show (a.key == b.key) = true ↔ _
  simp

@[simp] theorem compareKeys_eq_iff {as bs : List Char} : compareKeys as bs = .eq ↔ as = bs := by
  induction as generalizing bs with
  | nil => cases bs <;> simp [compareKeys]
  | cons a as ih =>
    cases bs with
    | nil => simp [compareKeys]
    | cons b bs => simp [compareKeys, ih, Ordering.then_eq_eq, Char.toNat_inj]

theorem compareKeys_swap (as bs : List Char) :
    (compareKeys as bs).swap = compareKeys bs as := by
  induction as generalizing bs with
  | nil => cases bs <;> rfl
  | cons a as ih =>
    cases bs with
    | nil => rfl
    | cons b bs => simp [compareKeys, Ordering.swap_then, ih, Nat.compare_swap]

/-- Names are equal in order if they are equal. -/
theorem compare_eq_iff {a b : Name} : compare a b = .eq ↔ (a == b) = true := by
  rw [beq_iff]
  exact compareKeys_eq_iff

instance : EquivBEq Name where
  rfl := beq_iff.2 rfl
  symm h := beq_iff.2 (beq_iff.1 h).symm
  trans h₁ h₂ := beq_iff.2 ((beq_iff.1 h₁).trans (beq_iff.1 h₂))

instance : LawfulHashable Name where
  hash_eq a b h := by
    show feed _ _ a = feed _ _ b
    rw [feed, feed, beq_iff.1 h]

end Name
end BuiltInScript
