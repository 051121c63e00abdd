/-!
# Sets of code points

A property of characters that a standard gives as a table is kept here as an ascending list of
closed ranges of code points.

Main statement: `contains_iff`, in an ascending list the search finds what lies in some range.
-/
namespace BuiltInScript.Text

/-- Closed ranges of code points, ascending and apart from each other. -/
abbrev CodePointRanges := List (Nat × Nat)

/-- Membership. The search ends at the first range that begins beyond the code point. -/
def CodePointRanges.contains : CodePointRanges → Nat → Bool
  | [], _ => false
  | (low, high) :: rest, n =>
    if n < low then false else if n ≤ high then true else contains rest n

namespace CodePointRanges

/-- Ranges that begin at or after a bound, ascending and apart from each other. -/
def ascendingFrom (bound : Nat) : CodePointRanges → Bool
  | [] => true
  | (low, high) :: rest => bound ≤ low && low ≤ high && ascendingFrom (high + 1) rest

theorem le_of_ascendingFrom {ranges : CodePointRanges} {bound : Nat}
    (h : ascendingFrom bound ranges) {r : Nat × Nat} (hr : r ∈ ranges) : bound ≤ r.1 := by
  induction ranges generalizing bound with
  | nil => simp at hr
  | cons x rest ih =>
    obtain ⟨low, high⟩ := x
    simp only [ascendingFrom, Bool.and_eq_true, decide_eq_true_eq] at h
    rcases List.mem_cons.1 hr with rfl | hr
    · exact h.1.1
    · have := ih h.2 hr
      omega

/-- Ending the search early loses nothing. -/
theorem contains_iff {ranges : CodePointRanges} {bound : Nat} (h : ascendingFrom bound ranges)
    (n : Nat) : contains ranges n ↔ ∃ r ∈ ranges, r.1 ≤ n ∧ n ≤ r.2 := by
  induction ranges generalizing bound with
  | nil => simp [contains]
  | cons x rest ih =>
    obtain ⟨low, high⟩ := x
    simp only [ascendingFrom, Bool.and_eq_true, decide_eq_true_eq] at h
    have later := fun r hr => le_of_ascendingFrom h.2 (r := r) hr
    simp only [contains, List.mem_cons, exists_eq_or_imp]
    split
    · simp only [Bool.false_eq_true, false_iff, not_or, not_exists, not_and]
      exact ⟨by omega, fun r hr hle => by have := later r hr; omega⟩
    · split
      · simp
        omega
      · rw [ih h.2]
        simp
        omega

end CodePointRanges
end BuiltInScript.Text
