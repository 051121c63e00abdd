import BuiltInScript.Text.Bytes

/-!
# Spans

A span is a half-open range of byte offsets into a source text.
-/
namespace BuiltInScript

/-- Mirrors `Span`. -/
structure Span where
  start : Nat := 0
  stop : Nat := 0
deriving DecidableEq, Repr, Inhabited

namespace Span

/-- Mirrors `Span.is_empty`. -/
def isEmpty (s : Span) : Bool := s.stop ≤ s.start

/-- The least span that covers both. Mirrors `Span.join`. -/
def join (a b : Span) : Span := ⟨min a.start b.start, max a.stop b.stop⟩

/-- The text that the span selects; `none` if it is reversed, leaves the text, or does not begin
and end at character boundaries. Mirrors `Span.get_input`. -/
def slice? (s : Span) (text : String) : Option String :=
  (Text.sliceBytes? text.toList s.start s.stop).map String.ofList

instance : ToString Span := ⟨fun s => s!"{s.start}..{s.stop}"⟩

@[simp] theorem join_self (a : Span) : a.join a = a := by
  simp [join]

theorem join_comm (a b : Span) : a.join b = b.join a := by
  simp [join, Nat.min_comm, Nat.max_comm]

theorem join_assoc (a b c : Span) : (a.join b).join c = a.join (b.join c) := by
  simp [join, Nat.min_assoc, Nat.max_assoc]

/-- A span that begins first and ends last covers a join. -/
theorem join_eq_of_le {a b : Span} (hs : a.start ≤ b.start) (he : a.stop ≤ b.stop) :
    a.join b = ⟨a.start, b.stop⟩ := by
  simp [join, Nat.min_eq_left hs, Nat.max_eq_right he]

end Span
end BuiltInScript
