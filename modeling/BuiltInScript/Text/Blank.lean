/-!
# White space

The Unicode property White_Space, and within it the two characters that break lines. Everything
else that is blank, vertical tab and line separator included, may stand inside a line.
-/
namespace BuiltInScript.Text

def isBlank (c : Char) : Bool :=
  let n := c.toNat
  (0x9 ≤ n && n ≤ 0xD) || n == 0x20 || n == 0x85 || n == 0xA0 || n == 0x1680 ||
    (0x2000 ≤ n && n ≤ 0x200A) || n == 0x2028 || n == 0x2029 || n == 0x202F || n == 0x205F ||
    n == 0x3000

/-- `\r` and `\n`, alone or together, end a line. -/
def isLineBreak (c : Char) : Bool := c == '\r' || c == '\n'

/-- Blank, and not the end of the line. Mirrors `is_inline_space`. -/
def isInlineBlank (c : Char) : Bool := isBlank c && !isLineBreak c

theorem isBlank_of_isLineBreak {c : Char} (h : isLineBreak c) : isBlank c := by
  simp only [isLineBreak, Bool.or_eq_true, beq_iff_eq] at h
  rcases h with rfl | rfl <;> decide

theorem isBlank_iff {c : Char} : isBlank c ↔ isInlineBlank c ∨ isLineBreak c := by
  have := @isBlank_of_isLineBreak c
  cases h : isLineBreak c <;> simp_all [isInlineBlank]

end BuiltInScript.Text
