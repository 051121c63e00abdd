import BuiltInScript.Text.Alphabetic
import BuiltInScript.Text.Numeric

/-!
# Words

Keywords and identifiers are words: a letter or `_`, then letters, numbers and `_`.
-/
namespace BuiltInScript.Text

/-- Mirrors `is_word_start`. -/
def isWordStart (c : Char) : Bool := isAlphabetic c || c == '_'

/-- Mirrors `is_word_char`. -/
def isWordChar (c : Char) : Bool := isAlphabetic c || isNumeric c || c == '_'

def isDigit (c : Char) : Bool := '0' ≤ c && c ≤ '9'

theorem isWordChar_of_isWordStart {c : Char} (h : isWordStart c) : isWordChar c := by
  simp only [isWordStart, isWordChar, Bool.or_eq_true] at h ⊢
  rcases h with h | h <;> simp [h]

end BuiltInScript.Text
