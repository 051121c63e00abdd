import BuiltInScript.Text.Upper

/-!
# Word tables

Most words of the languages have a Russian and an English spelling. Tables are looked up by folded
spelling.
-/
namespace BuiltInScript

/-- What each folded word stands for. -/
abbrev WordTable (α : Type) := List (List Char × α)

def foldWord (word : String) : List Char := word.toList.map Text.foldCase

/-- A table of words given by their Russian and English spellings. Mirrors `table`. -/
def wordTable {α : Type} (rows : List (String × String × α)) : WordTable α :=
  rows.flatMap fun (russian, english, a) => [(foldWord russian, a), (foldWord english, a)]

/-- What a folded word stands for. -/
def WordTable.find? {α : Type} (table : WordTable α) (word : List Char) : Option α :=
  table.lookup word

/-- A word is found in the first of two tables that has it. -/
theorem WordTable.find?_append {α : Type} (a b : WordTable α) (word : List Char) :
    (a ++ b : WordTable α).find? word = (a.find? word).or (b.find? word) :=
  List.lookup_append

end BuiltInScript
