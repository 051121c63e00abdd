import BuiltInScript.Module.Grammar
import BuiltInScript.Module.Lexis
import BuiltInScript.Parsing.TwoPhase
import BuiltInScript.Query.Grammar
import BuiltInScript.Query.Lexis

/-!
# The two languages
-/
namespace BuiltInScript

/-- The language of modules. Mirrors `ModuleParser`. -/
def moduleLanguage : Language Module.Kind Module.Rule Module.Mode Module.AsyncMemory :=
  ⟨Module.lexicalRules, Module.file, .file⟩

/-- The language of queries, found in string literals of modules. Mirrors `QueryParser`. -/
def queryLanguage : Language Query.Kind Query.Rule Query.Mode Unit :=
  ⟨Query.lexicalRules, Query.package, .package⟩

end BuiltInScript
