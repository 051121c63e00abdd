import BuiltInScript.Compilation.ConditionStack
import BuiltInScript.Diagnostic

/-!
# Faults of structure

What may be wrong with how the directives of a module belong together.
-/
namespace BuiltInScript.Compilation

/-- Mirrors the diagnostics of `Preprocessor.apply`, `open_zone`, `close_zone` and
`Preprocessor.finish`. -/
inductive StructureFault where
  | unmatchedCondition (cause : ConditionError) (place : Span)
  | unmatchedEndRegion (place : Span)
  | nestedZone (place opened : Span)
  | unmatchedEndZone (place : Span)
  | unclosedIf (place : Span)
  | unclosedRegion (name : String) (place : Span)
  | unclosedInsert (place : Span)
  | unclosedDelete (place : Span)
deriving DecidableEq, Repr

namespace StructureFault

def message : StructureFault → String
  | .unmatchedCondition cause _ => cause.message
  | .unmatchedEndRegion _ => "`#КонецОбласти` without a matching `#Область`"
  | .nestedZone _ _ => "patch zones cannot be nested"
  | .unmatchedEndZone _ => "end of a patch zone that was never opened"
  | .unclosedIf _ => "`#Если` is never closed"
  | .unclosedRegion name _ => s!"region `{name}` is never closed"
  | .unclosedInsert _ => "`#Вставка` is never closed"
  | .unclosedDelete _ => "`#Удаление` is never closed"

def labels : StructureFault → List Label
  | .unmatchedCondition _ place => [.primary place "no `#Если` is open here"]
  | .unmatchedEndRegion place => [.primary place "no region to end here"]
  | .nestedZone place opened =>
    [.primary place "this marker opens a second zone",
     .secondary opened "the open zone starts here"]
  | .unmatchedEndZone place => [.primary place "no zone to end here"]
  | .unclosedIf place => [.primary place "`#КонецЕсли` expected after this"]
  | .unclosedRegion _ place => [.primary place "`#КонецОбласти` expected after this"]
  | .unclosedInsert place => [.primary place "`#КонецВставки` expected"]
  | .unclosedDelete place => [.primary place "`#КонецУдаления` expected"]

def diagnostic (f : StructureFault) : Diagnostic := .error f.message f.labels

end StructureFault
end BuiltInScript.Compilation
