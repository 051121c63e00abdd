import BuiltInScript.Module.PlatformSymbol

/-!
# Conditions

The conditions of `#Если` and `#ИначеЕсли`: symbols joined by `НЕ`, `И` and `ИЛИ`.
-/
namespace BuiltInScript.Module

/-- Mirrors `Expr`. -/
inductive Condition where
  | symbol (symbol : PlatformSymbol)
  /-- A name that is not a platform symbol. -/
  | unknown (name : String)
  | not (inner : Condition)
  | and (left right : Condition)
  | or (left right : Condition)
deriving DecidableEq, Repr, Inhabited

namespace Condition

/-- The value of a condition, given those of its symbols and names. Mirrors `Expr.evaluate`. -/
def eval (symbol : PlatformSymbol → Bool) (name : String → Bool) : Condition → Bool
  | .symbol s => symbol s
  | .unknown n => name n
  | .not c => !c.eval symbol name
  | .and a b => a.eval symbol name && b.eval symbol name
  | .or a b => a.eval symbol name || b.eval symbol name

/-- Every `И` and `ИЛИ` stands in brackets with its operands. Mirrors `Expr.fmt`. -/
def display : Condition → String
  | .symbol s => s.russianName
  | .unknown n => n
  | .not c => "НЕ " ++ c.display
  | .and a b => "(" ++ a.display ++ " И " ++ b.display ++ ")"
  | .or a b => "(" ++ a.display ++ " ИЛИ " ++ b.display ++ ")"

instance : ToString Condition := ⟨display⟩

end Condition
end BuiltInScript.Module
