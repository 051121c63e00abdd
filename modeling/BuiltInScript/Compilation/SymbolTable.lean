import BuiltInScript.Module.Condition
import BuiltInScript.Name.Set

/-!
# Symbol tables

The build symbols that hold in the place that a module is compiled for.
-/
namespace BuiltInScript.Compilation

open BuiltInScript.Module

/-- Mirrors `SymbolTable`. -/
structure SymbolTable where
  platform : List PlatformSymbol := []
  names : NameSet := {}
deriving Repr, Inhabited

namespace SymbolTable

/-- Mirrors `SymbolTable.with_platform`. -/
def withPlatform (t : SymbolTable) (symbol : PlatformSymbol) : SymbolTable :=
  if symbol ∈ t.platform then t else { t with platform := t.platform ++ [symbol] }

/-- A name of a platform symbol, in either language, defines that symbol. Mirrors
`SymbolTable.define`. -/
def define (t : SymbolTable) (name : String) : SymbolTable :=
  match PlatformSymbol.ofName? ⟨name⟩ with
  | some symbol => t.withPlatform symbol
  | none => { t with names := t.names.insert ⟨name⟩ }

/-- Mirrors `SymbolTable.from_iter`. -/
def ofNames (names : List String) : SymbolTable := names.foldl define {}

/-- Mirrors `SymbolTable.is_platform_defined`. -/
def hasPlatform (t : SymbolTable) (symbol : PlatformSymbol) : Bool := symbol ∈ t.platform

/-- Mirrors `SymbolTable.is_name_defined`. -/
def hasName (t : SymbolTable) (name : String) : Bool := t.names.contains ⟨name⟩

/-- Mirrors `SymbolTable.evaluate`. -/
def eval (t : SymbolTable) (c : Condition) : Bool := c.eval t.hasPlatform t.hasName

@[simp] theorem hasPlatform_withPlatform (t : SymbolTable) (symbol other : PlatformSymbol) :
    (t.withPlatform symbol).hasPlatform other = (t.hasPlatform other || symbol = other) := by
  unfold withPlatform
  split <;> by_cases h : symbol = other <;> simp_all [hasPlatform, eq_comm]

@[simp] theorem hasName_withPlatform (t : SymbolTable) (symbol : PlatformSymbol) (name : String) :
    (t.withPlatform symbol).hasName name = t.hasName name := by
  unfold withPlatform
  split <;> rfl

end SymbolTable
end BuiltInScript.Compilation
