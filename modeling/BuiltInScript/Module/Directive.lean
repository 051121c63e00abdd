import BuiltInScript.Module.Condition
import BuiltInScript.Module.Kind
import BuiltInScript.Parsing.Parser

/-!
# Directives

The grammar of one directive line: a `#`, a keyword, and what the keyword requires.

A directive with something left over after it is reported and holds all the same. A condition that
cannot be read is reported once, and its directive holds without a condition. Whatever else is
wrong leaves no directive.
-/
namespace BuiltInScript.Module

/-- Mirrors `Directive`. -/
inductive Directive where
  /-- Without a condition if it was malformed. -/
  | ifBlock (condition : Option Condition)
  | elseIf (condition : Option Condition)
  | otherwise | endIf
  | region (name : String)
  | endRegion
  | use (path : String)
  | insert | endInsert | delete | endDelete
  | shebang
deriving DecidableEq, Repr, Inhabited

/-- The directive that a patch marker stands for. Mirrors `Directive.from_patch_marker`. -/
def Directive.ofPatchMarker? : Kind → Option Directive
  | .insertMarker => some .insert
  | .endInsertMarker => some .endInsert
  | .deleteMarker => some .delete
  | .endDeleteMarker => some .endDelete
  | _ => none

/-! ## Conditions -/

/-- A build symbol was required; the token in its place is passed. Mirrors the last case of
`atom`. -/
def missingSymbol : Parse Kind Condition := do
  let token ← Parse.next
  Parse.fail (.missingSymbol token)

/-- A symbol, a name, or a condition in brackets. Mirrors `atom`. -/
def atom (inner : Parse Kind Condition) : Parse Kind Condition := do
  let token ← Parse.next
  match token.kind with
  | .dirLeftParen =>
    let condition ← inner
    let _ ← Parse.expect .dirRightParen
    return condition
  | .dirSymbol =>
    match PlatformSymbol.ofName? ⟨token.text⟩ with
    | some symbol => return .symbol symbol
    | none => return .unknown token.text
  | .dirIdentifier => return .unknown token.text
  | _ => Parse.fail (.missingSymbol token)

/-- An atom under up to `n` negations. Mirrors the negations of `unary_expression`. -/
def negated (inner : Parse Kind Condition) : Nat → Parse Kind Condition
  | 0 => atom inner
  | n + 1 => do
    match ← Parse.eat .dirNot with
    | some _ => return .not (← negated inner n)
    | none => atom inner

/-- Up to `n` further operands of an operator, joined from the left. Mirrors the loops of
`or_expression` and `and_expression`. -/
def chainRest (operator : Kind) (combine : Condition → Condition → Condition)
    (operand : Parse Kind Condition) : Nat → Condition → Parse Kind Condition
  | 0, left => pure left
  | n + 1, left => do
    match ← Parse.eat operator with
    | some _ =>
      let right ← operand
      chainRest operator combine operand n (combine left right)
    | none => return left

/-- Operands of an operator, joined from the left. Mirrors what `or_expression` and `and_expression`
share. -/
def chain (operator : Kind) (combine : Condition → Condition → Condition)
    (operand : Parse Kind Condition) : Parse Kind Condition := do
  let first ← operand
  let n ← Parse.remaining
  chainRest operator combine operand n first

/-- Mirrors `unary_expression`. -/
def unary (inner : Parse Kind Condition) : Parse Kind Condition := do
  let n ← Parse.remaining
  negated inner n

/-- A condition in which brackets nest up to `depth` deep. Mirrors `or_expression` and
`and_expression`. -/
def conditionWithin : Nat → Parse Kind Condition
  | 0 => missingSymbol
  | depth + 1 =>
    chain .dirOr .or (chain .dirAnd .and (unary (conditionWithin depth)))

/-- A condition and the `Тогда` after it. Mirrors the scope of `condition`. -/
def guardCondition : Parse Kind Condition :=
  Parse.within "condition" do
    let n ← Parse.remaining
    let condition ← conditionWithin n
    let _ ← Parse.expectOr .dirThen .missingThen
    return condition

/-- A condition, or nothing if it is malformed; then the rest of the line is passed. Mirrors
`condition`. -/
def condition? : Parse Kind (Option Condition) := do
  match ← Parse.attempt guardCondition with
  | .ok condition => return some condition
  | .error _ =>
    Parse.skipAll
    return none

/-! ## Directive lines -/

/-- Makes one quote of two. -/
def unpairQuotes : List Char → List Char
  | [] => []
  | '"' :: '"' :: rest => '"' :: unpairQuotes rest
  | c :: rest => c :: unpairQuotes rest

/-- Drops a quote from the beginning of a text. -/
def dropQuote : List Char → List Char
  | '"' :: rest => rest
  | cs => cs

/-- The contents of a string literal. A quote is dropped from each end, if there is one. Mirrors
`unquote`. -/
def unquote (literal : String) : String :=
  let inner := dropQuote literal.toList
  String.ofList (unpairQuotes (dropQuote inner.reverse).reverse)

/-- Reports what is left on a directive line, and passes it. Mirrors `end_of_directive`. -/
def directiveEnd : Parse Kind Unit := do
  let found ← Parse.peek
  if found.isEnd then return ()
  else
    Parse.emit (Fault.extraAfterDirective found).diagnostic
    Parse.skipAll

/-- What follows the keyword of a directive. Mirrors the keyword cases of `directive`. -/
def directiveBody (hash keyword : Token Kind) : Parse Kind Directive := do
  match keyword.kind with
  | .dirIf => return .ifBlock (← condition?)
  | .dirElsIf => return .elseIf (← condition?)
  | .dirElse => return .otherwise
  | .dirEndIf => return .endIf
  | .dirRegion =>
    let name ← Parse.expectOr .dirIdentifier .missingRegionName
    return .region name.text
  | .dirEndRegion => return .endRegion
  | .dirUse =>
    let path ← Parse.next
    match path.kind with
    | .dirUsePath => return .use path.text
    | .dirString => return .use (unquote path.text)
    | _ => Parse.fail (.missingLibraryName path)
  | .dirExclamation =>
    Parse.skipAll
    return .shebang
  | _ => Parse.fail (.unknownDirective keyword hash)

/-- A directive line. Mirrors `directive`. -/
def directive : Parse Kind Directive :=
  Parse.within "directive" do
    let hash ← Parse.expect .hash
    let keyword ← Parse.next
    let directive ← directiveBody hash keyword
    directiveEnd
    return directive

end BuiltInScript.Module
