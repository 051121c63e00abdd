import BuiltInScript.Module.Expression
import BuiltInScript.Parsing.Parts

/-!
# Grammar of modules

The grammar brings out the structure of a module: variables, methods, statements and blocks.
Expressions are runs of tokens.

Blocks hold statements and statements hold blocks. A block within a block begins after at least one
token of the statement around it, so blocks nest at most as deep as there are tokens.
-/
namespace BuiltInScript.Module

open BuiltInScript.Part

/-- Rules that make nodes. Mirrors `ModuleRule`. -/
inductive Rule where
  | file | directive | annotationEntry | vars | var | method | params | param | block
  | emptyStatement | label | assignment | call
  | ifStatement | elseIfBranch | elseBranch | whileLoop | forLoop | forEachLoop
  | tryStatement | exceptBranch | returnStatement | continueStatement | breakStatement
  | raiseStatement | executeStatement | gotoStatement | addHandler | removeHandler | expression
deriving DecidableEq, Repr, Inhabited

abbrev Trees := BuiltInScript.Trees Rule Kind

/-! ## Where parsing goes on after a fault -/

/-- Mirrors `starts_sub`. -/
def startsMethod : Kind → Bool
  | .kwAsync | .kwProcedure | .kwFunction | .ampersand => true
  | _ => false

/-- Mirrors `statement_sync`. -/
def statementSync (kind : Kind) : RecoveryPoint :=
  if kind = .semicolon then .stopAfter
  else if isBlockCloser kind then .stopBefore
  else .skip

/-- Mirrors `sub_sync`. -/
def methodSync (kind : Kind) : RecoveryPoint :=
  if kind = .kwEndProcedure || kind = .kwEndFunction then .stopAfter
  else if startsMethod kind then .stopBefore
  else .skip

/-! ## Expressions -/

/-- A run of tokens with balanced brackets, at least one token long. Mirrors `expression`. -/
def expression (upToAssign : Bool) : Parse Kind Trees :=
  Parse.within "expression" do
    let p ← get
    let (run, stop) := expressionRun upToAssign [] none p.cursor.ahead
    Parse.skip run.length
    match stop with
    | .mismatched innermost =>
      Parse.failHere fun found => .mismatchedBracket innermost.closer found innermost.opener
    | .stopped (innermost :: _) =>
      Parse.failHere fun found => .unclosedBracket innermost.closer found innermost.opener
    | .stopped [] =>
      if run.isEmpty then Parse.unexpected "expression"
      else return [.node .expression (run.map .token) {}]

/-- An expression, unless the next token cannot be part of one. Mirrors the operand of
`keyword_statement`. -/
def operand : Parse Kind Trees :=
  byKind fun kind => if endsExpression kind then pure [] else expression false

/-! ## Directives, annotations, variables and parameters -/

/-- A directive among code. Its form is not checked here. Mirrors `directive_line`. -/
def directiveLine : Parse Kind Trees := node .directive [any, leavesWhile Kind.isDirectivePart]

/-- `(А, Б)` after the name of an annotation. Mirrors the arguments of `annotation`. -/
def arguments : Parse Kind Trees :=
  byKind fun kind =>
    if kind = .leftParen then
      inOrder [any, separatedUpTo .rightParen .comma (expression false), leaf .rightParen]
    else pure []

/-- `&НаСервере`, `&Перед("Метод")`. Mirrors `annotation`. -/
def annotationEntry : Parse Kind Trees :=
  Parse.within "annotation" <|
    node .annotationEntry [
      leaf .ampersand,
      byKind fun kind =>
        if kind.isAnnotationName then any else Parse.unexpected "annotation name",
      arguments]

/-- Mirrors `annotations`. -/
def annotations : Parse Kind Trees := whileAt .ampersand annotationEntry

/-- The end of a statement: `;`, or nothing where a block or the module ends. Mirrors
`end_of_statement`. -/
def statementEnd : Parse Kind Trees :=
  byKind fun kind =>
    if kind = .semicolon then any
    else if kind = .endOfInput || isBlockCloser kind then pure []
    else Parse.failHere .unterminatedStatement

/-- `Перем А Экспорт, Б;`. Mirrors `vars`. -/
def vars : Parse Kind Trees :=
  Parse.within "vars" <|
    node .vars [
      leaf .kwVar,
      separated .comma (node .var [leaf .identifier, optional .kwExport]),
      statementEnd]

/-- The value that a parameter has if none is given. Mirrors the value in a turn of `params`. -/
def defaultValue : Parse Kind Trees :=
  byKind fun kind =>
    if kind = .assign then inOrder [any, expression false] else pure []

/-- Mirrors a turn of `params`. -/
def param : Parse Kind Trees :=
  node .param [annotations, optional .kwVal, leaf .identifier, defaultValue]

/-- Mirrors `params`. -/
def params : Parse Kind Trees :=
  Parse.within "params" <|
    node .params [
      leaf .leftParen, separatedUpTo .rightParen .comma param, leaf .rightParen]

/-! ## Statements

Statements that hold blocks are given the part that reads a block. -/

/-- `~Метка:`. Mirrors `label`. -/
def label : Parse Kind Trees := node .label [leaf .tilde, leaf .identifier, leaf .colon]

/-- Mirrors a turn of `if_statement`. -/
def elseIfBranch (block : Parse Kind Trees) : Parse Kind Trees :=
  node .elseIfBranch [any, expression false, leaf .kwThen, block]

/-- Mirrors the last branch of `if_statement`. -/
def elseBranch (block : Parse Kind Trees) : Parse Kind Trees :=
  byKind fun kind =>
    if kind = .kwElse then node .elseBranch [any, block] else pure []

/-- Mirrors `if_statement`. -/
def ifStatement (block : Parse Kind Trees) : Parse Kind Trees :=
  node .ifStatement [
    leaf .kwIf, expression false, leaf .kwThen, block,
    whileAt .kwElsIf (elseIfBranch block), elseBranch block,
    leaf .kwEndIf, statementEnd]

/-- `Цикл … КонецЦикла`, the part that all loops share. Mirrors `loop_body`. -/
def loopBody (block : Parse Kind Trees) : Parse Kind Trees :=
  inOrder [leaf .kwDo, block, leaf .kwEndDo, statementEnd]

/-- Mirrors `while_statement`. -/
def whileLoop (block : Parse Kind Trees) : Parse Kind Trees :=
  node .whileLoop [leaf .kwWhile, expression false, loopBody block]

/-- `Для И = 1 По 10 Цикл`. Mirrors `for_statement`. -/
def forLoop (block : Parse Kind Trees) : Parse Kind Trees :=
  node .forLoop [
    leaf .kwFor, leaf .identifier, leaf .assign, expression false,
    leaf .kwTo, expression false, loopBody block]

/-- `Для Каждого Элемент Из Коллекция Цикл`. Mirrors `for_each_statement`. -/
def forEachLoop (block : Parse Kind Trees) : Parse Kind Trees :=
  node .forEachLoop [
    leaf .kwFor, leaf .kwEach, leaf .identifier, leaf .kwIn, expression false, loopBody block]

/-- Mirrors the loop cases of `statement`. -/
def anyForLoop (block : Parse Kind Trees) : Parse Kind Trees := do
  let second ← Parse.lookahead 1
  if second.kind = .kwEach then forEachLoop block else forLoop block

/-- Mirrors `try_statement`. -/
def tryStatement (block : Parse Kind Trees) : Parse Kind Trees :=
  node .tryStatement [
    leaf .kwTry, block,
    node .exceptBranch [leaf .kwExcept, block],
    leaf .kwEndTry, statementEnd]

/-- A keyword by itself. Mirrors `keyword_statement` without an operand. -/
def bareStatement (rule : Rule) : Parse Kind Trees := node rule [any, statementEnd]

/-- A keyword and perhaps an operand. Mirrors `keyword_statement` with an operand. -/
def operandStatement (rule : Rule) : Parse Kind Trees := node rule [any, operand, statementEnd]

/-- Mirrors `execute_statement`. -/
def executeStatement : Parse Kind Trees :=
  node .executeStatement [leaf .kwExecute, expression false, statementEnd]

/-- `Перейти ~Метка;`. Mirrors `goto_statement`. -/
def gotoStatement : Parse Kind Trees :=
  node .gotoStatement [leaf .kwGoto, leaf .tilde, leaf .identifier, statementEnd]

/-- `ДобавитьОбработчик Событие, Обработчик;`. Mirrors `handler_statement`. -/
def handlerStatement (rule : Rule) : Parse Kind Trees :=
  node rule [any, expression false, leaf .comma, expression false, statementEnd]

/-- Whether the next statement is an assignment. Mirrors `is_assignment`. -/
def isAssignment : Parse Kind Bool := fun p =>
  match statementSort p.report.mode.lookaheadBound 0 0 p.cursor.ahead with
  | .assignment => .ok true p
  | .call => .ok false p
  | .beyondBound => .error ⟨p.cursor.peek.span, p.scopes⟩ p

/-- Mirrors `assignment_or_call`. -/
def assignmentOrCall : Parse Kind Trees := do
  if ← isAssignment then
    node .assignment [expression true, leaf .assign, expression false, statementEnd]
  else node .call [expression false, statementEnd]

/-- Mirrors `statement`. -/
def statement (block : Parse Kind Trees) : Parse Kind Trees :=
  Parse.within "statement" <| byKind fun
    | .semicolon => node .emptyStatement [any]
    | .hash => directiveLine
    | .tilde => label
    | .kwVar => vars
    | .kwIf => ifStatement block
    | .kwWhile => whileLoop block
    | .kwFor => anyForLoop block
    | .kwTry => tryStatement block
    | .kwReturn => operandStatement .returnStatement
    | .kwRaise => operandStatement .raiseStatement
    | .kwContinue => bareStatement .continueStatement
    | .kwBreak => bareStatement .breakStatement
    | .kwExecute => executeStatement
    | .kwGoto => gotoStatement
    | .kwAddHandler => handlerStatement .addHandler
    | .kwRemoveHandler => handlerStatement .removeHandler
    | _ => assignmentOrCall

/-! ## Blocks -/

/-- A statement of a block, unless the block ends. Mirrors a turn of `block`. -/
def blockTurn (statement : Parse Kind Trees) : Parse Kind (Trees × Option Unit) := do
  let kind ← Parse.peekKind
  if kind = .endOfInput || isBlockCloser kind then return ([], none)
  else return (← recovering statementSync statement, some ())

/-- Statements up to the next block closer, which is left to what encloses the block; blocks may
nest `depth` levels deep in it. Mirrors `block`. -/
def blockWithin : Nat → Parse Kind Trees
  | 0 => Parse.within "block" <| node .block []
  | depth + 1 =>
    Parse.within "block" <|
      node .block [repeating (fun _ => blockTurn (statement (blockWithin depth))) ()]

/-- Mirrors `block`. -/
def block : Parse Kind Trees := do
  let n ← Parse.remaining
  blockWithin n

/-! ## Methods and modules -/

/-- What follows the keyword that begins a method, up to the one that ends it. Mirrors `sub` from
its keyword on. -/
def methodRest (closer : Kind) : Parse Kind Trees :=
  inOrder [
    any, leaf .identifier, params, optional .kwExport, block,
    leafOr closer (.unterminatedMethod closer)]

/-- Mirrors `sub`. -/
def method : Parse Kind Trees :=
  Parse.within "sub" <|
    node .method [
      annotations, optional .kwAsync,
      byKind fun
        | .kwProcedure => methodRest .kwEndProcedure
        | .kwFunction => methodRest .kwEndFunction
        | _ => Parse.unexpected "`Процедура` or `Функция`"]

/-- A statement outside methods, where a block closer has no block to close. Mirrors the last case
of `file`. -/
def looseStatement (kind : Kind) : Parse Kind Trees :=
  if isBlockCloser kind then Parse.unexpected "statement"
  else do
    let n ← Parse.remaining
    statement (blockWithin n)

/-- One item of a module, or the end marker, which is the last. Mirrors a turn of `file`. -/
def fileTurn : Parse Kind (Trees × Option Unit) := do
  let kind ← Parse.peekKind
  if kind = .endOfInput then return (← any, none)
  else if kind = .hash then return (← directiveLine, some ())
  else if startsMethod kind then return (← recovering methodSync method, some ())
  else if kind = .kwVar then return (← recovering statementSync vars, some ())
  else return (← recovering statementSync (looseStatement kind), some ())

/-- A whole module. Mirrors `file`. -/
def file : Parse Kind (Node Rule Kind) :=
  Parse.within "file" <| nodeOf .file [repeating (fun _ => fileTurn) ()]

end BuiltInScript.Module
