import BuiltInScript.Parsing.Parts
import BuiltInScript.Query.Kind

/-!
# Grammar of queries

A package of queries separated by `;`. Within a query only brackets matter, and the queries that
stand in them.
-/
namespace BuiltInScript.Query

open BuiltInScript.Part

/-- Rules that make nodes. Mirrors `QueryRule`. -/
inductive Rule where
  | package | query | subquery
deriving DecidableEq, Repr, Inhabited

abbrev Trees := BuiltInScript.Trees Rule Kind

/-- A fault costs the rest of the query. Mirrors `query_sync`. -/
def querySync (kind : Kind) : RecoveryPoint := if kind = .semicolon then .stopAfter else .skip

/-- One step through a query: a token, a subquery, or the end. The state is the opening brackets
that are not closed, the innermost first. Mirrors a turn of `query_body`. -/
def bodyTurn (subquery : Parse Kind Trees) (nested : Bool) (opened : List (Token Kind)) :
    Parse Kind (Trees × Option (List (Token Kind))) := do
  let token ← Parse.peek
  match token.kind with
  | .endOfInput | .semicolon =>
    match opened with
    | opener :: _ => Parse.failHere fun found => .unclosedBracket .rightParen found opener
    | [] => if nested then Parse.unexpected "`)`" else return ([], none)
  | .leftParen =>
    let second ← Parse.lookahead 1
    if second.kind = .kwSelect then return (← subquery, some opened)
    else return (← any, some (token :: opened))
  | .rightParen =>
    match opened with
    | _ :: outer => return (← any, some outer)
    | [] => if nested then return ([], none) else Parse.unexpected "`;`"
  | _ => return (← any, some opened)

/-- A query up to its end: the `;` or the end of the input, or for a subquery the bracket that
closes it. Mirrors `query_body`. -/
def body (subquery : Parse Kind Trees) (nested : Bool) : Parse Kind Trees :=
  repeating (bodyTurn subquery nested) []

/-- A query in brackets; queries may nest `depth` levels deep in it. Mirrors `subquery`. -/
def subqueryWithin : Nat → Parse Kind Trees
  | 0 => Parse.within "subquery" <| node .subquery [leaf .leftParen, leaf .rightParen]
  | depth + 1 =>
    Parse.within "subquery" <|
      node .subquery [leaf .leftParen, body (subqueryWithin depth) true, leaf .rightParen]

/-- Mirrors `query`. -/
def query : Parse Kind Trees :=
  Parse.within "query" do
    let kind ← Parse.peekKind
    if kind = .kwSelect || kind = .kwDrop then
      let n ← Parse.remaining
      node .query [body (subqueryWithin n) false]
    else Parse.unexpected "`ВЫБРАТЬ` or `УНИЧТОЖИТЬ`"

/-- One item of a package, or the end marker, which is the last. Mirrors a turn of
`query_package`. -/
def packageTurn : Parse Kind (Trees × Option Unit) := do
  let kind ← Parse.peekKind
  if kind = .semicolon then return (← any, some ())
  else if kind = .endOfInput then return (← any, none)
  else return (← recovering querySync query, some ())

/-- A whole package. Mirrors `query_package`. -/
def package : Parse Kind (Node Rule Kind) :=
  Parse.within "query_package" <| nodeOf .package [repeating (fun _ => packageTurn) ()]

end BuiltInScript.Query
