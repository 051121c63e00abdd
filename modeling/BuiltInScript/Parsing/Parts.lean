import BuiltInScript.Parsing.Recovery

/-!
# Parts of a node

The grammar rules are put together from parts. A part reads some tokens and gives the trees that
they make, in order; a node is made of the trees of its parts.
-/
namespace BuiltInScript

/-- Children of a node, in order. -/
abbrev Trees (R K : Type) := List (Tree R K)

namespace Part

variable {R K : Type} [DecidableEq K] [TokenKind K]

/-! ## Leaves -/

/-- The next token, whatever it is. -/
def any : Parse K (Trees R K) := fun p =>
  .ok [.token p.cursor.peek] { p with cursor := p.cursor.advance }

/-- A token that must be there, with a fault of its own. -/
def leafOr (kind : K) (fault : Token K → Fault K) : Parse K (Trees R K) := do
  let token ← Parse.expectOr kind fault
  return [.token token]

/-- A token that must be there. -/
def leaf (kind : K) : Parse K (Trees R K) := leafOr kind (.expected kind)

/-- A token that may be there. -/
def optional (kind : K) : Parse K (Trees R K) := do
  match ← Parse.eat kind with
  | some token => return [.token token]
  | none => return []

/-- The tokens up to the first of another sort. -/
def leavesWhile (test : K → Bool) : Parse K (Trees R K) := fun p =>
  let tokens := p.cursor.ahead.takeWhile fun t => test t.kind
  .ok (tokens.map .token) { p with cursor := p.cursor.skip tokens.length }

/-! ## Composition -/

/-- Parts one after another. -/
def inOrder : List (Parse K (Trees R K)) → Parse K (Trees R K)
  | [] => pure []
  | part :: parts => do
    let trees ← part
    let others ← inOrder parts
    return trees ++ others

/-- A part that depends on the kind of the next token. -/
def byKind (part : K → Parse K (Trees R K)) : Parse K (Trees R K) := fun p => part p.cursor.peek.kind p

/-- A node, as its own value. -/
def nodeOf (rule : R) (parts : List (Parse K (Trees R K))) : Parse K (Node R K) := do
  let children ← inOrder parts
  return { rule, children }

/-- A node as the only child. -/
def node (rule : R) (parts : List (Parse K (Trees R K))) : Parse K (Trees R K) := do
  let node ← nodeOf rule parts
  return [node.toTree]

/-- Repeats a part as long as it asks for it, at most `n` times. A part tells whether to go on,
and with what state. -/
def repeatUpTo {σ : Type} (part : σ → Parse K (Trees R K × Option σ)) : Nat → σ → Parse K (Trees R K)
  | 0, _ => pure []
  | n + 1, state => do
    let (trees, again) ← part state
    match again with
    | none => return trees
    | some state =>
      let others ← repeatUpTo part n state
      return trees ++ others

/-- Repeats a part as long as it asks for it. Every turn but the last must take a token, so there
are at most as many turns as tokens, and one more. -/
def repeating {σ : Type} (part : σ → Parse K (Trees R K × Option σ)) (state : σ) :
    Parse K (Trees R K) := do
  let n ← Parse.remaining
  repeatUpTo part (n + 1) state

/-- Repeats a part as long as a token of the kind that it begins with is next. -/
def whileAt (kind : K) (part : Parse K (Trees R K)) : Parse K (Trees R K) :=
  repeating (fun _ => do
    if ← Parse.at? kind then return (← part, some ()) else return ([], none)) ()

/-- Parts with separators between them, at least one of them. -/
def separated (separator : K) (part : Parse K (Trees R K)) : Parse K (Trees R K) :=
  repeating (fun _ => do
    let trees ← part
    match ← Parse.eat separator with
    | some token => return (trees ++ [.token token], some ())
    | none => return (trees, none)) ()

/-- Parts with separators between them up to a closing token, which may follow a separator. -/
def separatedUpTo (closer separator : K) (part : Parse K (Trees R K)) : Parse K (Trees R K) :=
  repeating (fun _ => do
    if ← Parse.at? closer then return ([], none)
    else
      let trees ← part
      match ← Parse.eat separator with
      | some token => return (trees ++ [.token token], some ())
      | none => return (trees, none)) ()

/-- A part that may fail, in which case what it began with is skipped. -/
def recovering (sync : K → RecoveryPoint) (part : Parse K (Trees R K)) : Parse K (Trees R K) := do
  let start ← Parse.position
  let result ← Parse.attempt part
  match ← Parse.recover result start sync with
  | .ok trees => return trees
  | .error leaves => return leaves

end Part
end BuiltInScript
