import BuiltInScript.Parsing.Parser

/-!
# Recovery

After a fault the parser goes back to where the failed rule began and skips tokens until one at
which parsing may go on. What it skips is kept in the tree. It skips at least one token, so the
enclosing loop always gets on.
-/
namespace BuiltInScript

/-- What recovery does at a token. Mirrors `RecoveryPoint`. -/
inductive RecoveryPoint where
  /-- Skip the token and go on. -/
  | skip
  /-- Stop, and leave the token to the enclosing rule. -/
  | stopBefore
  /-- Take the token and stop. -/
  | stopAfter
deriving DecidableEq, Repr, Inhabited

namespace Recovery

variable {K R : Type}

/-- The leaves that recovery makes of the tokens ahead: error leaves, and a proper leaf for the
token that it stops after. It may not stop before the first token if that is `held`. Mirrors the
loop of `Parser.recover`. -/
def leaves (sync : K → RecoveryPoint) (held : Bool) : List (Token K) → List (Tree R K)
  | [] => []
  | t :: ts =>
    match sync t.kind with
    | .skip => .error t :: leaves sync false ts
    | .stopBefore => if held then .error t :: leaves sync false ts else []
    | .stopAfter => [.token t]

/-- Recovery keeps what it skips: the leaves hold the tokens from the first on, none left out. -/
theorem leavesOf_leaves (sync : K → RecoveryPoint) (held : Bool) (tokens : List (Token K)) :
    Tree.leavesOf (leaves (R := R) sync held tokens) =
      tokens.take (leaves (R := R) sync held tokens).length := by
  induction tokens generalizing held with
  | nil => rfl
  | cons t ts ih =>
    unfold leaves
    split
    · simp [Tree.leavesOf, Tree.leaves, ih]
    · split <;> simp [Tree.leavesOf, Tree.leaves, ih]
    · simp [Tree.leavesOf, Tree.leaves]

/-- The first token is skipped, so recovery always gets on. -/
theorem leaves_ne_nil (sync : K → RecoveryPoint) {tokens : List (Token K)} (h : tokens ≠ []) :
    leaves (R := R) sync true tokens ≠ [] := by
  cases tokens with
  | nil => exact absurd rfl h
  | cons t ts =>
    unfold leaves
    split <;> simp

end Recovery

namespace Parse

variable {K R : Type} [DecidableEq K] [TokenKind K] {α : Type}

/-- Goes back to a position and skips from there; gives the leaves made of what was skipped. Mirrors
the general mode of `Parser.recover`. -/
def skipFrom (start : Nat) (sync : K → RecoveryPoint) : Parse K (List (Tree R K)) := fun p =>
  let cursor := p.cursor.seek start
  let leaves := Recovery.leaves sync (cursor.position = start) cursor.ahead
  .ok leaves { p with cursor := cursor.skip leaves.length }

/-- Deals with the result of a rule that began at a position: a value is passed on. An error is
passed on by optimistic prediction; else tokens are skipped, and their leaves take the place of the
value. Mirrors `Parser.recover`, with the leaves given instead of added to a node. -/
def recover (result : Except ParseError α) (start : Nat) (sync : K → RecoveryPoint) :
    Parse K (Except (List (Tree R K)) α) := fun p =>
  match result with
  | .ok a => .ok (.ok a) p
  | .error e =>
    if p.report.mode = .optimistic then .error e p
    else
      match skipFrom start sync p with
      | .ok leaves q => .ok (.error leaves) q
      | .error e q => .error e q

/-- Deals with the result of a rule within a node that is being built: the leaves of what was
skipped are added to it. A value leaves it as it is, and so does an error that is passed on. Mirrors
`Parser.recover`. -/
def recoverInto (node : Node R K) (result : Except ParseError α) (start : Nat)
    (sync : K → RecoveryPoint) : Parse K (Except ParseError (Option α) × Node R K) := do
  match ← attempt (recover result start sync) with
  | .ok (.ok a) => return (.ok (some a), node)
  | .ok (.error leaves) => return (.ok none, leaves.foldl Node.addTree node)
  | .error e => return (.error e, node)

end Parse
end BuiltInScript
