import BuiltInScript.Memo
import BuiltInScript.Token

/-!
# Syntax trees

A tree of nodes, each made by a rule of the grammar, over the tokens of a source. Nothing that the
parser read is left out: tokens skipped during recovery are leaves too, marked as errors.

The text of a node and its list of leaves are views: they are computed when first asked for and
kept with the node. A node that is put into a tree brings its views along, and whatever changes
the children of a node drops its views.
-/
namespace BuiltInScript

/-- What has been computed about a node. Mirrors the cached views of `Node`. -/
structure Views (K : Type) where
  text : Memo String := {}
  leaves : Memo (List (Token K)) := {}
deriving Repr, Inhabited

/-- Mirrors `Child`. -/
inductive Tree (R K : Type) where
  | node (rule : R) (children : List (Tree R K)) (views : Views K)
  | token (token : Token K)
  /-- A token skipped during error recovery. -/
  | error (token : Token K)
deriving Repr

/-- The node at the top of a tree. Mirrors `Node`. -/
structure Node (R K : Type) where
  rule : R
  children : List (Tree R K) := []
  views : Views K := {}
deriving Repr

variable {R K : Type}

namespace Tree

mutual
/-- Leaves in source order, error leaves included. Mirrors `Node.flatten_into`. -/
def leaves : Tree R K → List (Token K)
  | .node _ children _ => leavesOf children
  | .token t => [t]
  | .error t => [t]

/-- `leaves` of trees side by side. -/
def leavesOf : List (Tree R K) → List (Token K)
  | [] => []
  | t :: ts => leaves t ++ leavesOf ts
end

mutual
/-- Some token was skipped. Mirrors `Node.has_errors`. -/
def hasErrors : Tree R K → Bool
  | .node _ children _ => anyErrors children
  | .token _ => false
  | .error _ => true

/-- `hasErrors` of some of several trees. -/
def anyErrors : List (Tree R K) → Bool
  | [] => false
  | t :: ts => hasErrors t || anyErrors ts
end

@[simp] theorem leavesOf_append (a b : List (Tree R K)) :
    leavesOf (a ++ b) = leavesOf a ++ leavesOf b := by
  induction a with
  | nil => rfl
  | cons t ts ih => simp [leavesOf, ih]

@[simp] theorem leavesOf_map_token (tokens : List (Token K)) :
    leavesOf (tokens.map (.token : _ → Tree R K)) = tokens := by
  induction tokens with
  | nil => rfl
  | cons t ts ih => simp [leavesOf, leaves, ih]

@[simp] theorem anyErrors_append (a b : List (Tree R K)) :
    anyErrors (a ++ b) = (anyErrors a || anyErrors b) := by
  induction a with
  | nil => rfl
  | cons t ts ih => simp [anyErrors, ih, Bool.or_assoc]

@[simp] theorem anyErrors_map_token (tokens : List (Token K)) :
    anyErrors (tokens.map (.token : _ → Tree R K)) = false := by
  induction tokens with
  | nil => rfl
  | cons t ts ih => simp [anyErrors, hasErrors, ih]

/-- The node of a tree that is not a leaf. -/
def node? : Tree R K → Option (Node R K)
  | .node rule children views => some { rule, children, views }
  | _ => none

mutual
/-- All nodes in preorder. Mirrors `Node.collect_rule`. -/
def nodes : Tree R K → List (Node R K)
  | .node rule children views => { rule, children, views } :: nodesOf children
  | .token _ => []
  | .error _ => []

/-- `nodes` of trees side by side. -/
def nodesOf : List (Tree R K) → List (Node R K)
  | [] => []
  | t :: ts => nodes t ++ nodesOf ts
end

end Tree

/-- The texts of tokens, one after another. -/
def joinTexts (tokens : List (Token K)) : String := tokens.foldl (fun s t => s ++ t.text) ""

namespace Node

/-- Mirrors `Node.new`. -/
def ofRule (rule : R) : Node R K := { rule }

def toTree (n : Node R K) : Tree R K := .node n.rule n.children n.views

/-- Mirrors `Node.is_empty`. -/
def isEmpty (n : Node R K) : Bool := n.children.isEmpty

/-- Mirrors `Node.has_errors`. -/
def hasErrors (n : Node R K) : Bool := Tree.anyErrors n.children

/-- The children that are nodes. Mirrors `Node.child_nodes`. -/
def childNodes (n : Node R K) : List (Node R K) := n.children.filterMap Tree.node?

/-- All nodes of a rule in preorder, the node itself included. Mirrors `Node.find_all`. -/
def findAll [DecidableEq R] (n : Node R K) (rule : R) : List (Node R K) :=
  (n :: Tree.nodesOf n.children).filter fun m => m.rule = rule

/-! ## Changes -/

/-- Mirrors what all methods that add a child do, `Node.invalidate` included. -/
def addTree (n : Node R K) (t : Tree R K) : Node R K :=
  { n with children := n.children ++ [t], views := {} }

/-- Mirrors `Node.add_child`. -/
def addNode (n m : Node R K) : Node R K := n.addTree m.toTree

/-- Mirrors `Node.add_token`. -/
def addToken (n : Node R K) (t : Token K) : Node R K := n.addTree (.token t)

/-- Mirrors `Node.add_error_node`. -/
def addError (n : Node R K) (t : Token K) : Node R K := n.addTree (.error t)

/-- Mirrors `Node.remove_last_child`. -/
def removeLast (n : Node R K) : Option (Tree R K) × Node R K :=
  (n.children.getLast?, { n with children := n.children.dropLast, views := {} })

/-- Takes over the rule and the children of another node. Mirrors `Node.copy_from`. -/
def copyFrom (n other : Node R K) : Node R K :=
  { n with rule := other.rule, children := other.children, views := {} }

/-! ## Views

Each gives the view together with the node that remembers it. -/

/-- Mirrors `Node.flattened_tokens`. -/
def leaves (n : Node R K) : List (Token K) × Node R K :=
  let (leaves, memo) := n.views.leaves.force fun _ => Tree.leavesOf n.children
  (leaves, { n with views.leaves := memo })

/-- Mirrors `Node.text`. -/
def text (n : Node R K) : String × Node R K :=
  match n.views.text.value? with
  | some text => (text, n)
  | none =>
    let (leaves, n) := n.leaves
    let (text, memo) := n.views.text.force fun _ => joinTexts leaves
    (text, { n with views.text := memo })

/-- Mirrors `Node.first_token`. -/
def firstToken (n : Node R K) : Option (Token K) × Node R K :=
  let (leaves, n) := n.leaves
  (leaves.head?, n)

/-- Mirrors `Node.last_token`. -/
def lastToken (n : Node R K) : Option (Token K) × Node R K :=
  let (leaves, n) := n.leaves
  (leaves.getLast?, n)

/-- From the first leaf to the last one. Mirrors `Node.span`. -/
def span (n : Node R K) : Option Span × Node R K :=
  let (first, n) := n.firstToken
  let (last, n) := n.lastToken
  ((first.bind fun f => last.map fun l => f.span.join l.span), n)

/-- A node that remembers nothing gives the leaves of its children. -/
@[simp] theorem leaves_fresh (rule : R) (children : List (Tree R K)) :
    (leaves { rule, children }).1 = Tree.leavesOf children := rfl

/-- Asking a second time gives the same leaves. -/
@[simp] theorem leaves_leaves (n : Node R K) : n.leaves.2.leaves.1 = n.leaves.1 := by
  unfold leaves Memo.force
  cases h : n.views.leaves.value? <;> simp [h]

end Node
end BuiltInScript
