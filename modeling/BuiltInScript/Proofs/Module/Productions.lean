import Mathlib.Computability.RegularExpressions
import BuiltInScript.Module.Grammar
import BuiltInScript.Proofs.Token.Cursor

/-!
# The grammar of modules as a table

What the children of a node may be, rule by rule: a regular expression over the kinds of its leaves
and the rules of its nodes. Nothing here is about parsing.

A token that was skipped is a symbol of its own, so the table also tells where there may be one.

**Results.**
* `mentions_of_mem`: a word has only symbols that its expression mentions.
* `error_mem`: skipped tokens are children of modules and of blocks only.
-/
namespace BuiltInScript

/-! ## Nodes in their places -/

namespace Tree

variable {R K : Type}

mutual
/-- All nodes in preorder, each with the leaves that follow it, if these follow the tree. -/
def occurrences (after : List (Token K)) : Tree R K → List (Node R K × List (Token K))
  | .node rule children views => ({ rule, children, views }, after) :: occurrencesOf after children
  | .token _ | .error _ => []

/-- `occurrences` of trees side by side. -/
def occurrencesOf (after : List (Token K)) : List (Tree R K) → List (Node R K × List (Token K))
  | [] => []
  | t :: ts => occurrences (leavesOf ts ++ after) t ++ occurrencesOf after ts
end

theorem occurrencesOf_append (after : List (Token K)) (a b : List (Tree R K)) :
    occurrencesOf after (a ++ b) =
      occurrencesOf (leavesOf b ++ after) a ++ occurrencesOf after b := by
  induction a with
  | nil => rfl
  | cons t ts ih => simp [occurrencesOf, ih]

theorem occurrencesOf_singleton (after : List (Token K)) (t : Tree R K) :
    occurrencesOf after [t] = occurrences after t := by
  simp [occurrencesOf, leavesOf]

/-- There are no nodes among leaves. -/
theorem occurrencesOf_eq_nil (after : List (Token K)) {ts : List (Tree R K)}
    (h : ∀ t ∈ ts, t.node? = none) : occurrencesOf after ts = [] := by
  induction ts with
  | nil => rfl
  | cons t ts ih =>
    rw [occurrencesOf, ih fun u hu => h u (List.mem_cons_of_mem _ hu), List.append_nil]
    have ht := h t (List.mem_cons_self ..)
    cases t with
    | node => cases ht
    | token | error => rfl

mutual
theorem map_fst_occurrences (after : List (Token K)) :
    (t : Tree R K) → (occurrences after t).map Prod.fst = nodes t
  | .node rule children views => by
    rw [occurrences, List.map_cons, map_fst_occurrencesOf after children, nodes]
  | .token _ | .error _ => rfl

/-- `map_fst_occurrences` for trees side by side. -/
theorem map_fst_occurrencesOf (after : List (Token K)) :
    (ts : List (Tree R K)) → (occurrencesOf after ts).map Prod.fst = nodesOf ts
  | [] => rfl
  | t :: ts => by
    rw [occurrencesOf, List.map_append, map_fst_occurrences _ t, map_fst_occurrencesOf after ts,
      nodesOf]
end

end Tree

namespace Module

/-- What a node sees of a child. -/
inductive Symbol where
  | leaf (kind : Kind)
  | node (rule : Rule)
  /-- A token that was skipped. -/
  | error
deriving DecidableEq, Repr

def symbol : Tree Rule Kind → Symbol
  | .node rule _ _ => .node rule
  | .token t => .leaf t.kind
  | .error _ => .error

abbrev Production := RegularExpression Symbol

namespace Production

def leaf (kind : Kind) : Production := .char (.leaf kind)

def node (rule : Rule) : Production := .char (.node rule)

def oneOf : List Symbol → Production
  | [] => 0
  | s :: ss => .char s + oneOf ss

/-- A token of such a kind. -/
def leafThat (test : Kind → Bool) : Production := oneOf ((Kind.all.filter test).map .leaf)

def inOrder : List Production → Production
  | [] => 1
  | P :: Ps => P * inOrder Ps

def optional (P : Production) : Production := 1 + P

def separated (P : Production) : Production := (P * leaf .comma).star * P

/-- A separator may follow the last one. -/
def separatedUpTo (P : Production) : Production := (P * leaf .comma).star * optional P

/-- The end of a statement. -/
def ending : Production := optional (leaf .semicolon)

/-- The part that all loops share. -/
def loopTail : Production := inOrder [leaf .kwDo, node .block, leaf .kwEndDo, ending]

def methodTail (keyword closer : Kind) : Production :=
  inOrder [
    leaf keyword, leaf .identifier, node .params, optional (leaf .kwExport), node .block,
    leaf closer]

end Production

/-! ## The table -/

/-- Rules whose nodes are found among statements. -/
def statementRules : List Rule :=
  [.emptyStatement, .directive, .label, .vars, .ifStatement, .whileLoop, .forLoop, .forEachLoop,
   .tryStatement, .returnStatement, .raiseStatement, .continueStatement, .breakStatement,
   .executeStatement, .gotoStatement, .addHandler, .removeHandler, .assignment, .call]

/-- What may stand in a block. Recovery ends with a `;`. -/
def blockItems : List Symbol := statementRules.map .node ++ [.error, .leaf .semicolon]

/-- What may stand in a module. Recovery from a method ends with the end of one. -/
def moduleItems : List Symbol :=
  .node .method :: blockItems ++ [.leaf .kwEndProcedure, .leaf .kwEndFunction]

open Production in
/-- What the children of a node may be. -/
def production : Rule → Production
  | .file => (oneOf moduleItems).star * leaf .endOfInput
  | .directive => inOrder [leaf .hash, (leafThat Kind.isDirectivePart).star]
  | .annotationEntry =>
    inOrder [
      leaf .ampersand, leafThat Kind.isAnnotationName,
      optional (inOrder [
        leaf .leftParen, separatedUpTo (node .expression), leaf .rightParen])]
  | .vars => inOrder [leaf .kwVar, separated (node .var), ending]
  | .var => inOrder [leaf .identifier, optional (leaf .kwExport)]
  | .method =>
    inOrder [
      (node .annotationEntry).star, optional (leaf .kwAsync),
      methodTail .kwProcedure .kwEndProcedure + methodTail .kwFunction .kwEndFunction]
  | .params => inOrder [leaf .leftParen, separatedUpTo (node .param), leaf .rightParen]
  | .param =>
    inOrder [
      (node .annotationEntry).star, optional (leaf .kwVal), leaf .identifier,
      optional (inOrder [leaf .assign, node .expression])]
  | .block => (oneOf blockItems).star
  | .emptyStatement => inOrder [leaf .semicolon]
  | .label => inOrder [leaf .tilde, leaf .identifier, leaf .colon]
  | .assignment => inOrder [node .expression, leaf .assign, node .expression, ending]
  | .call => inOrder [node .expression, ending]
  | .ifStatement =>
    inOrder [
      leaf .kwIf, node .expression, leaf .kwThen, node .block, (node .elseIfBranch).star,
      optional (node .elseBranch), leaf .kwEndIf, ending]
  | .elseIfBranch => inOrder [leaf .kwElsIf, node .expression, leaf .kwThen, node .block]
  | .elseBranch => inOrder [leaf .kwElse, node .block]
  | .whileLoop => inOrder [leaf .kwWhile, node .expression, loopTail]
  | .forLoop =>
    inOrder [
      leaf .kwFor, leaf .identifier, leaf .assign, node .expression,
      leaf .kwTo, node .expression, loopTail]
  | .forEachLoop =>
    inOrder [
      leaf .kwFor, leaf .kwEach, leaf .identifier, leaf .kwIn, node .expression, loopTail]
  | .tryStatement =>
    inOrder [leaf .kwTry, node .block, node .exceptBranch, leaf .kwEndTry, ending]
  | .exceptBranch => inOrder [leaf .kwExcept, node .block]
  | .returnStatement => inOrder [leaf .kwReturn, optional (node .expression), ending]
  | .continueStatement => inOrder [leaf .kwContinue, ending]
  | .breakStatement => inOrder [leaf .kwBreak, ending]
  | .raiseStatement => inOrder [leaf .kwRaise, optional (node .expression), ending]
  | .executeStatement => inOrder [leaf .kwExecute, node .expression, ending]
  | .gotoStatement => inOrder [leaf .kwGoto, leaf .tilde, leaf .identifier, ending]
  | .addHandler =>
    inOrder [leaf .kwAddHandler, node .expression, leaf .comma, node .expression, ending]
  | .removeHandler =>
    inOrder [leaf .kwRemoveHandler, node .expression, leaf .comma, node .expression, ending]
  | .expression =>
    leafThat (fun kind => !endsExpression kind) *
      (leafThat fun kind => !endsExpression kind).star

/-- Statements that end with `;`, unless what follows them ends them too. -/
def Rule.isEnded (rule : Rule) : Bool :=
  rule ∈ statementRules && rule ∉ [Rule.label, .directive, .emptyStatement]

/-- The end of the block around a statement. -/
def endsBlock (kind : Kind) : Bool := kind = .endOfInput || isBlockCloser kind

/-- Brackets are matched, besides these that are closed first. -/
def bracketsMatch : List Kind → List Kind → Bool
  | closers, [] => closers.isEmpty
  | closers, kind :: kinds =>
    match kind.closer? with
    | some closer => bracketsMatch (closer :: closers) kinds
    | none =>
      if isClosingBracket kind then closers.head? = some kind && bracketsMatch closers.tail kinds
      else bracketsMatch closers kinds

/-- A node, with the leaves after it, is as the grammar has it. -/
structure Derives (n : Node Rule Kind) (after : List (Token Kind)) : Prop where
  production : n.children.map symbol ∈ (production n.rule).matches'
  brackets : n.rule = .expression →
    ∃ kinds, n.children.map symbol = kinds.map .leaf ∧ bracketsMatch [] kinds
  errors : ∀ t, .error t ∈ n.children → n.rule = .file ∨ n.rule = .block
  ending : n.rule.isEnded →
    (n.children.map symbol).getLast? = some (.leaf .semicolon) ∨
      ∃ t ∈ after.head?, endsBlock t.kind

/-- The tree of a module is a derivation of what is shown of the token list. -/
structure Derivation (tokens : List (Token Kind)) (tree : Node Rule Kind) : Prop where
  rule : tree.rule = .file
  leaves : Tree.leavesOf tree.children =
    Cursor.shown .codeOnly tokens ++ [Token.endOf tokens]
  nodes : ∀ place ∈ Tree.occurrences [] tree.toTree, Derives place.1 place.2

/-! ## Words of productions -/

theorem mem_oneOf {symbols : List Symbol} {word : List Symbol} :
    word ∈ (Production.oneOf symbols).matches' ↔ ∃ s ∈ symbols, word = [s] := by
  induction symbols with
  | nil => simp [Production.oneOf]
  | cons s ss ih =>
    have hchar : word ∈ (RegularExpression.char s).matches' ↔ word = [s] := Iff.rfl
    rw [Production.oneOf, RegularExpression.matches'_add, Language.mem_add, ih, hchar]
    simp

/-- Once is often enough. -/
theorem mem_star {P : Production} {word : List Symbol} (h : word ∈ P.matches') :
    word ∈ P.star.matches' :=
  Language.mem_kstar.2 ⟨[word], by simp, by simpa using h⟩

theorem mem_star_oneOf {symbols : List Symbol} {word : List Symbol}
    (h : ∀ s ∈ word, s ∈ symbols) : word ∈ (Production.oneOf symbols).star.matches' := by
  refine Language.mem_kstar.2 ⟨word.map fun s => [s], ?_, fun one hone => ?_⟩
  · induction word with
    | nil => rfl
    | cons s ss ih => simpa using ih fun s' hs' => h s' (List.mem_cons_of_mem _ hs')
  · obtain ⟨s, hs, rfl⟩ := List.mem_map.1 hone
    exact mem_oneOf.2 ⟨s, h s hs, rfl⟩

theorem Kind.mem_all (kind : Kind) : kind ∈ Kind.all := by cases kind <;> decide

theorem mem_leafThat {test : Kind → Bool} {kind : Kind} (h : test kind = true) :
    [Symbol.leaf kind] ∈ (Production.leafThat test).matches' :=
  mem_oneOf.2 ⟨_, List.mem_map_of_mem (List.mem_filter.2 ⟨kind.mem_all, h⟩), rfl⟩

/-- Whether a symbol is part of an expression. -/
def mentions (s : Symbol) : Production → Bool
  | .zero | .epsilon => false
  | .char s' => s = s'
  | .plus P Q | .comp P Q => mentions s P || mentions s Q
  | .star P => mentions s P

theorem mentions_of_mem {s : Symbol} {P : Production} {word : List Symbol}
    (h : word ∈ P.matches') (hs : s ∈ word) : mentions s P = true := by
  induction P generalizing word with
  | zero => cases h
  | epsilon =>
    cases (Language.mem_one _).1 h
    cases hs
  | char s' =>
    obtain rfl : word = [s'] := h
    simpa [mentions] using hs
  | plus P Q ihP ihQ =>
    rw [mentions, Bool.or_eq_true]
    exact h.imp (ihP · hs) (ihQ · hs)
  | comp P Q ihP ihQ =>
    obtain ⟨a, ha, b, hb, rfl⟩ := Language.mem_mul.1 h
    rw [mentions, Bool.or_eq_true]
    exact (List.mem_append.1 hs).imp (ihP ha) (ihQ hb)
  | star P ih =>
    obtain ⟨words, rfl, hwords⟩ := Language.mem_kstar.1 h
    obtain ⟨word, hword, hs⟩ := List.mem_flatten.1 hs
    exact ih (hwords word hword) hs

theorem mentions_error (rule : Rule) (h : mentions .error (production rule) = true) :
    rule = .file ∨ rule = .block := by
  cases rule <;> first | exact .inl rfl | exact .inr rfl | (revert h; decide)

/-- Skipped tokens are children of modules and of blocks only. -/
theorem error_mem {rule : Rule} {word : List Symbol} (h : word ∈ (production rule).matches')
    (he : .error ∈ word) : rule = .file ∨ rule = .block :=
  mentions_error rule (mentions_of_mem h he)

end Module
end BuiltInScript
