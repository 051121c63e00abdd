import Mathlib.Data.List.Infix
import BuiltInScript.Query.Grammar

/-!
# Brackets in queries

What it means that the brackets of a token list are balanced, and where its subqueries are, said of
the tokens alone. Balanced lists are those that some `Nest` writes out, and every other list shows
where it goes wrong: at a bracket that closes nothing, or at its end, within what is still open.

**Results.**
* `closes_iff`: balance can be checked by counting the open brackets along the way.
* `bracketing`: a list is balanced, or it goes wrong in one of the two ways.
* `Nest.extentsOf_trees`: the nodes made of a nest are the subqueries of its tokens, each from its
  bracket to the matching one.
-/
namespace BuiltInScript

/-! ## Where nodes are -/

/-- Which of the leaves belong to a node of a rule. -/
structure Extent (R : Type) where
  rule : R
  start : Nat
  length : Nat
deriving DecidableEq, Repr

namespace Tree

variable {R K : Type}

mutual
/-- The extents of all nodes in preorder, if the first leaf is the one with this number. -/
def extents (start : Nat) : Tree R K → List (Extent R)
  | .node rule children _ =>
    ⟨rule, start, (leavesOf children).length⟩ :: extentsOf start children
  | .token _ | .error _ => []

/-- `extents` of trees side by side. -/
def extentsOf (start : Nat) : List (Tree R K) → List (Extent R)
  | [] => []
  | t :: ts => extents start t ++ extentsOf (start + (leaves t).length) ts
end

theorem extentsOf_append (start : Nat) (a b : List (Tree R K)) :
    extentsOf start (a ++ b) = extentsOf start a ++ extentsOf (start + (leavesOf a).length) b := by
  induction a generalizing start with
  | nil => rfl
  | cons t ts ih => simp [extentsOf, leavesOf, ih, Nat.add_assoc]

end Tree

namespace Query

/-! ## Balance -/

/-- The number of tokens of a kind. -/
def number (kind : Kind) (tokens : List (Token Kind)) : Nat := tokens.countP fun t => t.kind = kind

/-- Every bracket has its partner: whatever the tokens begin with closes no more brackets than it
opens, and all that are opened are closed. -/
structure Balanced (tokens : List (Token Kind)) : Prop where
  closed_le : ∀ before, before <+: tokens → number .rightParen before ≤ number .leftParen before
  closed_eq : number .rightParen tokens = number .leftParen tokens

/-- Whether the tokens close this many brackets besides those that they open themselves. -/
def closes : Nat → List (Token Kind) → Bool
  | depth, [] => depth = 0
  | depth, t :: ts =>
    if t.kind = .leftParen then closes (depth + 1) ts
    else if t.kind = .rightParen then depth ≠ 0 && closes (depth - 1) ts
    else closes depth ts

theorem closes_iff (depth : Nat) (tokens : List (Token Kind)) :
    closes depth tokens = true ↔
      (∀ before, before <+: tokens →
        number .rightParen before ≤ number .leftParen before + depth) ∧
      number .rightParen tokens = number .leftParen tokens + depth := by
  induction tokens generalizing depth with
  | nil => simp [closes, number, eq_comm]
  | cons t ts ih =>
    have hbegin (bound : List (Token Kind) → Prop) :
        (∀ before, before <+: t :: ts → bound before) ↔
          bound [] ∧ ∀ before, before <+: ts → bound (t :: before) := by
      simp only [List.prefix_cons_iff]
      constructor
      · exact fun h => ⟨h [] (.inl rfl), fun before hb => h _ (.inr ⟨before, rfl, hb⟩)⟩
      · rintro ⟨hnil, hcons⟩ before (rfl | ⟨rest, rfl, hrest⟩)
        · exact hnil
        · exact hcons rest hrest
    have hcount (kind : Kind) (rest : List (Token Kind)) :
        number kind (t :: rest) = number kind rest + if t.kind = kind then 1 else 0 := by
      simp [number, List.countP_cons]
    have hnil (kind : Kind) : number kind [] = 0 := rfl
    unfold closes
    rw [hbegin]
    simp only [hcount, hnil]
    by_cases ho : t.kind = .leftParen
    · simp [ho, ih, Nat.add_assoc, Nat.add_comm 1]
    · by_cases hc : t.kind = .rightParen
      · -- The bracket itself must be one of those that are to be closed.
        have hfirst : (∀ before, before <+: ts →
            number .rightParen before + 1 ≤ number .leftParen before + depth) → depth ≠ 0 := by
          intro h
          have := h [] List.nil_prefix
          simp only [hnil] at this
          omega
        simp only [hc, ih, reduceCtorEq, if_true, if_false, Bool.and_eq_true, decide_eq_true_eq,
          Nat.add_zero, Nat.zero_add, Nat.zero_le, true_and]
        constructor
        · rintro ⟨hd, hle, heq⟩
          exact ⟨fun before hb => by have := hle before hb; omega, by omega⟩
        · rintro ⟨hle, heq⟩
          have hd := hfirst hle
          exact ⟨hd, fun before hb => by have := hle before hb; omega, by omega⟩
      · simp [ho, hc, ih]

theorem balanced_iff_closes (tokens : List (Token Kind)) :
    Balanced tokens ↔ closes 0 tokens = true := by
  rw [closes_iff]
  exact ⟨fun h => ⟨h.closed_le, h.closed_eq⟩, fun h => ⟨h.1, h.2⟩⟩

instance (tokens : List (Token Kind)) : Decidable (Balanced tokens) :=
  decidable_of_iff _ (balanced_iff_closes tokens).symm

/-! ## Subqueries -/

/-- The first token is of a kind. -/
def beginsWith (kind : Kind) (tokens : List (Token Kind)) : Bool :=
  tokens.head?.any fun t => t.kind = kind

theorem beginsWith_append_cons {kind : Kind} {c : Token Kind} (h : c.kind ≠ kind)
    (tokens rest : List (Token Kind)) :
    beginsWith kind (tokens ++ c :: rest) = beginsWith kind tokens := by
  cases tokens <;> simp [beginsWith, h]

/-- The tokens up to the bracket that closes the outermost of this many open ones. -/
def upToCloser : Nat → List (Token Kind) → List (Token Kind)
  | 0, _ | _ + 1, [] => []
  | depth + 1, t :: ts =>
    t :: upToCloser
      (if t.kind = .leftParen then depth + 2
        else if t.kind = .rightParen then depth else depth + 1) ts

/-- The subqueries of a query: one for each `(` directly before `ВЫБРАТЬ`, up to the matching `)`.
The first token is the one with this number. -/
def subqueries : Nat → List (Token Kind) → List (Extent Rule)
  | _, [] => []
  | start, t :: ts =>
    (if t.kind = .leftParen ∧ beginsWith .kwSelect ts then
      [⟨.subquery, start, (t :: upToCloser 1 ts).length⟩] else []) ++ subqueries (start + 1) ts

/-! ## Well-formed queries -/

/-- The first word of a query. -/
def BeginsQuery (tokens : List (Token Kind)) : Prop :=
  beginsWith .kwSelect tokens ∨ beginsWith .kwDrop tokens

instance (tokens : List (Token Kind)) : Decidable (BeginsQuery tokens) :=
  inferInstanceAs (Decidable (_ ∨ _))

structure WellFormed (tokens : List (Token Kind)) : Prop where
  begins : BeginsQuery tokens
  balanced : Balanced tokens

theorem WellFormed.ne_nil {tokens : List (Token Kind)} (h : WellFormed tokens) : tokens ≠ [] := by
  rintro rfl
  cases h.begins <;> simp_all [beginsWith]

/-- Something that should be a query, but is not well-formed. -/
def Malformed (tokens : List (Token Kind)) : Prop := tokens ≠ [] ∧ ¬ WellFormed tokens

instance (tokens : List (Token Kind)) : Decidable (WellFormed tokens) :=
  decidable_of_iff (BeginsQuery tokens ∧ Balanced tokens)
    ⟨fun h => ⟨h.1, h.2⟩, fun h => ⟨h.begins, h.balanced⟩⟩

instance (tokens : List (Token Kind)) : Decidable (Malformed tokens) :=
  inferInstanceAs (Decidable (_ ∧ _))

/-! ## Nests -/

/-- Tokens with their brackets matched. -/
inductive Nest where
  | done
  | token (t : Token Kind) (plain : t.kind ≠ .leftParen ∧ t.kind ≠ .rightParen) (rest : Nest)
  | bracket (o c : Token Kind) (opens : o.kind = .leftParen) (closes : c.kind = .rightParen)
      (inner rest : Nest)

namespace Nest

def tokens : Nest → List (Token Kind)
  | done => []
  | token t _ rest => t :: rest.tokens
  | bracket o c _ _ inner rest => o :: (inner.tokens ++ c :: rest.tokens)

/-- A bracket is a subquery if it begins with `ВЫБРАТЬ`. -/
def enclose (inner : List (Token Kind)) (trees : Trees) : Trees :=
  if beginsWith .kwSelect inner then [.node .subquery trees {}] else trees

/-- The trees that a query makes of its tokens. -/
def trees : Nest → Trees
  | done => []
  | token t _ rest => .token t :: rest.trees
  | bracket o c _ _ inner rest =>
    enclose inner.tokens (.token o :: (inner.trees ++ [.token c])) ++ rest.trees

theorem leavesOf_enclose (inner : List (Token Kind)) (trees : Trees) :
    Tree.leavesOf (enclose inner trees) = Tree.leavesOf trees := by
  unfold enclose
  split <;> simp [Tree.leavesOf, Tree.leaves]

@[simp] theorem leavesOf_trees (nest : Nest) : Tree.leavesOf nest.trees = nest.tokens := by
  induction nest with
  | done => rfl
  | token t _ rest ih => simp [trees, tokens, Tree.leavesOf, Tree.leaves, ih]
  | bracket o c _ _ inner rest ihInner ihRest =>
    simp [trees, tokens, leavesOf_enclose, Tree.leavesOf, Tree.leaves, ihInner, ihRest]

theorem anyErrors_trees (nest : Nest) : Tree.anyErrors nest.trees = false := by
  induction nest with
  | done => rfl
  | token t _ rest ih => simpa [trees, Tree.anyErrors, Tree.hasErrors] using ih
  | bracket o c _ _ inner rest ihInner ihRest =>
    unfold trees enclose
    split <;> simp [Tree.anyErrors, Tree.hasErrors, ihInner, ihRest]

/-- A tree holds at least one token. -/
theorem length_trees_le (nest : Nest) : nest.trees.length ≤ nest.tokens.length := by
  induction nest with
  | done => exact Nat.le_refl 0
  | token t _ rest ih => simpa [trees, tokens] using ih
  | bracket o c _ _ inner rest ihInner ihRest =>
    simp only [trees, tokens, enclose]
    split <;> simp <;> omega

theorem closes_append (nest : Nest) (depth : Nat) (rest : List (Token Kind)) :
    closes depth (nest.tokens ++ rest) = closes depth rest := by
  induction nest generalizing depth rest with
  | done => rfl
  | token t plain others ih => simp [tokens, closes, plain.1, plain.2, ih]
  | bracket o c ho hc inner others ihInner ihOthers =>
    simp [tokens, closes, ho, hc, ihInner, ihOthers]

theorem upToCloser_append (nest : Nest) (depth : Nat) (rest : List (Token Kind)) :
    upToCloser (depth + 1) (nest.tokens ++ rest) = nest.tokens ++ upToCloser (depth + 1) rest := by
  induction nest generalizing depth rest with
  | done => rfl
  | token t plain others ih => simp [tokens, upToCloser, plain.1, plain.2, ih]
  | bracket o c ho hc inner others ihInner ihOthers =>
    simp [tokens, upToCloser, ho, hc, ihInner, ihOthers]

/-- What is between a bracket and the matching one is between it and the first that closes it. -/
theorem upToCloser_bracket (inner : Nest) {c : Token Kind} (hc : c.kind = .rightParen)
    (rest : List (Token Kind)) :
    upToCloser 1 (inner.tokens ++ c :: rest) = inner.tokens ++ [c] := by
  simp [upToCloser_append, upToCloser, hc]

theorem extentsOf_enclose (start : Nat) (inner : List (Token Kind)) (trees : Trees) :
    Tree.extentsOf start (enclose inner trees) =
      (if beginsWith .kwSelect inner then [⟨.subquery, start, (Tree.leavesOf trees).length⟩]
        else []) ++ Tree.extentsOf start trees := by
  unfold enclose
  split <;> simp [Tree.extentsOf, Tree.extents]

theorem subqueries_append (nest : Nest) (start : Nat) (rest : List (Token Kind)) :
    subqueries start (nest.tokens ++ rest) =
      Tree.extentsOf start nest.trees ++ subqueries (start + nest.tokens.length) rest := by
  induction nest generalizing start rest with
  | done => rfl
  | token t plain others ih =>
    simp [tokens, trees, subqueries, plain.1, ih, Tree.extentsOf, Tree.extents, Tree.leaves,
      Nat.add_assoc, Nat.add_comm 1]
  | bracket o c ho hc inner others ihInner ihOthers =>
    have hbegins := beginsWith_append_cons (show c.kind ≠ .kwSelect by rw [hc]; decide)
      inner.tokens (others.tokens ++ rest)
    have hcloser : subqueries (start + 1 + inner.tokens.length) (c :: (others.tokens ++ rest)) =
        subqueries (start + (inner.tokens.length + 2)) (others.tokens ++ rest) := by
      simp [subqueries, hc, Nat.add_assoc, Nat.add_comm 1]
    -- The bracket itself, what is in it, its partner, and what comes after it.
    calc subqueries start ((bracket o c ho hc inner others).tokens ++ rest)
        = (if beginsWith .kwSelect inner.tokens then
              [⟨.subquery, start, inner.tokens.length + 2⟩] else []) ++
            subqueries (start + 1) (inner.tokens ++ c :: (others.tokens ++ rest)) := by
          simp [tokens, subqueries, ho, hbegins, upToCloser_bracket inner hc]
      _ = (if beginsWith .kwSelect inner.tokens then
              [⟨.subquery, start, inner.tokens.length + 2⟩] else []) ++
            (Tree.extentsOf (start + 1) inner.trees ++
              (Tree.extentsOf (start + (inner.tokens.length + 2)) others.trees ++
                subqueries (start + (inner.tokens.length + 2) + others.tokens.length) rest)) := by
          rw [ihInner, hcloser, ihOthers]
      _ = _ := by
          have hlen : start + (bracket o c ho hc inner others).tokens.length =
              start + (inner.tokens.length + 2) + others.tokens.length := by
            simp [tokens]
            omega
          rw [hlen]
          simp [trees, Tree.extentsOf_append, extentsOf_enclose, leavesOf_enclose,
            Tree.extentsOf, Tree.extents, Tree.leavesOf, Tree.leaves, Nat.add_assoc]

/-- The nodes that are made of a nest are the subqueries of its tokens. -/
theorem extentsOf_trees (nest : Nest) (start : Nat) :
    Tree.extentsOf start nest.trees = subqueries start nest.tokens := by
  simpa [subqueries] using (subqueries_append nest start []).symm

theorem balanced (nest : Nest) : Balanced nest.tokens :=
  (balanced_iff_closes _).2 (by simpa [closes] using closes_append nest 0 [])

end Nest

/-! ## What goes wrong -/

/-- Tokens within a bracket that they never close: some nests, and an opening bracket after each
but the last. -/
inductive Unclosed where
  | last (nest : Nest)
  | deeper (nest : Nest) (o : Token Kind) (opens : o.kind = .leftParen) (rest : Unclosed)

def Unclosed.tokens : Unclosed → List (Token Kind)
  | last nest => nest.tokens
  | deeper nest o _ rest => nest.tokens ++ o :: rest.tokens

theorem Unclosed.not_closes (rest : Unclosed) (depth : Nat) :
    closes (depth + 1) rest.tokens = false := by
  induction rest generalizing depth with
  | last nest => simpa [tokens, closes] using nest.closes_append (depth + 1) []
  | deeper nest o ho rest ih => simp [tokens, nest.closes_append, closes, ho, ih]

/-- What the brackets of a token list are like. -/
inductive Bracketing : List (Token Kind) → Prop
  | matched (nest : Nest) : Bracketing nest.tokens
  /-- A bracket closes nothing. -/
  | early (nest : Nest) (c : Token Kind) (closes : c.kind = .rightParen)
      (rest : List (Token Kind)) : Bracketing (nest.tokens ++ c :: rest)
  /-- A bracket is not closed. -/
  | late (nest : Nest) (o : Token Kind) (opens : o.kind = .leftParen) (rest : Unclosed) :
      Bracketing (nest.tokens ++ o :: rest.tokens)

/-- A further token, or a further bracket, before the rest. -/
theorem Bracketing.before {tokens : List (Token Kind)} (h : Bracketing tokens)
    (add : Nest → Nest) (first : List (Token Kind))
    (hadd : ∀ nest, (add nest).tokens = first ++ nest.tokens) : Bracketing (first ++ tokens) := by
  cases h with
  | matched nest => exact hadd nest ▸ .matched (add nest)
  | early nest c hc rest =>
    have := Bracketing.early (add nest) c hc rest
    rwa [hadd, List.append_assoc] at this
  | late nest o ho rest =>
    have := Bracketing.late (add nest) o ho rest
    rwa [hadd, List.append_assoc] at this

theorem bracketing (tokens : List (Token Kind)) : Bracketing tokens := by
  -- What follows a bracket and its partner is shorter, but it is not the tail.
  induction hn : tokens.length using Nat.strong_induction_on generalizing tokens with
  | _ n ih =>
    subst hn
    cases tokens with
    | nil => exact .matched .done
    | cons t ts =>
      have hrest := ih ts.length (Nat.lt_succ_self _) ts rfl
      by_cases ho : t.kind = .leftParen
      · cases hrest with
        | matched nest => exact .late .done t ho (.last nest)
        | late nest o ho' rest => exact .late .done t ho (.deeper nest o ho' rest)
        | early nest c hc rest =>
          have hafter := ih rest.length (by simp; omega) rest rfl
          have := hafter.before (.bracket t c ho hc nest) (t :: (nest.tokens ++ [c]))
            fun others => by simp [Nest.tokens]
          simpa using this
      · by_cases hc : t.kind = .rightParen
        · exact .early .done t hc ts
        · exact hrest.before (.token t ⟨ho, hc⟩) [t] fun others => rfl

/-- The brackets of a balanced list can be matched. -/
theorem Balanced.exists_nest {tokens : List (Token Kind)} (h : Balanced tokens) :
    ∃ nest : Nest, nest.tokens = tokens := by
  rw [balanced_iff_closes] at h
  cases bracketing tokens with
  | matched nest => exact ⟨nest, rfl⟩
  | early nest c hc rest => simp [nest.closes_append, closes, hc] at h
  | late nest o ho rest => simp [nest.closes_append, closes, ho, rest.not_closes] at h

end Query
end BuiltInScript
