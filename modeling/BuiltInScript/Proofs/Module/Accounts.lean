import BuiltInScript.Module.Directive
import BuiltInScript.Proofs.Module.Inheritance
import BuiltInScript.Proofs.Module.Regular
import BuiltInScript.Proofs.Parsing.Accounts

/-!
# Modules account for their faults

Every rule of the module grammar accounts for what it reports. Recovery takes `;` and the keywords
that end methods as they are, so it matters that the rules it is about never fail where one of them
is next.

**Results.**
* `expression_accounts`: a bracket that is not closed is one that was seen.
* `accounts_inherited`: no rule fails in silence or loses sight of a fault.
* `directive_accounts`: what a directive line reports is about tokens of the line, and no line
  stands for a patch marker.
-/
namespace BuiltInScript.Module

open BuiltInScript.Part
open BuiltInScript.Parse (Accounted Accounts)

variable {Q : Token Kind → Prop}

/-! ## Expressions -/

/-- The brackets that a fault at the end of a run may look back at. -/
def RunEnd.brackets : RunEnd → List OpenBracket
  | .stopped opened => opened
  | .mismatched innermost => [innermost]

/-- The brackets that a run leaves open are among its tokens. -/
theorem expressionRun_brackets (upToAssign : Bool) {opened : List OpenBracket}
    {previous : Option Kind} {tokens : List (Token Kind)} (ht : ∀ t ∈ tokens, Q t)
    (ho : ∀ bracket ∈ opened, Q bracket.opener) :
    ∀ bracket ∈ (expressionRun upToAssign opened previous tokens).2.brackets, Q bracket.opener := by
  induction tokens generalizing opened previous with
  | nil => exact ho
  | cons t ts ih =>
    obtain ⟨ht, hts⟩ := List.forall_mem_cons.1 ht
    obtain hrun | ⟨innermost, hinnermost, hrun⟩ | ⟨opened', htaken, hrun⟩ :=
      expressionRun_cons_cases upToAssign opened previous t ts
    · rw [hrun]
      exact ho
    · rw [hrun]
      exact List.forall_mem_singleton.2 (ho innermost hinnermost)
    · rw [hrun]
      refine ih hts ?_
      cases htaken with
      | opens => exact List.forall_mem_cons.2 ⟨ht, ho⟩
      | closes hopened =>
        rw [hopened] at ho
        exact (List.forall_mem_cons.1 ho).2
      | plain => exact ho

theorem expression_accounts (upToAssign : Bool) : Accounts Q Shows (expression upToAssign) := by
  rw [expression_eq_scan]
  refine .within (accounts_scan _ fun tokens fault ht hfault found hfound => ?_)
  have hopened : ∀ bracket ∈ (expressionRun upToAssign [] none tokens).2.brackets,
      Q bracket.opener := expressionRun_brackets upToAssign ht (List.forall_mem_nil _)
  unfold readExpression at hfault
  generalize expressionRun upToAssign [] none tokens = result at hfault hopened
  rcases result with ⟨run, ⟨_ | ⟨innermost, outer⟩⟩ | innermost⟩
  · dsimp only at hfault
    split at hfault <;> cases hfault
    exact List.forall_mem_singleton.2 hfound
  · cases hfault
    have hopener := hopened innermost List.mem_cons_self
    exact List.forall_mem_cons.2 ⟨hfound, List.forall_mem_singleton.2 hopener⟩
  · cases hfault
    have hopener := hopened innermost List.mem_cons_self
    exact List.forall_mem_cons.2 ⟨hfound, List.forall_mem_singleton.2 hopener⟩

/-! ## All rules -/

/-- A `;` is a statement by itself, so no statement fails where recovery would stop after one. -/
theorem sync_of_statement_error {block : Parse Kind Trees} {p q : Parser Kind} {e : ParseError}
    (h : statement block p = .error e q) : statementSync p.cursor.peek.kind ≠ .stopAfter := by
  intro hsync
  have hk : p.cursor.peek.kind = .semicolon := by
    unfold statementSync at hsync
    split at hsync
    · assumption
    · split at hsync <;> cases hsync
  unfold statement Parse.within byKind at h
  rw [hk] at h
  cases h

theorem blockTurn_accounts {block : Parse Kind Trees} (h : Accounts Q Shows (statement block)) :
    Accounts Q (fun turn => Shows turn.1) (blockTurn (statement block)) := by
  intro p hp
  unfold blockTurn
  rw [Parse.bind_apply]
  dsimp only [Parse.peekKind]
  split
  · exact Accounts.pure .nil hp
  · rename_i hk
    have hne : p.cursor.peek.kind ≠ .endOfInput := by
      intro he
      rw [he] at hk
      exact hk rfl
    refine .bind hp (accounted_recovering hp (h hp) hne fun e q => sync_of_statement_error)
      fun trees ds q hq hs => ?_
    exact Accounts.pure (by rw [List.append_nil]; exact hs) hq

theorem assignmentOrCall_accounts (hend : Accounts Q Shows statementEnd) :
    Accounts Q Shows assignmentOrCall := by
  unfold assignmentOrCall
  rw [isAssignment_eq_look]
  refine (Accounts.look viewAssignment_general).bind fun assigns ds hds => ?_
  cases hds
  split
  · exact accounts_node _ <| accounts_inOrder_cons (expression_accounts true) <|
      accounts_inOrder_cons (accounts_leaf _) <|
      accounts_inOrder_cons (expression_accounts false) <|
      accounts_inOrder_cons hend accounts_nothing
  · exact accounts_node _ <| accounts_inOrder_cons (expression_accounts false) <|
      accounts_inOrder_cons hend accounts_nothing

/-- All rules account for what they report. -/
theorem accounts_inherited : Inherited (Accounts Q Shows) where
  nothing := accounts_nothing
  any := accounts_any
  leafOr _ _ hfault := accounts_leafOr fun found hfound => by simpa [hfault found]
  failHere hfault := .failHere fun found hfound => by simpa [hfault found]
  optional := accounts_optional
  leavesWhile := accounts_leavesWhile
  inOrder := accounts_inOrder_cons
  byKind := accounts_byKind
  node rule _ _ _ := accounts_node rule
  within _ _ := .within
  counting := accounts_counting
  second h := (Accounts.lookahead 1).bind fun _ _ ⟨_, hds⟩ => hds ▸ h _
  whileAt _ _ := accounts_whileAt _
  separated _ _ := accounts_separated _
  separatedUpTo _ _ _ := accounts_separatedUpTo _ _
  expression := expression_accounts
  assignmentOrCall := assignmentOrCall_accounts
  statements _ h := accounts_turns (blockTurn_accounts h)

/-! ## Directives

What a directive line reports is about tokens of the line. It may report and hold all the same, so
its value does not answer for what was reported. -/

/-- An action that reports about tokens it sees, whatever its value. -/
abbrev Tells {α : Type} (Q : Token Kind → Prop) (action : Parse Kind α) : Prop :=
  Accounts Q (fun _ _ => True) action

theorem tells_missing {t : Token Kind} {α : Type} (h : Q t) :
    Tells Q (Parse.fail (.missingSymbol t) : Parse Kind α) :=
  .fail (List.forall_mem_singleton.2 h)

section
variable {inner operand : Parse Kind Condition}

theorem atom_tells (h : Tells Q inner) : Tells Q (atom inner) := by
  refine Accounts.next.bind fun token ds ⟨htoken, _⟩ => ?_
  split
  · refine h.bind fun condition _ _ => ?_
    exact (Accounts.expectOr fun _ h => by simpa [Fault.tokens]).map fun _ _ _ => trivial
  · split <;> exact .pure trivial
  · exact .pure trivial
  · exact tells_missing htoken

theorem negated_tells (h : Tells Q inner) (n : Nat) : Tells Q (negated inner n) := by
  induction n with
  | zero => exact atom_tells h
  | succ n ih =>
    refine (Accounts.eat _).bind fun found ds _ => ?_
    cases found with
    | some t => exact ih.map fun _ _ _ => trivial
    | none => exact atom_tells h

theorem chainRest_tells {operator : Kind} {combine : Condition → Condition → Condition}
    (h : Tells Q operand) (n : Nat) (left : Condition) :
    Tells Q (chainRest operator combine operand n left) := by
  induction n generalizing left with
  | zero => exact .pure trivial
  | succ n ih =>
    refine (Accounts.eat _).bind fun found ds _ => ?_
    cases found with
    | some t => exact h.bind fun right _ _ => ih (combine left right)
    | none => exact .pure trivial

theorem chain_tells {operator : Kind} {combine : Condition → Condition → Condition}
    (h : Tells Q operand) : Tells Q (chain operator combine operand) :=
  h.bind fun first _ _ => Accounts.remaining.bind fun n _ _ => chainRest_tells h n first

end

theorem conditionWithin_tells (depth : Nat) : Tells Q (conditionWithin depth) := by
  induction depth with
  | zero => exact Accounts.next.bind fun token _ ⟨htoken, _⟩ => tells_missing htoken
  | succ depth ih =>
    exact chain_tells <| chain_tells <| Accounts.remaining.bind fun n _ _ => negated_tells ih n

theorem condition?_tells : Tells Q condition? := by
  have hguard : Tells Q guardCondition :=
    .within <| Accounts.remaining.bind fun n _ _ => (conditionWithin_tells n).bind fun _ _ _ =>
      (Accounts.expectOr fun _ h => by simpa [Fault.tokens]).map fun _ _ _ => trivial
  refine hguard.attempt.bind fun result _ _ => ?_
  cases result with
  | ok condition => exact .pure trivial
  | error e => exact Accounts.skipAll.bind fun _ _ _ => .pure trivial

theorem directiveEnd_tells : Tells Q directiveEnd := by
  refine Accounts.peek.bind fun found _ ⟨hfound, _⟩ => ?_
  split
  · exact .pure trivial
  · exact (Accounts.emit (List.forall_mem_singleton.2 hfound)).bind fun _ _ _ =>
      Accounts.skipAll.imp fun _ _ _ => trivial

/-- The directives that patch markers stand for. -/
def Directive.isMarker : Directive → Bool
  | .insert | .endInsert | .delete | .endDelete => true
  | _ => false

theorem directiveBody_accounts {hash keyword : Token Kind} (hh : Q hash) (hk : Q keyword) :
    Accounts Q (fun directive _ => directive.isMarker = false) (directiveBody hash keyword) := by
  unfold directiveBody
  split
  · exact condition?_tells.map fun _ _ _ => rfl
  · exact condition?_tells.map fun _ _ _ => rfl
  · exact .pure rfl
  · exact .pure rfl
  · exact (Accounts.expectOr fun _ h => by simpa [Fault.tokens]).map fun _ _ _ => rfl
  · exact .pure rfl
  · refine Accounts.next.bind fun path _ hpath => ?_
    split
    · exact .pure rfl
    · exact .pure rfl
    · exact .fail (List.forall_mem_singleton.2 hpath.1)
  · exact Accounts.skipAll.bind fun _ _ _ => .pure rfl
  · exact .fail (List.forall_mem_cons.2 ⟨hk, List.forall_mem_singleton.2 hh⟩)

/-- A directive line reports about its own tokens, and stands for no patch marker. -/
theorem directive_accounts :
    Accounts Q (fun directive _ => directive.isMarker = false) directive :=
  .within <| (Accounts.expectOr fun _ h => by simpa [Fault.tokens]).bind
    fun hash _ ⟨hhash, _⟩ => Accounts.next.bind fun keyword _ ⟨hkeyword, _⟩ =>
      (directiveBody_accounts hhash hkeyword).bind fun _ _ hline =>
        directiveEnd_tells.map fun _ _ _ => hline

end BuiltInScript.Module
