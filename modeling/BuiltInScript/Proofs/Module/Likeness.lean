import BuiltInScript.Proofs.Module.Inheritance
import BuiltInScript.Proofs.Module.Regular
import BuiltInScript.Proofs.Parsing.Likeness
import BuiltInScript.Proofs.Parsing.Reading

/-!
# Modules are parsed by the kinds of tokens

No rule of the module grammar looks at anything but the kinds of tokens, however far it looks ahead.
So token lists of one form are parsed alike.

**Results.**
* `expressionRun_kinds`, `statementSort_kinds`: what the two scans of the tokens ahead tell depends
  on their kinds.
* `blind_inherited`: no rule looks at more.
* `file_blind`: neither does the rule of a whole module.
-/
namespace BuiltInScript.Module

open BuiltInScript.Part

/-! ## Scans of the tokens ahead -/

/-- A run after which no bracket is open or mismatched. -/
def RunEnd.isSound : RunEnd → Bool
  | .stopped opened => opened.isEmpty
  | .mismatched _ => false

/-- The length of a run, and whether its brackets are balanced, depend on kinds. -/
theorem expressionRun_kinds (upToAssign : Bool) {opened opened' : List OpenBracket}
    (hopened : opened.map OpenBracket.closer = opened'.map OpenBracket.closer)
    (previous : Option Kind) {tokens tokens' : List (Token Kind)}
    (h : tokens.map Token.kind = tokens'.map Token.kind) :
    (expressionRun upToAssign opened previous tokens).1.length =
        (expressionRun upToAssign opened' previous tokens').1.length ∧
      (expressionRun upToAssign opened previous tokens).2.isSound =
        (expressionRun upToAssign opened' previous tokens').2.isSound := by
  have hempty : opened.isEmpty = opened'.isEmpty := by
    simpa using congrArg List.isEmpty hopened
  induction tokens generalizing opened opened' previous tokens' with
  | nil =>
    obtain rfl := List.map_eq_nil_iff.1 h.symm
    exact ⟨rfl, hempty⟩
  | cons t ts ih =>
    obtain ⟨u, us, rfl, hkind, hkinds⟩ := List.map_eq_cons_iff.1 h.symm
    have htake {opened opened' : List OpenBracket}
        (h : opened.map OpenBracket.closer = opened'.map OpenBracket.closer) :=
      ih h (some t.kind) hkinds.symm (by simpa using congrArg List.isEmpty h)
    unfold expressionRun
    dsimp only
    rw [hkind, ← hempty]
    split
    · exact ⟨rfl, hempty⟩
    · cases hcloser : t.kind.closer? with
      | some closer =>
        have hpushed : (⟨closer, t⟩ :: opened : List OpenBracket).map OpenBracket.closer =
            (⟨closer, u⟩ :: opened' : List OpenBracket).map OpenBracket.closer :=
          congrArg (closer :: ·) hopened
        obtain ⟨hlength, hsound⟩ := htake hpushed
        exact ⟨congrArg (· + 1) hlength, hsound⟩
      | none =>
        dsimp only
        split
        · cases opened with
          | nil =>
            obtain rfl := List.map_eq_nil_iff.1 hopened.symm
            exact ⟨rfl, rfl⟩
          | cons innermost outer =>
            obtain ⟨innermost', outer', rfl, hcloser', houter⟩ :=
              List.map_eq_cons_iff.1 hopened.symm
            obtain ⟨hlength, hsound⟩ := htake houter.symm
            dsimp only
            rw [hcloser']
            split
            · exact ⟨congrArg (· + 1) hlength, hsound⟩
            · exact ⟨rfl, rfl⟩
        · split
          · exact ⟨rfl, hempty⟩
          · obtain ⟨hlength, hsound⟩ := htake hopened
            exact ⟨congrArg (· + 1) hlength, hsound⟩

theorem readExpression_kinds (upToAssign : Bool) {tokens tokens' : List (Token Kind)}
    (h : tokens.map Token.kind = tokens'.map Token.kind) :
    (readExpression upToAssign tokens).1 = (readExpression upToAssign tokens').1 ∧
      (readExpression upToAssign tokens).2.isSome =
        (readExpression upToAssign tokens').2.isSome := by
  have hread (tokens : List (Token Kind)) :
      (readExpression upToAssign tokens).1 =
          (expressionRun upToAssign [] none tokens).1.length ∧
        (readExpression upToAssign tokens).2.isSome =
          !((expressionRun upToAssign [] none tokens).2.isSound &&
            0 < (expressionRun upToAssign [] none tokens).1.length) := by
    unfold readExpression
    rcases expressionRun upToAssign [] none tokens with
      ⟨run, ⟨_ | ⟨innermost, outer⟩⟩ | innermost⟩
    · cases run <;> simp [RunEnd.isSound]
    · simp [RunEnd.isSound]
    · simp [RunEnd.isSound]
  obtain ⟨hlength, hsound⟩ := expressionRun_kinds upToAssign (rfl : [].map _ = [].map _) none h
  rw [(hread tokens).1, (hread tokens).2, (hread tokens').1, (hread tokens').2, hlength, hsound]
  exact ⟨rfl, rfl⟩

theorem statementSort_kinds (bound : Option Nat) (depth charged : Nat)
    {tokens tokens' : List (Token Kind)} (h : tokens.map Token.kind = tokens'.map Token.kind) :
    statementSort bound depth charged tokens = statementSort bound depth charged tokens' := by
  induction tokens generalizing depth charged tokens' with
  | nil =>
    obtain rfl := List.map_eq_nil_iff.1 h.symm
    rfl
  | cons t ts ih =>
    obtain ⟨u, us, rfl, hkind, hkinds⟩ := List.map_eq_cons_iff.1 h.symm
    simp only [statementSort, hkind, ih _ _ hkinds.symm]

variable {form : Form Kind}

theorem isAssignment_inStep : Parse.InStep form Eq isAssignment isAssignment := by
  intro p q hp
  unfold isAssignment
  rw [hp.mode, statementSort_kinds _ 0 0 (form.map_kind_eq hp.cursor.ahead)]
  split
  · exact .ok rfl hp
  · exact .ok rfl hp
  · exact .error hp

/-! ## Expressions and statements -/

theorem expression_blind (upToAssign : Bool) : Blind form (expression upToAssign) := by
  rw [expression_eq_scan]
  exact .within _ (.scan _ fun _ _ h => readExpression_kinds upToAssign h)

theorem assignmentOrCall_blind (hend : Blind form statementEnd) : Blind form assignmentOrCall := by
  refine isAssignment_inStep.bind fun assigns _ h => ?_
  cases h
  split
  · exact Blind.node _ <| .inOrder_cons (expression_blind true) <| .inOrder_cons (.leaf _) <|
      .inOrder_cons (expression_blind false) <| .inOrder_cons hend .nothing
  · exact Blind.node _ <| .inOrder_cons (expression_blind false) <| .inOrder_cons hend .nothing

/-! ## All rules -/

/-- Recovery needs that a statement keeps the token list. -/
theorem blockTurn_blind {statement : Parse Kind Trees} (hk : Parse.Keeps statement)
    (h : Blind form statement) :
    Parse.InStep form (Blind.SameTurn form) (blockTurn statement) (blockTurn statement) := by
  refine Parse.InStep.peekKind.bind fun kind _ hkind => ?_
  cases hkind
  split
  · exact .pure ⟨rfl, rfl⟩
  · exact (Blind.recovering statementSync hk h).bind fun _ _ htrees => .pure ⟨htrees, rfl⟩

/-- No rule looks at anything but the form of tokens. -/
theorem blind_inherited : Inherited (Blind form) where
  nothing := .nothing
  any := .any
  leafOr _ _ _ := .leafOr _ _
  failHere _ := .failHere _
  optional := .optional
  leavesWhile := .leavesWhile
  inOrder := .inOrder_cons
  byKind := .byKind
  node rule _ _ _ := .node rule
  within name _ := .within name
  counting := .counting
  second h := (Parse.InStep.lookahead 1).bind fun _ _ hsecond => form.kind_eq hsecond ▸ h _
  whileAt kind _ := .whileAt kind
  separated separator _ := .separated separator
  separatedUpTo closer separator _ := .separatedUpTo closer separator
  expression := expression_blind
  assignmentOrCall := assignmentOrCall_blind
  statements depth h :=
    .repeating (blockTurn_blind
      (statement_regular (blockWithin_regular depth) : Regular True _ _).keeps h)

theorem fileTurn_blind : Parse.InStep form (Blind.SameTurn form) fileTurn fileTurn := by
  have hagain {part : Parse Kind Trees} (h : Blind form part) :
      Parse.InStep form (Blind.SameTurn form) (do return (← part, some ()))
        (do return (← part, some ())) := h.bind fun _ _ htrees => .pure ⟨htrees, rfl⟩
  refine Parse.InStep.peekKind.bind fun kind _ h => ?_
  cases h
  split
  · exact Blind.any.bind fun _ _ htrees => .pure ⟨htrees, rfl⟩
  · split
    · exact hagain blind_inherited.directiveLine
    · split
      · exact hagain (.recovering _ (method_regular : Regular True _ _).keeps
          blind_inherited.method)
      · split
        · exact hagain (.recovering _ (vars_regular : Regular True _ _).keeps
            blind_inherited.vars)
        · exact hagain (.recovering _ (looseStatement_regular kind : Regular True _ _).keeps
            (blind_inherited.looseStatement kind))

/-- The rule of a whole module looks at nothing but the form of tokens. -/
theorem file_blind :
    Parse.InStep form (fun m n : Node Rule Kind => m.map form.of = n.map form.of) file file :=
  .within <| Blind.nodeOf _ <| .inOrder_cons (.repeating fileTurn_blind) .nothing

end BuiltInScript.Module
