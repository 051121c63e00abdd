import BuiltInScript.Module.Grammar
import BuiltInScript.Proofs.Parsing.Action
import BuiltInScript.Proofs.Parsing.Regular

/-!
# The grammar of modules is regular

Every rule of the module grammar is made of regular parts. Three rules are not written that way and
are shown to be: an expression is a run of tokens that is measured first, an assignment is told from
a call by looking ahead, and a block is a loop over statements, which hold blocks themselves.

**Results.**
* `expression_eq_scan`, `isAssignment_eq_look`, `blockTurn_eq_choosing`: the rules that are not
  written as regular parts.
* `statement_regular`: a statement is regular if the blocks in it are.
* `block_regular`, `method_regular`: so are blocks of any depth, and methods.
-/
namespace BuiltInScript.Module

open BuiltInScript.Part

/-! ## Expressions -/

/-- Length of the run that an expression is, and what is wrong with it. -/
def readExpression (upToAssign : Bool) (tokens : List (Token Kind)) :
    Nat × Option (Token Kind → Fault Kind) :=
  match expressionRun upToAssign [] none tokens with
  | (run, .mismatched innermost) =>
    (run.length, some fun found => .mismatchedBracket innermost.closer found innermost.opener)
  | (run, .stopped (innermost :: _)) =>
    (run.length, some fun found => .unclosedBracket innermost.closer found innermost.opener)
  | (run, .stopped []) =>
    (run.length, if run.isEmpty then some (.unexpected "expression") else none)

theorem expression_eq_scan (upToAssign : Bool) :
    expression upToAssign =
      Parse.within "expression" (scan .expression (readExpression upToAssign)) := by
  unfold expression
  congr 1
  funext p
  have htake := expressionRun_eq_take upToAssign [] none p.cursor.ahead
  rw [Parse.get_bind]
  simp only [scan, readExpression]
  generalize expressionRun upToAssign [] none p.cursor.ahead = result at htake ⊢
  rcases result with ⟨run, ⟨_ | ⟨innermost, outer⟩⟩ | innermost⟩
  · cases hr : run.isEmpty
    · simp only [← htake, hr, Parse.bind_apply, Parse.skip, Parse.pure_apply, Bool.false_eq_true,
        if_false]
    · simp only [hr, if_true]
      rfl
  · rfl
  · rfl

/-- An expression is a whole number of tokens that are there, and at least one. -/
theorem readExpression_bounds {upToAssign : Bool} {tokens : List (Token Kind)}
    (h : (readExpression upToAssign tokens).2 = none) :
    0 < (readExpression upToAssign tokens).1 ∧
      (readExpression upToAssign tokens).1 ≤ tokens.length := by
  have htake := congrArg List.length (expressionRun_eq_take upToAssign [] none tokens)
  rw [List.length_take] at htake
  unfold readExpression at h ⊢
  generalize expressionRun upToAssign [] none tokens = result at htake h ⊢
  rcases result with ⟨run, ⟨_ | ⟨innermost, outer⟩⟩ | innermost⟩
  · cases run with
    | nil => simp at h
    | cons t ts =>
      dsimp only at htake ⊢
      exact ⟨Nat.succ_pos _, by omega⟩
  · simp at h
  · simp at h

/-- What is wrong with an expression is told by the brackets that are open in it. -/
theorem readExpression_ignores {upToAssign : Bool} {tokens : List (Token Kind)}
    {fault : Token Kind → Fault Kind} (h : (readExpression upToAssign tokens).2 = some fault) :
    Fault.IgnoresChannels fault := by
  unfold readExpression at h
  split at h
  · cases h
    infer_instance
  · cases h
    infer_instance
  · dsimp only at h
    split at h <;> cases h
    infer_instance

variable {more : Prop}

theorem expression_regular (upToAssign : Bool) : Regular more true (expression upToAssign) := by
  rw [expression_eq_scan]
  exact .within (.scan (fun _ h => readExpression_bounds h) fun _ _ h => readExpression_ignores h)

theorem operand_regular : Regular more false operand := by
  refine .byKind fun kind => ?_
  split
  · exact .nothing
  · exact (expression_regular false).weaken

/-! ## Directives, annotations, variables and parameters -/

theorem directiveLine_regular (h : more) : Regular more true directiveLine :=
  .node <| .first (.any h) <| .andThen (.leavesWhile _) .nothing

theorem arguments_regular : Regular more false arguments := by
  refine .byKind fun kind => ?_
  split
  · rename_i hk
    refine .weaken <| .first (.any (by rw [hk]; decide)) ?_
    exact .andThen (.separatedUpTo (by decide) (expression_regular false)) <|
      .andThen (.leafOr (by decide)) .nothing
  · exact .nothing

theorem annotationEntry_regular : Regular more true annotationEntry := by
  refine .within <| .node <| .first (.leafOr (by decide)) ?_
  refine .andThen (?_ : Regular False true _) <| .andThen arguments_regular .nothing
  refine .byKind fun kind => ?_
  split
  · rename_i hk
    exact .any (by rintro rfl; exact absurd hk (by decide))
  · exact .failHere _

theorem annotations_regular : Regular more false annotations :=
  .whileAt (by decide) annotationEntry_regular

theorem statementEnd_regular : Regular more false statementEnd := by
  refine .byKind fun kind => ?_
  split
  · rename_i hk
    exact .weaken (.any (by rw [hk]; decide))
  · split
    · exact .nothing
    · exact .failHere _

theorem vars_regular : Regular more true vars := by
  refine .within <| .node <| .first (.leafOr (by decide)) ?_
  have hvar : Regular False true
      (node .var [leaf .identifier, optional .kwExport] : Parse Kind Trees) :=
    .node <| .first (.leafOr (by decide)) <| .andThen (.optional (by decide)) .nothing
  exact .andThen (.separated (by decide) hvar) <| .andThen statementEnd_regular .nothing

theorem defaultValue_regular : Regular more false defaultValue := by
  refine .byKind fun kind => ?_
  split
  · rename_i hk
    exact .weaken <| .first (.any (by rw [hk]; decide)) <|
      .andThen (expression_regular false) .nothing
  · exact .nothing

theorem param_regular : Regular more true param :=
  .node <| .perhaps annotations_regular <| .perhaps (.optional (by decide)) <|
    .first (.leafOr (by decide)) <| .andThen defaultValue_regular .nothing

theorem params_regular : Regular more true params :=
  .within <| .node <| .first (.leafOr (by decide)) <|
    .andThen (.separatedUpTo (by decide) param_regular) <|
    .andThen (.leafOr (by decide)) .nothing

/-! ## Statements -/

section
variable {block : Parse Kind Trees}

theorem label_regular : Regular more true label :=
  .node <| .first (.leafOr (by decide)) <| .andThen (.leafOr (by decide)) <|
    .andThen (.leafOr (by decide)) .nothing

theorem elseIfBranch_regular (hb : Regular False false block) (h : more) :
    Regular more true (elseIfBranch block) :=
  .node <| .first (.any h) <| .andThen (expression_regular false) <|
    .andThen (.leafOr (by decide)) <| .andThen hb .nothing

theorem elseBranch_regular (hb : Regular False false block) :
    Regular more false (elseBranch block) := by
  refine .byKind fun kind => ?_
  split
  · rename_i hk
    exact .weaken <| .node <| .first (.any (by rw [hk]; decide)) <| .andThen hb .nothing
  · exact .nothing

theorem ifStatement_regular (hb : Regular False false block) :
    Regular more true (ifStatement block) :=
  .node <| .first (.leafOr (by decide)) <| .andThen (expression_regular false) <|
    .andThen (.leafOr (by decide)) <| .andThen hb <|
    .andThen (.whileAt (by decide) (elseIfBranch_regular hb trivial)) <|
    .andThen (elseBranch_regular hb) <| .andThen (.leafOr (by decide)) <|
    .andThen statementEnd_regular .nothing

theorem loopBody_regular (hb : Regular False false block) :
    Regular more true (loopBody block) :=
  .first (.leafOr (by decide)) <| .andThen hb <| .andThen (.leafOr (by decide)) <|
    .andThen statementEnd_regular .nothing

theorem whileLoop_regular (hb : Regular False false block) :
    Regular more true (whileLoop block) :=
  .node <| .first (.leafOr (by decide)) <| .andThen (expression_regular false) <|
    .andThen (loopBody_regular hb) .nothing

theorem forLoop_regular (hb : Regular False false block) : Regular more true (forLoop block) :=
  .node <| .first (.leafOr (by decide)) <| .andThen (.leafOr (by decide)) <|
    .andThen (.leafOr (by decide)) <| .andThen (expression_regular false) <|
    .andThen (.leafOr (by decide)) <| .andThen (expression_regular false) <|
    .andThen (loopBody_regular hb) .nothing

theorem forEachLoop_regular (hb : Regular False false block) :
    Regular more true (forEachLoop block) :=
  .node <| .first (.leafOr (by decide)) <| .andThen (.leafOr (by decide)) <|
    .andThen (.leafOr (by decide)) <| .andThen (.leafOr (by decide)) <|
    .andThen (expression_regular false) <| .andThen (loopBody_regular hb) .nothing

/-- One token is within every bound on looking ahead. -/
theorem anyForLoop_regular (hb : Regular False false block) :
    Regular more true (anyForLoop block) := by
  have hlook : (Parse.lookahead 1 : Parse Kind (Token Kind)) =
      Parse.look fun _ tokens marker => some (tokens.getD 1 marker) := by
    funext p
    cases hm : p.report.mode <;>
      simp [Parse.lookahead, Parse.lookaheadCharged, Parse.look, hm, Prediction.lookaheadBound,
        Cursor.peekNth]
  unfold anyForLoop
  rw [hlook]
  refine .looking (fun _ _ _ h => h) (fun second => ?_) fun _ tokens _ _ => ?_
  · split
    · exact forEachLoop_regular hb
    · exact forLoop_regular hb
  · rw [List.getD_eq_getElem?_getD, List.getD_eq_getElem?_getD]
    cases tokens[1]? <;> rfl

theorem tryStatement_regular (hb : Regular False false block) :
    Regular more true (tryStatement block) := by
  have hexcept : Regular False true
      (node .exceptBranch [leaf .kwExcept, block] : Parse Kind Trees) :=
    .node <| .first (.leafOr (by decide)) <| .andThen hb .nothing
  exact .node <| .first (.leafOr (by decide)) <| .andThen hb <| .andThen hexcept <|
    .andThen (.leafOr (by decide)) <| .andThen statementEnd_regular .nothing

theorem bareStatement_regular (rule : Rule) (h : more) : Regular more true (bareStatement rule) :=
  .node <| .first (.any h) <| .andThen statementEnd_regular .nothing

theorem operandStatement_regular (rule : Rule) (h : more) :
    Regular more true (operandStatement rule) :=
  .node <| .first (.any h) <| .andThen operand_regular <| .andThen statementEnd_regular .nothing

theorem executeStatement_regular : Regular more true executeStatement :=
  .node <| .first (.leafOr (by decide)) <| .andThen (expression_regular false) <|
    .andThen statementEnd_regular .nothing

theorem gotoStatement_regular : Regular more true gotoStatement :=
  .node <| .first (.leafOr (by decide)) <| .andThen (.leafOr (by decide)) <|
    .andThen (.leafOr (by decide)) <| .andThen statementEnd_regular .nothing

theorem handlerStatement_regular (rule : Rule) (h : more) :
    Regular more true (handlerStatement rule) :=
  .node <| .first (.any h) <| .andThen (expression_regular false) <|
    .andThen (.leafOr (by decide)) <| .andThen (expression_regular false) <|
    .andThen statementEnd_regular .nothing

/-! ## Assignments and calls -/

/-- What `isAssignment` sees. -/
def viewAssignment (mode : Prediction) (tokens : List (Token Kind)) (_ : Token Kind) :
    Option Bool :=
  match statementSort mode.lookaheadBound 0 0 tokens with
  | .assignment => some true
  | .call => some false
  | .beyondBound => none

/-- What can be told of a statement within a bound is the same without one. -/
theorem statementSort_none {bound : Option Nat} {depth charged : Nat} {tokens : List (Token Kind)}
    (h : statementSort bound depth charged tokens ≠ .beyondBound) :
    statementSort none depth charged tokens = statementSort bound depth charged tokens := by
  induction tokens generalizing depth charged with
  | nil =>
    unfold statementSort at h ⊢
    dsimp only at h ⊢
    generalize (if depth = 0 then charged + 1 else charged) = charged at h ⊢
    cases hb : bound.any (· ≤ charged)
    · rfl
    · simp [hb] at h
  | cons t ts ih =>
    unfold statementSort at h ⊢
    dsimp only at h ⊢
    generalize (if depth = 0 then charged + 1 else charged) = charged at h ⊢
    cases hb : bound.any (· ≤ charged)
    · simp only [hb, Option.any_none, Bool.false_eq_true, if_false] at h ⊢
      split
      · exact ih (by simpa [*] using h)
      · split
        · exact ih (by simpa [*] using h)
        · split
          · rfl
          · split
            · rfl
            · exact ih (by simpa [*] using h)
    · simp [hb] at h

theorem isAssignment_eq_look : isAssignment = Parse.look viewAssignment := by
  funext p
  unfold isAssignment Parse.look viewAssignment
  cases statementSort p.report.mode.lookaheadBound 0 0 p.cursor.ahead <;> rfl

theorem viewAssignment_of_optimistic {tokens : List (Token Kind)} {marker : Token Kind}
    {answer : Bool} (h : viewAssignment .optimistic tokens marker = some answer) :
    viewAssignment .general tokens marker = some answer := by
  have hsort : statementSort (Prediction.optimistic).lookaheadBound 0 0 tokens ≠ .beyondBound := by
    intro hs
    simp [viewAssignment, hs] at h
  unfold viewAssignment at h ⊢
  rw [show Prediction.general.lookaheadBound = none from rfl, statementSort_none hsort]
  exact h

/-- Without a bound an assignment is always told from a call. -/
theorem statementSort_unbounded (depth charged : Nat) (tokens : List (Token Kind)) :
    statementSort none depth charged tokens ≠ .beyondBound := by
  induction tokens generalizing depth charged with
  | nil => nofun
  | cons t ts ih =>
    simp only [statementSort, Option.any_none, Bool.false_eq_true, if_false]
    generalize (if depth = 0 then charged + 1 else charged) = charged
    split
    · exact ih _ _
    · split
      · exact ih _ _
      · split
        · nofun
        · split
          · nofun
          · exact ih _ _

theorem viewAssignment_general (tokens : List (Token Kind)) (marker : Token Kind) :
    viewAssignment .general tokens marker ≠ none := by
  have hnone : Prediction.general.lookaheadBound = none := rfl
  unfold viewAssignment
  rw [hnone]
  split
  · nofun
  · nofun
  · rename_i hbeyond
    exact absurd hbeyond (statementSort_unbounded 0 0 tokens)

theorem assignmentOrCall_regular : Regular more true assignmentOrCall := by
  unfold assignmentOrCall
  rw [isAssignment_eq_look]
  refine .looking (fun _ _ _ => viewAssignment_of_optimistic) (fun answer => ?_) fun _ _ _ _ => rfl
  split
  · exact .node <| .first (expression_regular true) <| .andThen (.leafOr (by decide)) <|
      .andThen (expression_regular false) <| .andThen statementEnd_regular .nothing
  · exact .node <| .first (expression_regular false) <| .andThen statementEnd_regular .nothing

/-! ## Blocks, methods and modules -/

theorem statement_regular (hb : Regular False false block) :
    Regular more true (statement block) := by
  refine .within <| .byKind fun kind => ?_
  split
  · exact .node <| .first (.any (by decide)) .nothing
  · exact directiveLine_regular (by decide)
  · exact label_regular
  · exact vars_regular
  · exact ifStatement_regular hb
  · exact whileLoop_regular hb
  · exact anyForLoop_regular hb
  · exact tryStatement_regular hb
  · exact operandStatement_regular _ (by decide)
  · exact operandStatement_regular _ (by decide)
  · exact bareStatement_regular _ (by decide)
  · exact bareStatement_regular _ (by decide)
  · exact executeStatement_regular
  · exact gotoStatement_regular
  · exact handlerStatement_regular _ (by decide)
  · exact handlerStatement_regular _ (by decide)
  · exact assignmentOrCall_regular

end

/-- The turns of a block, as choices. -/
def chooseStatement (statement : Parse Kind Trees) (_ : Unit) (token : Token Kind) (_ : Kind) :
    Turn Rule Kind Unit :=
  if token.kind = .endOfInput || isBlockCloser token.kind then .stop
  else .again (recovering statementSync statement) ()

theorem blockTurn_eq_choosing (statement : Parse Kind Trees) :
    (fun _ => blockTurn statement) = Turn.choosing (chooseStatement statement) := by
  funext state p
  unfold blockTurn Turn.choosing chooseStatement
  rw [Parse.bind_apply]
  dsimp only [Parse.peekKind]
  split <;> rfl

theorem blockWithin_regular (depth : Nat) : Regular more false (blockWithin depth) := by
  induction depth generalizing more with
  | zero => exact .within <| .node .nothing
  | succ depth ih =>
    refine .within <| .node <| .perhaps ?_ .nothing
    rw [blockTurn_eq_choosing]
    unfold chooseStatement
    refine .repeating ?_ ?_ ?_ fun _ _ _ _ _ => rfl
    · intro state token after part h
      split at h <;> cases h
    · intro state token after part state' h he
      rw [he] at h
      cases h
    · intro state token after part state' h
      split at h <;> cases h
      exact .recovering _ trivial (statement_regular ih)

theorem block_regular : Regular more false block := .counting blockWithin_regular

theorem methodRest_regular {closer : Kind} (hc : closer ≠ .endOfInput) (h : more) :
    Regular more true (methodRest closer) :=
  .first (.any h) <| .andThen (.leafOr (by decide)) <| .andThen params_regular <|
    .andThen (.optional (by decide)) <| .andThen block_regular <| .andThen (.leafOr hc) .nothing

theorem method_regular : Regular more true method := by
  refine .within <| .node <| .perhaps annotations_regular <| .perhaps (.optional (by decide)) ?_
  refine .first (.byKind fun kind => ?_) .nothing
  split
  · exact methodRest_regular (by decide) (by decide)
  · exact methodRest_regular (by decide) (by decide)
  · exact .failHere _

theorem looseStatement_regular (kind : Kind) : Regular more true (looseStatement kind) := by
  unfold looseStatement
  split
  · exact .failHere _
  · exact .counting fun n => statement_regular (blockWithin_regular n)

end BuiltInScript.Module
