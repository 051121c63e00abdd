import BuiltInScript.Proofs.Languages
import BuiltInScript.Proofs.Module.Inheritance
import BuiltInScript.Proofs.Module.Runs
import BuiltInScript.Proofs.Parsing.Foretelling

/-!
# When a module is parsed a second time

The first phase of a parse gives up at the first fault, and where an assignment could be told from a
call only by looking too far ahead. Both can be seen in the tree that general prediction makes: how
far it was looked is the number of tokens that are outside brackets before the `=` of an assignment,
or in the expression of a call.

**Results.**
* `assignment_fits_iff`, `call_fits_iff`: a statement was told within the bound just if its node has
  few tokens outside brackets.
* `file_foretells`: general prediction tells when optimistic prediction succeeds.
* `stays_optimistic_iff`: a parse in two phases stays in the first one just if there are no
  errors, and no statement is that long.
-/
namespace BuiltInScript.Module

open BuiltInScript.Part
open BuiltInScript.Parse (Foretells)

/-- The expressions among the children of a node. -/
def expressionsOf (node : Node Rule Kind) : List (Node Rule Kind) :=
  node.childNodes.filter fun child => child.rule = .expression

/-- An assignment or a call that is told from the other by few tokens. A group in brackets counts as
one token. -/
def SoonTold (node : Node Rule Kind) : Prop :=
  match node.rule with
  | .assignment =>
    ((outside 0 (Tree.leavesOf node.children)).takeWhile fun t => t.kind ≠ .assign).length ≤ 62
  | .call => ∀ child ∈ expressionsOf node, (outside 0 (Tree.leavesOf child.children)).length ≤ 62
  | _ => True

theorem soonTold_of_rule {rule : Rule} (hassignment : rule ≠ .assignment) (hcall : rule ≠ .call)
    (children : Trees) : SoonTold { rule, children } := by
  unfold SoonTold
  split
  · exact absurd ‹_› hassignment
  · exact absurd ‹_› hcall
  · trivial

theorem nodesFit_expression (run : List (Token Kind)) :
    NodesFit SoonTold [.node .expression (run.map .token) {}] :=
  (NodesFit.node_iff _ _).2 ⟨soonTold_of_rule (by decide) (by decide) _, .tokens run⟩

/-! ## Assignments and calls -/

/-- The end of a statement is a `;`, or it stands where no token can be part of an expression. -/
theorem statementEnd_eq_ok {p q : Parser Kind} {trees : Trees} (hv : p.cursor.Valid)
    (h : statementEnd p = .ok trees q) :
    (∃ tokens : List (Token Kind), trees = tokens.map .token) ∧
      ∀ t ∈ p.cursor.ahead.head?, endsExpression t.kind = true := by
  unfold statementEnd byKind at h
  dsimp only at h
  split at h
  · rename_i hsemicolon
    cases h
    refine ⟨⟨[p.cursor.peek], rfl⟩, fun t ht => ?_⟩
    rw [← hv.peek_of_head? ht, hsemicolon]
    rfl
  · split at h
    · rename_i hcloses
      cases h
      refine ⟨⟨[], rfl⟩, fun t ht => ?_⟩
      rw [← hv.peek_of_head? ht]
      simp only [Bool.or_eq_true, decide_eq_true_eq] at hcloses
      rcases hcloses with hend | hcloser
      · rw [hend]
        rfl
      · simp only [endsExpression, hcloser, Bool.true_or]
    · cases h

/-- An expression up to the end of the statement. -/
theorem expression_statementEnd_eq_ok {p q : Parser Kind} {trees : Trees} (hv : p.cursor.Valid)
    (h : inOrder [expression false, statementEnd] p = .ok trees q) :
    ∃ (run ending after : List (Token Kind)), Run false [] run ∧
      trees = .node .expression (run.map .token) {} :: ending.map .token ∧
      p.cursor.ahead = run ++ after ∧ ∀ t ∈ after.head?, endsExpression t.kind = true := by
  obtain ⟨first, p', others, hfirst, hothers, rfl⟩ := inOrder_cons_eq_ok h
  obtain ⟨last, p'', others, hlast, hnil, rfl⟩ := inOrder_cons_eq_ok hothers
  cases hnil
  obtain ⟨run, -, hrun, rfl, hpasses⟩ := expression_eq_ok hfirst
  obtain ⟨⟨ending, rfl⟩, hends⟩ := statementEnd_eq_ok (hpasses.valid hv) hlast
  exact ⟨run, ending, _, hrun, by simp, hpasses.ahead_eq hv, hends⟩

/-- An assignment was told within the bound just if it has few tokens before its `=`. -/
theorem assignment_fits_iff {p q : Parser Kind} {trees : Trees} (hv : p.cursor.Valid)
    (h : node .assignment [expression true, leaf .assign, expression false, statementEnd] p =
      .ok trees q) :
    NodesFit SoonTold trees ↔ statementSort (some 64) 0 0 p.cursor.ahead ≠ .beyondBound := by
  obtain ⟨children, hchildren, rfl⟩ := node_eq_ok h
  obtain ⟨left, p₁, others, hleft, hothers, rfl⟩ := inOrder_cons_eq_ok hchildren
  obtain ⟨sign, p₂, rest, hsign, hrest, rfl⟩ := inOrder_cons_eq_ok hothers
  obtain ⟨run, -, hrun, rfl, hpasses⟩ := expression_eq_ok hleft
  obtain ⟨hassign, rfl, rfl⟩ := leafOr_eq_ok hsign
  have hv₁ := hpasses.valid hv
  have hne : p₁.cursor.ahead ≠ [] := mt hv₁.peek_kind_eq_end_iff.2 (by rw [hassign]; decide)
  have hahead : p.cursor.ahead = run ++ p₁.cursor.peek :: p₁.cursor.advance.ahead := by
    rw [hpasses.ahead_eq hv, (Cursor.Passes.advance hv₁ hne).ahead_eq hv₁]
    rfl
  obtain ⟨right, ending, -, -, rfl, -, -⟩ := expression_statementEnd_eq_ok hv₁.advance hrest
  have hfits : NodesFit SoonTold ([.node .expression (run.map .token) {}] ++
      ([.token p₁.cursor.peek] ++ .node .expression (right.map .token) {} :: ending.map .token)) :=
    (NodesFit.append_iff _ _).2 ⟨nodesFit_expression run, (NodesFit.append_iff _ _).2
      ⟨.token _, (NodesFit.append_iff _ _).2 ⟨nodesFit_expression right, .tokens ending⟩⟩⟩
  rw [NodesFit.node_iff, and_iff_left hfits, hahead]
  -- The first `=` outside brackets is the one after the run, which has none.
  have hbefore : (outside 0 (run ++ p₁.cursor.peek :: (right ++ ending))).takeWhile
      (fun t => t.kind ≠ .assign) = outside 0 run := by
    have houtside : outside 0 (run ++ p₁.cursor.peek :: (right ++ ending)) =
        outside 0 run ++ outside 0 (p₁.cursor.peek :: (right ++ ending)) := hrun.outside_append _
    rw [houtside, List.takeWhile_append_of_pos (by simpa using hrun.ne_assign)]
    simp [outside, hassign]
  have hleaves : Tree.leavesOf ([.node .expression (run.map .token) {}] ++
      ([.token p₁.cursor.peek] ++ .node .expression (right.map .token) {} :: ending.map .token) :
        Trees) = run ++ p₁.cursor.peek :: (right ++ ending) := by
    simp [Tree.leavesOf, Tree.leaves]
  rw [SoonTold, hleaves, hbefore, hrun.ne_beyondBound_iff hrun.ne_assign (by decide) (by decide)
    fun charged => statementSort_of_assign hassign _]
  omega

/-- A call was told within the bound just if its expression has few tokens. -/
theorem call_fits_iff {p q : Parser Kind} {trees : Trees} (hv : p.cursor.Valid)
    (hsort : statementSort none 0 0 p.cursor.ahead = .call)
    (h : node .call [expression false, statementEnd] p = .ok trees q) :
    NodesFit SoonTold trees ↔ statementSort (some 64) 0 0 p.cursor.ahead ≠ .beyondBound := by
  obtain ⟨children, hchildren, rfl⟩ := node_eq_ok h
  obtain ⟨run, ending, after, hrun, rfl, hahead, hends⟩ :=
    expression_statementEnd_eq_ok hv hchildren
  have hfits : NodesFit SoonTold (.node .expression (run.map .token) {} :: ending.map .token) :=
    (NodesFit.append_iff _ _).2 ⟨nodesFit_expression run, .tokens ending⟩
  rw [NodesFit.node_iff, and_iff_left hfits]
  rw [hahead] at hsort ⊢
  -- Such a run may go past a `=`, but then the statement would not have been taken for a call.
  have hassign : ∀ t ∈ outside 0 run, t.kind ≠ .assign :=
    hrun.ne_assign_of_statementSort (by rw [List.length_nil, hsort]; nofun)
  have hexpressions : expressionsOf
      { rule := .call, children := .node .expression (run.map .token) {} :: ending.map .token } =
      [{ rule := .expression, children := run.map .token }] := by
    simp [expressionsOf, Node.childNodes, Tree.node?, List.filterMap_map, Function.comp_def]
  rw [SoonTold, hexpressions, List.forall_mem_singleton, Tree.leavesOf_map_token,
    hrun.ne_beyondBound_iff hassign (by decide) (by decide)
      fun charged => statementSort_of_ends hends]
  omega

theorem statementEnd_foretells {fits : Node Rule Kind → Prop} :
    Foretells (NodesFit fits) statementEnd := by
  refine foretells_byKind fun kind => ?_
  split
  · exact foretells_any
  · split
    · exact foretells_nothing
    · exact .failHere _

theorem expression_foretells {fits : Node Rule Kind → Prop}
    (h : ∀ children, fits { rule := .expression, children }) (upToAssign : Bool) :
    Foretells (NodesFit fits) (expression upToAssign) := by
  rw [expression_eq_scan]
  exact .within (foretells_scan h _)

theorem isSome_viewAssignment {tokens : List (Token Kind)} {marker : Token Kind} :
    (viewAssignment .optimistic tokens marker).isSome ↔
      statementSort (some 64) 0 0 tokens ≠ .beyondBound := by
  unfold viewAssignment
  rw [show Prediction.optimistic.lookaheadBound = some 64 from rfl]
  cases statementSort (some 64) 0 0 tokens <;> simp

/-- The two statements that are told apart by looking ahead. -/
theorem assignmentOrCall_foretells : Foretells (NodesFit SoonTold) assignmentOrCall := by
  have hwell {part : Parse Kind Trees} (h : Foretells (NodesFit fun _ => True) part) :
      Foretells (fun _ => True) part :=
    h.congr fun _ => iff_of_true (fun _ _ => trivial) trivial
  unfold assignmentOrCall
  rw [isAssignment_eq_look]
  refine .looking (fun _ _ _ => viewAssignment_of_optimistic) viewAssignment_general
    (fun assigns => ?_) fun p assigns trees q hp hview hr => ?_
  · have hexpression (upToAssign : Bool) :
        Foretells (NodesFit fun _ => True) (expression upToAssign) :=
      expression_foretells (fun _ => trivial) upToAssign
    split
    · exact hwell <| foretells_node (fun _ => trivial) <| foretells_inOrder (hexpression true) <|
        foretells_inOrder (foretells_leafOr _ _) <| foretells_inOrder (hexpression false) <|
        foretells_inOrder statementEnd_foretells foretells_nothing
    · exact hwell <| foretells_node (fun _ => trivial) <| foretells_inOrder (hexpression false) <|
        foretells_inOrder statementEnd_foretells foretells_nothing
  · rw [isSome_viewAssignment]
    cases assigns with
    | true => exact assignment_fits_iff hp.valid hr
    | false =>
      refine call_fits_iff hp.valid ?_ hr
      unfold viewAssignment at hview
      rw [show Prediction.general.lookaheadBound = none from rfl] at hview
      split at hview
      · cases hview
      · assumption
      · cases hview

/-! ## All rules -/

theorem soonTold_inherited : Inherited (Foretells (NodesFit SoonTold)) where
  nothing := foretells_nothing
  any := foretells_any
  leafOr _ _ _ := foretells_leafOr _ _
  failHere _ := .failHere _
  optional := foretells_optional
  leavesWhile := foretells_leavesWhile
  inOrder := foretells_inOrder
  byKind := foretells_byKind
  node _ _ hassignment hcall := foretells_node (soonTold_of_rule hassignment hcall)
  within _ _ := .within
  counting := foretells_counting
  second h := (Foretells.lookahead (by decide)).after fun _ => h _
  whileAt _ _ := foretells_whileAt _
  separated _ _ := foretells_separated _
  separatedUpTo _ _ _ := foretells_separatedUpTo _ _
  expression := expression_foretells (soonTold_of_rule (by decide) (by decide))
  assignmentOrCall _ := assignmentOrCall_foretells
  statements depth h := by
    refine foretells_repeating (fun _ => Foretells.peekKind.after fun kind => ?_) ()
    split
    · exact .pure .nil
    · exact (foretells_recovering _ h).map fun _ => Iff.rfl

/-- General prediction of a module tells whether optimistic prediction succeeds. -/
theorem file_foretells :
    Foretells (fun n : Node Rule Kind => NodesFit SoonTold [n.toTree]) file := by
  rw [file_eq_whole]
  refine foretells_whole (fun kind => ?_) _ (soonTold_of_rule (by decide) (by decide))
  unfold fileItem
  split
  · exact soonTold_inherited.directiveLine
  · split
    · exact foretells_recovering _ soonTold_inherited.method
    · split
      · exact foretells_recovering _ soonTold_inherited.vars
      · exact foretells_recovering _ (soonTold_inherited.looseStatement kind)

/-- **The second phase is needed just then.** For every token list, a parse in two phases stays in
the first one just if the general parse reports no errors, and in its tree every assignment has at
most 62 tokens outside brackets before its `=`, and every call at most 62 in its expression. -/
theorem stays_optimistic_iff (report report' : Report) (tokens : List (Token Kind)) :
    (moduleLanguage.parse report tokens).1.mode = .optimistic ↔
      (moduleLanguage.parseGeneral report' (.onCode tokens)).1.errorCount = 0 ∧
        ∀ node ∈ (moduleLanguage.parseGeneral report' (.onCode tokens)).1.tree.toTree.nodes,
          SoonTold node :=
  Language.mode_eq_optimistic_iff fileItems file_eq_whole file_foretells report report' tokens

/-- One token too many before a `=` is no error, but takes a second phase. -/
example :
    let parse (n : Nat) := (moduleLanguage.parse {}
      (List.replicate n ⟨.plus, .codeOnly, "+", {}, 0, {}⟩ ++
        [⟨.assign, .codeOnly, "=", {}, 0, {}⟩, ⟨.number, .codeOnly, "1", {}, 0, {}⟩])).1
    (parse 62).mode = .optimistic ∧ (parse 63).mode = .general ∧ (parse 63).errorCount = 0 := by
  decide +kernel

end BuiltInScript.Module
