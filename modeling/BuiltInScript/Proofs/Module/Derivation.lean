import BuiltInScript.Proofs.Languages
import BuiltInScript.Proofs.Module.Making
import BuiltInScript.Proofs.Module.Runs
import BuiltInScript.Proofs.Parsing.Inside

/-!
# Every tree is a derivation

Whatever the token list is, and however the parser predicts, the tree of a module is one that the
grammar derives: recovery leaves no node half made, and no closer closes another node than its own.

**Results.**
* `expression_makes`: an expression is a run of tokens with matched brackets.
* `statement_makes`, `blockWithin_makes`: statements keep to the grammar if the blocks in them do,
  and so do blocks of any depth.
* `file_derivation`: the tree of a whole module is a derivation.
* `findAll_directive`: the trees of code without a `#` have no directives.
-/
namespace BuiltInScript.Module

open BuiltInScript.Part
open BuiltInScript.Parse (bind_eq_ok)

variable {start : Kind → Prop}

/-! ## Expressions -/

/-- The brackets of a run match. -/
theorem Run.matched {upToAssign : Bool} {opened : List OpenBracket} {run : List (Token Kind)}
    (h : Run upToAssign opened run) :
    bracketsMatch (opened.map OpenBracket.closer) (run.map Token.kind) = true := by
  induction h with
  | done => rfl
  | opens hcloser _ ih => simpa [bracketsMatch, hcloser] using ih
  | closes hclosing _ ih =>
    simpa [bracketsMatch, closer?_eq_none_of_isClosingBracket hclosing, hclosing] using ih
  | plain hcloser hclosing _ _ _ ih => simpa [bracketsMatch, hcloser, hclosing] using ih

/-- The node of a run. -/
theorem derives_expression {upToAssign : Bool} {run : List (Token Kind)}
    (h : Run upToAssign [] run) (hne : run ≠ []) (after : List (Token Kind)) :
    Derives { rule := .expression, children := run.map .token } after := by
  have hsymbols (tokens : List (Token Kind)) :
      (tokens.map (Tree.token : _ → Tree Rule Kind)).map symbol =
        (tokens.map Token.kind).map .leaf := by simp [symbol]
  refine ⟨?_, fun _ => ⟨_, hsymbols _, h.matched⟩, fun u hu => by simp at hu, fun he => ?_⟩
  · have hall := h.endsExpression_eq_false
    obtain ⟨t, run, rfl⟩ := List.exists_cons_of_ne_nil hne
    have hfirst : [Symbol.leaf t.kind] ∈
        (Production.leafThat fun kind => !endsExpression kind).matches' :=
      mem_leafThat (by simpa using hall t (by simp))
    have hrest : (run.map Token.kind).map Symbol.leaf ∈
        (Production.leafThat fun kind => !endsExpression kind).star.matches' := by
      refine mem_star_oneOf fun s hs => ?_
      simp only [List.map_map, List.mem_map, Function.comp] at hs
      obtain ⟨u, hu, rfl⟩ := hs
      refine List.mem_map_of_mem (List.mem_filter.2 ⟨u.kind.mem_all, ?_⟩)
      simpa using hall u (by simp [hu])
    rw [hsymbols]
    exact Language.append_mem_mul hfirst hrest
  · cases he

theorem expression_makes (upToAssign : Bool) :
    Makes start (.node .expression) (expression upToAssign) := by
  intro p q trees hv _ hr
  obtain ⟨run, hne, hrun, rfl, hpasses⟩ := expression_eq_ok hr
  refine ⟨hpasses.valid hv, Made.node (P := (production .expression)) ⟨?_, ?_, ?_⟩
    (derives_expression hrun hne _)⟩
  · rw [Tree.leavesOf_map_token]
    exact hpasses.upcoming_eq hv
  · exact (derives_expression hrun hne []).production
  · rw [Tree.occurrencesOf_eq_nil _ (by simp [Tree.node?])]
    simp

theorem operand_makes : Makes start (.optional (.node .expression)) operand := by
  refine .byKind fun kind _ => ?_
  split
  · exact .absent
  · exact (expression_makes false).present

/-! ## Directives, annotations, variables and parameters -/

theorem directiveLine_makes : Makes (· = .hash) (.node .directive) directiveLine :=
  .node (.inOrder_cons (.any (by decide)) <| .inOrder_cons .leavesWhile .inOrder_nil) (by decide)
    nofun

theorem arguments_makes :
    Makes start
      (.optional (.inOrder [.leaf .leftParen, .separatedUpTo (.node .expression),
        .leaf .rightParen])) arguments :=
  .onlyAt <| .inOrder_cons (.any (by decide)) <|
    .inOrder_cons (.separatedUpTo (expression_makes false)) <|
    .inOrder_cons (.leaf (by decide)) .inOrder_nil

theorem annotationEntry_makes : Makes start (.node .annotationEntry) annotationEntry := by
  refine .within <| .node (.inOrder_cons (.leaf (by decide)) <| .inOrder_cons ?_ <|
    .inOrder_cons arguments_makes .inOrder_nil) (by decide) nofun
  refine .byKind fun kind _ => ?_
  split
  · rename_i hname
    refine (Makes.any (by rintro rfl; exact absurd hname (by decide))).mono fun word hword => ?_
    obtain rfl : word = [.leaf kind] := hword
    exact mem_leafThat hname
  · exact .failHere _

theorem annotations_makes : Makes start (Production.node .annotationEntry).star annotations :=
  .whileAt annotationEntry_makes annotationEntry_regular.reads (by decide)

theorem statementEnd_makes : Makes start .ending statementEnd := by
  refine .byKind fun kind _ => ?_
  split
  · rename_i hk
    subst hk
    exact (Makes.any (by decide)).present
  · split
    · exact .absent
    · exact .failHere _

theorem statementEnd_ends : Ends statementEnd := by
  intro p q trees hr
  unfold statementEnd byKind at hr
  dsimp only at hr
  split at hr
  · rename_i hk
    cases hr
    exact .inl (congrArg (fun kind => some (Symbol.leaf kind)) hk)
  · split at hr
    · rename_i hends
      cases hr
      exact .inr hends
    · cases hr

/-- The end of every statement but the simplest. -/
theorem ending_makes : Makes start (.inOrder [.ending]) (inOrder [statementEnd]) :=
  .inOrder_cons statementEnd_makes .inOrder_nil

theorem ending_ends : Ends (inOrder [statementEnd]) := statementEnd_ends.last

theorem vars_makes : Makes start (.node .vars) vars := by
  have hvar : Makes (fun _ => True) (.node .var)
      (node .var [leaf .identifier, optional .kwExport]) :=
    .node (.inOrder_cons (.leaf (by decide)) <| .inOrder_cons (.optional (by decide)) .inOrder_nil)
      (by decide) nofun
  exact .within <| .node (.inOrder_cons (.leaf (by decide)) <| .inOrder_cons (.separated hvar)
    ending_makes) (by decide) fun _ => ending_ends.after.after

theorem defaultValue_makes :
    Makes start (.optional (.inOrder [.leaf .assign, .node .expression])) defaultValue :=
  .onlyAt <| .inOrder_cons (.any (by decide)) <|
    .inOrder_cons (expression_makes false) .inOrder_nil

theorem param_makes : Makes start (.node .param) param :=
  .node (.inOrder_cons annotations_makes <| .inOrder_cons (.optional (by decide)) <|
    .inOrder_cons (.leaf (by decide)) <| .inOrder_cons defaultValue_makes .inOrder_nil)
    (by decide) nofun

theorem params_makes : Makes start (.node .params) params :=
  .within <| .node (.inOrder_cons (.leaf (by decide)) <|
    .inOrder_cons (.separatedUpTo param_makes) <|
    .inOrder_cons (.leaf (by decide)) .inOrder_nil) (by decide) nofun

/-! ## Statements -/

theorem label_makes : Makes start (.node .label) label :=
  .node (.inOrder_cons (.leaf (by decide)) <| .inOrder_cons (.leaf (by decide)) <|
    .inOrder_cons (.leaf (by decide)) .inOrder_nil) (by decide) nofun

section
variable {block : Parse Kind Trees}

theorem elseIfBranch_makes (hb : Makes (fun _ => True) (.node .block) block) :
    Makes (· = .kwElsIf) (.node .elseIfBranch) (elseIfBranch block) :=
  .node (.inOrder_cons (.any (by decide)) <| .inOrder_cons (expression_makes false) <|
    .inOrder_cons (.leaf (by decide)) <| .inOrder_cons hb .inOrder_nil) (by decide) nofun

theorem elseBranch_makes (hb : Makes (fun _ => True) (.node .block) block) :
    Makes start (.optional (.node .elseBranch)) (elseBranch block) :=
  .onlyAt <| .node (.inOrder_cons (.any (by decide)) <| .inOrder_cons hb .inOrder_nil)
    (by decide) nofun

theorem ifStatement_makes (hb : Makes (fun _ => True) (.node .block) block)
    (hregular : Regular False false block) :
    Makes start (.node .ifStatement) (ifStatement block) :=
  .node (.inOrder_cons (.leaf (by decide)) <| .inOrder_cons (expression_makes false) <|
    .inOrder_cons (.leaf (by decide)) <| .inOrder_cons hb <|
    .inOrder_cons (.whileAt (elseIfBranch_makes hb)
      (elseIfBranch_regular hregular (by decide)).reads (by decide)) <|
    .inOrder_cons (elseBranch_makes hb) <| .inOrder_cons (.leaf (by decide)) ending_makes)
    (by decide) fun _ => ending_ends.after.after.after.after.after.after.after

theorem loopBody_makes (hb : Makes (fun _ => True) (.node .block) block) :
    Makes start .loopTail (loopBody block) :=
  .inOrder_cons (.leaf (by decide)) <| .inOrder_cons hb <|
    .inOrder_cons (.leaf (by decide)) ending_makes

theorem loopBody_ends : Ends (inOrder [loopBody block]) := ending_ends.after.after.after.last

theorem whileLoop_makes (hb : Makes (fun _ => True) (.node .block) block) :
    Makes start (.node .whileLoop) (whileLoop block) :=
  .node (.inOrder_cons (.leaf (by decide)) <| .inOrder_cons (expression_makes false) <|
    .inOrder_cons (loopBody_makes hb) .inOrder_nil) (by decide) fun _ => loopBody_ends.after.after

theorem forLoop_makes (hb : Makes (fun _ => True) (.node .block) block) :
    Makes start (.node .forLoop) (forLoop block) :=
  .node (.inOrder_cons (.leaf (by decide)) <| .inOrder_cons (.leaf (by decide)) <|
    .inOrder_cons (.leaf (by decide)) <| .inOrder_cons (expression_makes false) <|
    .inOrder_cons (.leaf (by decide)) <| .inOrder_cons (expression_makes false) <|
    .inOrder_cons (loopBody_makes hb) .inOrder_nil)
    (by decide) fun _ => loopBody_ends.after.after.after.after.after.after

theorem forEachLoop_makes (hb : Makes (fun _ => True) (.node .block) block) :
    Makes start (.node .forEachLoop) (forEachLoop block) :=
  .node (.inOrder_cons (.leaf (by decide)) <| .inOrder_cons (.leaf (by decide)) <|
    .inOrder_cons (.leaf (by decide)) <| .inOrder_cons (.leaf (by decide)) <|
    .inOrder_cons (expression_makes false) <| .inOrder_cons (loopBody_makes hb) .inOrder_nil)
    (by decide) fun _ => loopBody_ends.after.after.after.after.after

theorem anyForLoop_makes (hb : Makes (fun _ => True) (.node .block) block) :
    Makes start (.oneOf [.node .forLoop, .node .forEachLoop]) (anyForLoop block) := by
  refine .looking (fun p q token hr => ?_) fun second => ?_
  · unfold Parse.lookahead Parse.lookaheadCharged at hr
    split at hr
    · cases hr
    · cases hr
      rfl
  · split
    · exact (forEachLoop_makes hb).among (by decide)
    · exact (forLoop_makes hb).among (by decide)

theorem tryStatement_makes (hb : Makes (fun _ => True) (.node .block) block) :
    Makes start (.node .tryStatement) (tryStatement block) := by
  have hexcept : Makes (fun _ => True) (.node .exceptBranch)
      (node .exceptBranch [leaf .kwExcept, block]) :=
    .node (.inOrder_cons (.leaf (by decide)) <| .inOrder_cons hb .inOrder_nil) (by decide) nofun
  exact .node (.inOrder_cons (.leaf (by decide)) <| .inOrder_cons hb <| .inOrder_cons hexcept <|
    .inOrder_cons (.leaf (by decide)) ending_makes) (by decide)
    fun _ => ending_ends.after.after.after.after

section
variable {rule : Rule} {keyword : Kind}

theorem bareStatement_makes (h : production rule = .inOrder [.leaf keyword, .ending])
    (hk : keyword ≠ .endOfInput) (hne : rule ≠ .expression) :
    Makes (· = keyword) (.node rule) (bareStatement rule) :=
  .node (h ▸ .inOrder_cons (.any hk) ending_makes) hne fun _ => ending_ends.after

theorem operandStatement_makes
    (h : production rule = .inOrder [.leaf keyword, .optional (.node .expression), .ending])
    (hk : keyword ≠ .endOfInput) (hne : rule ≠ .expression) :
    Makes (· = keyword) (.node rule) (operandStatement rule) :=
  .node (h ▸ .inOrder_cons (.any hk) (.inOrder_cons operand_makes ending_makes)) hne
    fun _ => ending_ends.after.after

theorem handlerStatement_makes
    (h : production rule = .inOrder [.leaf keyword, .node .expression, .leaf .comma,
      .node .expression, .ending])
    (hk : keyword ≠ .endOfInput) (hne : rule ≠ .expression) :
    Makes (· = keyword) (.node rule) (handlerStatement rule) :=
  .node (h ▸ .inOrder_cons (.any hk) (.inOrder_cons (expression_makes false) <|
    .inOrder_cons (.leaf (by decide)) <| .inOrder_cons (expression_makes false) ending_makes)) hne
    fun _ => ending_ends.after.after.after.after

end

theorem executeStatement_makes : Makes start (.node .executeStatement) executeStatement :=
  .node (.inOrder_cons (.leaf (by decide)) <| .inOrder_cons (expression_makes false) ending_makes)
    (by decide) fun _ => ending_ends.after.after

theorem gotoStatement_makes : Makes start (.node .gotoStatement) gotoStatement :=
  .node (.inOrder_cons (.leaf (by decide)) <| .inOrder_cons (.leaf (by decide)) <|
    .inOrder_cons (.leaf (by decide)) ending_makes) (by decide)
    fun _ => ending_ends.after.after.after

theorem assignmentOrCall_makes :
    Makes start (.oneOf [.node .assignment, .node .call]) assignmentOrCall := by
  refine .looking (fun p q answer hr => ?_) fun answer => ?_
  · unfold isAssignment at hr
    split at hr <;> cases hr <;> rfl
  · have hassignment : Makes start (.node .assignment)
        (node .assignment [expression true, leaf .assign, expression false, statementEnd]) :=
      .node (.inOrder_cons (expression_makes true) <| .inOrder_cons (.leaf (by decide)) <|
        .inOrder_cons (expression_makes false) ending_makes) (by decide)
        fun _ => ending_ends.after.after.after
    have hcall : Makes start (.node .call) (node .call [expression false, statementEnd]) :=
      .node (.inOrder_cons (expression_makes false) ending_makes) (by decide)
        fun _ => ending_ends.after
    split
    · exact hassignment.among (by decide)
    · exact hcall.among (by decide)

/-- A statement keeps to the grammar if the blocks in it do. -/
theorem statement_makes (hb : Makes (fun _ => True) (.node .block) block)
    (hregular : Regular False false block) :
    Makes start (.oneOf (statementRules.map .node)) (statement block) := by
  refine .within <| .byKind fun kind _ => ?_
  split
  · have hempty : Makes (· = .semicolon) (.node .emptyStatement) (node .emptyStatement [any]) :=
      .node (.inOrder_cons (.any (by decide)) .inOrder_nil) (by decide) nofun
    exact hempty.among (by decide)
  · exact directiveLine_makes.among (by decide)
  · exact label_makes.among (by decide)
  · exact vars_makes.among (by decide)
  · exact (ifStatement_makes hb hregular).among (by decide)
  · exact (whileLoop_makes hb).among (by decide)
  · exact (anyForLoop_makes hb).wider (by decide)
  · exact (tryStatement_makes hb).among (by decide)
  · exact (operandStatement_makes rfl (by decide) (by decide)).among (by decide)
  · exact (operandStatement_makes rfl (by decide) (by decide)).among (by decide)
  · exact (bareStatement_makes rfl (by decide) (by decide)).among (by decide)
  · exact (bareStatement_makes rfl (by decide) (by decide)).among (by decide)
  · exact executeStatement_makes.among (by decide)
  · exact gotoStatement_makes.among (by decide)
  · exact (handlerStatement_makes rfl (by decide) (by decide)).among (by decide)
  · exact (handlerStatement_makes rfl (by decide) (by decide)).among (by decide)
  · exact assignmentOrCall_makes.wider (by decide)

end

/-! ## Blocks and methods -/

theorem statementSync_stopAfter {kind : Kind} (h : statementSync kind = .stopAfter) :
    kind = .semicolon := by
  unfold statementSync at h
  split at h
  · assumption
  · split at h <;> cases h

theorem methodSync_stopAfter {kind : Kind} (h : methodSync kind = .stopAfter) :
    kind = .kwEndProcedure ∨ kind = .kwEndFunction := by
  unfold methodSync at h
  split at h
  · rename_i hk
    simpa using hk
  · split at h <;> cases h

/-- A block ends, or goes on after a statement, which does not begin at the end marker. -/
theorem blockTurn_eq_ok {statement : Parse Kind Trees} {p q : Parser Kind} {trees : Trees}
    {again : Option Unit} (h : blockTurn statement p = .ok (trees, again) q) :
    trees = [] ∧ again = none ∧ q = p ∨
      p.cursor.peek.kind ≠ .endOfInput ∧ recovering statementSync statement p = .ok trees q ∧
        again = some () := by
  obtain ⟨kind, p', hkind, h⟩ := bind_eq_ok.1 h
  cases hkind
  split at h
  · cases h
    exact .inl ⟨rfl, rfl, rfl⟩
  · rename_i hends
    obtain ⟨found, r, hfound, h⟩ := bind_eq_ok.1 h
    cases h
    exact .inr ⟨fun hend => by simp [hend] at hends, hfound, rfl⟩

/-- Every turn of a block but the last reads a statement or skips tokens. -/
theorem blockTurns {statement : Parse Kind Trees} (h : Regular True true statement)
    (hs : Makes (fun _ => True) (.oneOf (statementRules.map .node)) statement) :
    Turns (fun _ => blockTurn statement) (Production.oneOf blockItems).star 1 endsThere := by
  have hitem : Makes (fun _ => True) (Production.oneOf blockItems).star
      (recovering statementSync statement) :=
    .recovering (hs.wider (by decide)) h.keeps (by decide) fun kind hkind =>
      statementSync_stopAfter hkind ▸ by decide
  have hreads : Parse.Reads Tree.leavesOf True true (recovering statementSync statement) :=
    (Regular.recovering statementSync trivial h).reads
  refine ⟨fun s s' p q trees hv hr => ?_, fun s p q trees hv hr => ?_⟩
  · obtain ⟨-, hagain, -⟩ | ⟨hkind, hfound, -⟩ := blockTurn_eq_ok hr
    · cases hagain
    · obtain ⟨hvq, hmade⟩ := hitem hv trivial hfound
      have hahead : p.cursor.ahead ≠ [] := mt hv.peek_kind_eq_end_iff.2 hkind
      exact ⟨hvq, hmade, (hreads hv (fun _ => hahead) hfound).2 rfl⟩
  · obtain ⟨rfl, -, rfl⟩ | ⟨-, -, hagain⟩ := blockTurn_eq_ok hr
    · exact ⟨_, ⟨hv, rfl⟩, .nil _⟩
    · cases hagain

/-- Blocks of any depth keep to the grammar. -/
theorem blockWithin_makes (depth : Nat) : Makes start (.node .block) (blockWithin depth) := by
  induction depth generalizing start with
  | zero =>
    refine .within <| .node (Makes.inOrder_nil.mono fun word hword => ?_) (by decide) nofun
    obtain rfl := (Language.mem_one _).1 hword
    exact Language.nil_mem_kstar _
  | succ depth ih =>
    have hregular : Regular False false (blockWithin depth) := blockWithin_regular depth
    have hturns := blockTurns (statement_regular hregular) (statement_makes ih hregular)
    refine .within <| .node (Makes.mono (.inOrder_cons (.repeating hturns) .inOrder_nil) ?_)
      (by decide) nofun
    intro word hword
    simpa [production, Production.inOrder] using hword

theorem block_makes : Makes start (.node .block) block := .counting blockWithin_makes

theorem methodRest_makes {keyword closer : Kind} (hk : keyword ≠ .endOfInput)
    (hc : closer ≠ .endOfInput) :
    Makes (· = keyword) (.methodTail keyword closer) (methodRest closer) :=
  .inOrder_cons (.any hk) <| .inOrder_cons (.leaf (by decide)) <| .inOrder_cons params_makes <|
    .inOrder_cons (.optional (by decide)) <| .inOrder_cons block_makes <|
    .inOrder_cons (.leafOr hc _) .inOrder_nil

theorem method_makes : Makes start (.node .method) method := by
  refine .within <| .node (.inOrder_cons annotations_makes <|
    .inOrder_cons (.optional (by decide)) <|
    .inOrder_cons (.byKind fun kind _ => ?_) .inOrder_nil) (by decide) nofun
  split
  · exact (methodRest_makes (by decide) (by decide)).mono fun word hword => .inl hword
  · exact (methodRest_makes (by decide) (by decide)).mono fun word hword => .inr hword
  · exact .failHere _

theorem looseStatement_makes (kind : Kind) :
    Makes start (.oneOf (statementRules.map .node)) (looseStatement kind) := by
  unfold looseStatement
  split
  · exact .failHere _
  · exact .counting fun n => statement_makes (blockWithin_makes n) (blockWithin_regular n)

/-! ## Modules -/

theorem fileItem_makes (kind : Kind) :
    Makes (· = kind) (Production.oneOf moduleItems).star (fileItem kind) := by
  have hmethod (kind : Kind) (h : methodSync kind = .stopAfter) :
      Symbol.leaf kind ∈ moduleItems := by
    rcases methodSync_stopAfter h with rfl | rfl <;> decide
  have hstatement (kind : Kind) (h : statementSync kind = .stopAfter) :
      Symbol.leaf kind ∈ moduleItems := statementSync_stopAfter h ▸ by decide
  unfold fileItem
  split
  · rename_i hk
    subst hk
    have hline : Makes (· = .hash) (.oneOf moduleItems) directiveLine :=
      directiveLine_makes.among (by decide)
    exact hline.mono fun _ => mem_star
  · split
    · have hregular : Regular True true method := method_regular
      exact .recovering (method_makes.among (by decide)) hregular.keeps (by decide) hmethod
    · split
      · have hregular : Regular True true vars := vars_regular
        exact .recovering (vars_makes.among (by decide)) hregular.keeps (by decide) hstatement
      · have hregular : Regular True true (looseStatement kind) := looseStatement_regular kind
        exact .recovering ((looseStatement_makes kind).wider (by decide)) hregular.keeps
          (by decide) hstatement

/-- The last turn takes the end marker, and nothing comes after that. -/
theorem fileTurns :
    Turns (fun _ => itemTurn fileItem) (Production.oneOf moduleItems).star (.leaf .endOfInput)
      fun _ after => after = [] := by
  refine ⟨fun s s' p q trees hv hr => ?_, fun s p q trees hv hr => ?_⟩
  · obtain ⟨-, -, hagain⟩ | ⟨hitem, hfound, -⟩ := itemTurn_eq_ok hr
    · cases hagain
    · obtain ⟨hvq, hmade⟩ := fileItem_makes _ hv rfl hfound
      have hahead := mt hv.peek_kind_eq_end_iff.2 hitem
      exact ⟨hvq, hmade, (fileItems.reads _ hitem hv (fun _ => hahead) hfound).2 rfl⟩
  · obtain ⟨hend, rfl, -⟩ | ⟨-, -, hagain⟩ := itemTurn_eq_ok hr
    · have hmarker : p.cursor.upcoming = [p.cursor.peek] := by
        have hnil := hv.peek_kind_eq_end_iff.1 hend
        rw [Cursor.upcoming, hv.peek_eq, hnil]
        rfl
      have hmade := Made.token p.cursor.peek []
      rw [hend] at hmade
      exact ⟨[], rfl, hmarker ▸ hmade⟩
    · cases hagain

/-- The items of a module and the end marker are the children of its tree. -/
theorem file_makes {p q : Parser Kind} {tree : Node Rule Kind} (hv : p.cursor.Valid)
    (h : file p = .ok tree q) :
    tree.rule = .file ∧ Made (production .file) p.cursor.upcoming tree.children [] := by
  rw [file_eq_whole] at h
  obtain ⟨trees, r, hturns, rfl⟩ := whole_eq_ok h
  obtain ⟨after, rfl, hmade⟩ := fileTurns.repeatUpTo (by exact hv) (Nat.lt_succ_self _) hturns
  exact ⟨rfl, hmade.mono fun word hword => by simpa [production] using hword⟩

/-- **Every tree is a derivation.** In every tree that a token list gives, whatever the mode,
skipped tokens are children of modules and of blocks only, the children of every node are as its
production has them, and a statement without `;` is the last of its block. -/
theorem file_derivation (report : Report) (tokens : List (Token Kind)) {tree : Node Rule Kind}
    (h : (file.runOn report (.onCode tokens)).1 = .ok tree) : Derivation tokens tree := by
  have hv : (Cursor.onCode tokens).Valid := Cursor.valid_ofTokens _ _
  unfold Parse.runOn at h
  split at h
  · rename_i hr
    cases h
    obtain ⟨hrule, hfile⟩ := file_makes hv hr
    have hderives : Derives tree [] := by
      refine ⟨hrule ▸ hfile.word, fun he => ?_, fun _ _ => .inl hrule, fun he => ?_⟩ <;>
        rw [hrule] at he <;> cases he
    refine ⟨hrule, ?_, fun place hplace => ?_⟩
    · have hleaves := hfile.leaves
      rw [List.append_nil, Cursor.upcoming_onCode] at hleaves
      exact hleaves.symm
    · rcases List.mem_cons.1 hplace with rfl | hplace
      · exact hderives
      · exact hfile.nodes place hplace
  · cases h

/-- `Если А Тогда КонецЦикла; Возврат`: the wrong closer closes nothing, and the end of the module
ends the last statement. -/
theorem file_derivation_mismatched :
    let tokens : List (Token Kind) :=
      [⟨.kwIf, .codeOnly, "Если", {}, 0, ⟨0, 8⟩⟩, ⟨.identifier, .codeOnly, "А", {}, 1, ⟨9, 11⟩⟩,
        ⟨.kwThen, .codeOnly, "Тогда", {}, 2, ⟨12, 22⟩⟩,
        ⟨.kwEndDo, .codeOnly, "КонецЦикла", {}, 3, ⟨23, 43⟩⟩,
        ⟨.semicolon, .codeOnly, ";", {}, 4, ⟨43, 44⟩⟩,
        ⟨.kwReturn, .codeOnly, "Возврат", {}, 5, ⟨45, 59⟩⟩]
    ∃ tree, (file.runOn { mode := .general } (.onCode tokens)).1 = .ok tree ∧
      tree.children.map symbol =
        [.error, .error, .error, .error, .leaf .semicolon, .node .returnStatement,
          .leaf .endOfInput] ∧
      Derivation tokens tree := by
  intro tokens
  have hrun : (file.runOn { mode := .general } (.onCode tokens)).1.toOption.map
      (fun tree => tree.children.map symbol) =
        some [.error, .error, .error, .error, .leaf .semicolon, .node .returnStatement,
          .leaf .endOfInput] := by decide +kernel
  generalize hresult : (file.runOn { mode := .general } (.onCode tokens)).1 = result at hrun
  cases result with
  | error e => cases hrun
  | ok tree => exact ⟨tree, rfl, Option.some.inj hrun, file_derivation _ _ hresult⟩

/-! ## Directives -/

/-- A directive begins with a `#`. -/
theorem hash_of_directive {n : Node Rule Kind} {after : List (Token Kind)} (h : Derives n after)
    (hrule : n.rule = .directive) : ∃ t ∈ Tree.leavesOf n.children, t.kind = .hash := by
  have hword := h.production
  rw [hrule] at hword
  obtain ⟨first, hfirst, rest, -, heq⟩ := Language.mem_mul.1 hword
  obtain rfl : first = [.leaf .hash] := hfirst
  cases hchildren : n.children with
  | nil => simp [hchildren] at heq
  | cons child children =>
    rw [hchildren, List.map_cons] at heq
    obtain ⟨hsymbol, -⟩ := List.cons.inj heq
    cases child with
    | token t => exact ⟨t, List.mem_cons_self, (Symbol.leaf.inj hsymbol).symm⟩
    | node | error => cases hsymbol

/-- Code without a `#` is parsed without directives. -/
theorem findAll_directive (report : Report) {tokens : List (Token Kind)}
    (h : ∀ t ∈ tokens, t.kind ≠ .hash) :
    (moduleLanguage.parse report tokens).1.tree.findAll .directive = [] := by
  obtain ⟨tree, p, hparse, hgeneral⟩ : ∃ tree p,
      moduleLanguage.root { cursor := .onCode tokens, report := { mode := .general } } =
        .ok tree p ∧
      moduleLanguage.parseGeneral report (.onCode tokens) = Language.conclude tree p.report :=
    Language.parseGeneral_eq fileItems file_eq_whole report tokens
  have htree : (moduleLanguage.parse report tokens).1.tree = tree := by
    rw [Language.parse_eq_parseGeneral fileItems file_eq_whole report report, hgeneral]
    rfl
  obtain ⟨hrule, hmade⟩ := file_makes (Cursor.valid_ofTokens _ _) hparse
  have hleaves := hmade.leaves
  rw [List.append_nil, Cursor.upcoming_onCode] at hleaves
  rw [htree]
  refine List.filter_eq_nil_iff.2 fun n hn => ?_
  rw [decide_eq_true_eq]
  intro hdirective
  rcases List.mem_cons.1 hn with rfl | hn
  · exact absurd (hrule.symm.trans hdirective) nofun
  · obtain ⟨place, hplace, rfl⟩ : ∃ place ∈ Tree.occurrencesOf [] tree.children, place.1 = n := by
      rw [← List.mem_map, Tree.map_fst_occurrencesOf]
      exact hn
    obtain ⟨t, ht, hkind⟩ := hash_of_directive (hmade.nodes place hplace) hdirective
    -- The `#` is a leaf of the tree, so it is a token of the list or the end marker.
    have hleaf := Tree.mem_leavesOf_of_mem_nodesOf tree.children hn t ht
    rw [← hleaves, List.mem_append, List.mem_singleton] at hleaf
    rcases hleaf with hshown | rfl
    · exact h t ((List.takeWhile_sublist _).subset (List.mem_filter.1 hshown).1) hkind
    · have hend := Token.isEnd_endOf tokens
      simp [Token.isEnd, hkind, TokenKind.endOfInput] at hend

end BuiltInScript.Module
