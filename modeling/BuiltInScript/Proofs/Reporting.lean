import BuiltInScript.Proofs.Languages
import BuiltInScript.Proofs.Module.Accounts
import BuiltInScript.Proofs.Query.Accounts

/-!
# What a parse reports, its tree shows

Whatever is reported during a parse, the tree of the parse has an error leaf for it, and there is no
error leaf for which nothing was reported.

**Results.**
* `Module.file_accounts`, `Query.package_accounts`: the rules of whole sources account for what they
  report, about whatever tokens they see.
* `parse_honest`: so the errors of a parse are counted, reported and shown together, for every token
  list of either language.
-/
namespace BuiltInScript

open BuiltInScript.Part
open BuiltInScript.Parse (Accounted Accounts)

/-! ## Items -/

/-- Methods begin with other keywords than they end with. -/
theorem Module.methodSync_of_startsMethod {kind : Module.Kind} :
    Module.startsMethod kind = true → Module.methodSync kind ≠ .stopAfter := by
  cases kind <;> decide

/-- The items of a module are recovered from, but never where recovery would stop after the first
token. -/
theorem Module.fileItem_accounted {Q : Token Module.Kind → Prop} {p : Parser Module.Kind}
    (hp : p.Sees Q) (hne : p.cursor.peek.kind ≠ .endOfInput) :
    Accounted Q Shows p (Module.fileItem p.cursor.peek.kind p) := by
  generalize hk : p.cursor.peek.kind = kind at hne
  have hstatement (he : kind ≠ .semicolon) : Module.statementSync kind ≠ .stopAfter := by
    unfold Module.statementSync
    split
    · contradiction
    · split <;> decide
  unfold Module.fileItem
  split
  · exact Module.accounts_inherited.directiveLine hp
  · split
    · rename_i hstarts
      refine accounted_recovering hp (Module.accounts_inherited.method hp) (hk ▸ hne)
        fun e q _ => ?_
      exact hk ▸ Module.methodSync_of_startsMethod hstarts
    · split
      · rename_i hvar
        refine accounted_recovering hp (Module.accounts_inherited.vars hp) (hk ▸ hne)
          fun e q _ => ?_
        exact hk ▸ hstatement (hvar ▸ by decide)
      · refine accounted_recovering hp (Module.accounts_inherited.looseStatement kind hp) (hk ▸ hne)
          fun e q he => ?_
        by_cases hcloser : Module.isBlockCloser kind
        · exact hk ▸ hstatement (by rintro rfl; cases hcloser)
        · unfold Module.looseStatement at he
          rw [if_neg hcloser] at he
          exact Module.sync_of_statement_error he

theorem Module.file_accounts (Q : Token Module.Kind → Prop) :
    Accounts Q (fun n : Node Module.Rule Module.Kind => Shows [n.toTree]) Module.file := by
  rw [Module.file_eq_whole]
  exact accounts_whole (fun _ hp hne => Module.fileItem_accounted hp hne) _ _

theorem Query.packageItem_accounted {Q : Token Query.Kind → Prop} {p : Parser Query.Kind}
    (hp : p.Sees Q) (hne : p.cursor.peek.kind ≠ .endOfInput) :
    Accounted Q Shows p (Query.packageItem p.cursor.peek.kind p) := by
  unfold Query.packageItem
  split
  · exact accounts_any hp
  · rename_i hsemicolon
    refine accounted_recovering hp (Query.query_accounts hp) hne fun e q _ => ?_
    rw [Query.querySync, if_neg hsemicolon]
    decide

theorem Query.package_accounts (Q : Token Query.Kind → Prop) :
    Accounts Q (fun n : Node Query.Rule Query.Kind => Shows [n.toTree]) Query.package := by
  rw [Query.package_eq_whole]
  exact accounts_whole (fun _ hp hne => Query.packageItem_accounted hp hne) _ _

/-! ## Parses -/

/-- What a parse tells about errors agrees with itself: they are the diagnostics, the tree shows
some if there are any, and the fast first phase has none. -/
structure Parsed.Honest {R K : Type} (parsed : Parsed R K) : Prop where
  errorCount_eq : parsed.errorCount = parsed.diagnostics.length
  hasErrors_iff : parsed.tree.hasErrors = true ↔ 0 < parsed.errorCount
  errorCount_optimistic : parsed.mode = .optimistic → parsed.errorCount = 0

theorem Parsed.Accountable.honest {R K : Type} [DecidableEq K] [TokenKind K] {parsed : Parsed R K}
    {Q : Token K → Prop} (h : parsed.Accountable Q) : parsed.Honest where
  errorCount_eq := h.errorCount
  hasErrors_iff := by
    have hany : parsed.tree.hasErrors = !parsed.diagnostics.isEmpty := by
      rw [← h.shows.anyErrors, Tree.anyErrors, Tree.anyErrors, Bool.or_false]
      rfl
    rw [hany, h.errorCount]
    cases parsed.diagnostics <;> simp
  errorCount_optimistic hm := by rw [h.errorCount, h.optimistic hm, List.length_nil]

/-- **Errors are reported exactly when the tree shows them.** For every token list of either
language, well-formed or not, a parse in two phases counts as many errors as it has diagnostics, its
tree has error leaves just if there are any, and there are none if it predicted optimistically. -/
theorem parse_honest (report : Report) (modules : List (Token Module.Kind))
    (queries : List (Token Query.Kind)) :
    (moduleLanguage.parse report modules).1.Honest ∧
      (queryLanguage.parse report queries).1.Honest :=
  ⟨(Language.parse_accountable Module.fileItems Module.file_eq_whole
      (Module.file_accounts fun _ => True) (fun _ _ => trivial) trivial report).honest,
    (Language.parse_accountable Query.packageItems Query.package_eq_whole
      (Query.package_accounts fun _ => True) (fun _ _ => trivial) trivial report).honest⟩

/-- A `;` is missing between two statements. -/
example :
    (moduleLanguage.parse {}
      [⟨.kwBreak, .codeOnly, "Прервать", {}, 0, ⟨0, 16⟩⟩,
        ⟨.kwBreak, .codeOnly, "Прервать", {}, 1, ⟨17, 33⟩⟩]).1.errorCount = 1 := by decide +kernel

end BuiltInScript
