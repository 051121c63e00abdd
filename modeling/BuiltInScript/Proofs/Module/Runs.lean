import BuiltInScript.Proofs.Module.Regular

/-!
# Runs of tokens, and looking for `=` past them

Two scans go over the tokens of an expression: the one that measures it, and the one that looks for
a `=` outside brackets to tell an assignment from a call. They treat brackets, commas and operands
differently, but past a run that is an expression they agree: the second scan comes out of it
outside all brackets, and has been charged for the tokens that are outside brackets there.

**Results.**
* `run_of_expressionRun`: what a measured run that ends by itself consists of.
* `Run.outside_append`: what is outside brackets after a run is what is outside them by itself.
* `Run.statementSort_append`: what the second scan comes to past a run.
-/
namespace BuiltInScript.Module

/-! ## What is outside brackets -/

/-- How many brackets are open after a token, if so many are before it. -/
def depthAfter (depth : Nat) (kind : Kind) : Nat :=
  if kind.closer?.isSome then depth + 1
  else if isClosingBracket kind then depth - 1
  else depth

/-- The tokens outside brackets, if so many brackets are open at the beginning. The bracket that
opens a group stands for all of it. -/
def outside (depth : Nat) : List (Token Kind) → List (Token Kind)
  | [] => []
  | t :: ts =>
    if depth = 0 then t :: outside (depthAfter depth t.kind) ts
    else outside (depthAfter depth t.kind) ts

theorem mem_outside_cons {depth : Nat} {t u : Token Kind} {ts : List (Token Kind)} :
    u ∈ outside depth (t :: ts) ↔
      (depth = 0 ∧ u = t) ∨ u ∈ outside (depthAfter depth t.kind) ts := by
  rw [outside]
  split <;> simp [*]

theorem closer?_eq_none_of_isClosingBracket {kind : Kind} (h : isClosingBracket kind = true) :
    kind.closer? = none := by
  cases kind <;> first | rfl | cases h

/-- A bracket can be part of an expression, and is no `=`. -/
theorem passed_of_closer? {kind closer : Kind} (h : kind.closer? = some closer) :
    endsExpression kind = false ∧ kind ≠ .assign := by
  cases kind <;> first | exact ⟨rfl, by decide⟩ | cases h

theorem passed_of_isClosingBracket {kind : Kind} (h : isClosingBracket kind = true) :
    endsExpression kind = false ∧ kind ≠ .assign := by
  cases kind <;> first | exact ⟨rfl, by decide⟩ | cases h

/-! ## Runs -/

/-- Tokens that can be part of an expression, with their brackets matched besides the ones that are
open at the beginning. Outside brackets there may be no `=` if the run goes up to one. -/
inductive Run (upToAssign : Bool) : List OpenBracket → List (Token Kind) → Prop
  | done : Run upToAssign [] []
  | opens {opened closer t ts} : t.kind.closer? = some closer →
      Run upToAssign (⟨closer, t⟩ :: opened) ts → Run upToAssign opened (t :: ts)
  | closes {opener outer t ts} : isClosingBracket t.kind = true → Run upToAssign outer ts →
      Run upToAssign (⟨t.kind, opener⟩ :: outer) (t :: ts)
  | plain {opened t ts} : t.kind.closer? = none → isClosingBracket t.kind = false →
      endsExpression t.kind = false →
      (upToAssign = true → opened = [] → t.kind ≠ .assign) →
      Run upToAssign opened ts → Run upToAssign opened (t :: ts)

/-- What is measured as an expression, and ends by itself, is a run. -/
theorem run_of_expressionRun {upToAssign : Bool} {opened : List OpenBracket}
    {previous : Option Kind} {tokens run : List (Token Kind)}
    (h : expressionRun upToAssign opened previous tokens = (run, .stopped [])) :
    Run upToAssign opened run := by
  induction tokens generalizing opened previous run with
  | nil =>
    cases h
    exact .done
  | cons t ts ih =>
    obtain hstops | ⟨innermost, -, hdiffers⟩ | ⟨opened', htaken, hgoes⟩ :=
      expressionRun_cons_cases upToAssign opened previous t ts
    · cases hstops.symm.trans h
      exact .done
    · cases hdiffers.symm.trans h
    · obtain ⟨rfl, hend⟩ := Prod.mk.inj (hgoes.symm.trans h)
      have hrest := ih (Prod.ext rfl hend)
      cases htaken with
      | opens hcloser => exact .opens hcloser hrest
      | closes hopened hclosing =>
        rw [hopened]
        exact .closes hclosing hrest
      | plain hcloser hclosing hends hassign =>
        exact .plain hcloser hclosing hends hassign hrest

/-- An expression is a node over a run, and passes it. -/
theorem expression_eq_ok {upToAssign : Bool} {p q : Parser Kind} {trees : Trees}
    (h : expression upToAssign p = .ok trees q) :
    ∃ run, run ≠ [] ∧ Run upToAssign [] run ∧ trees = [.node .expression (run.map .token) {}] ∧
      p.cursor.Passes q.cursor run := by
  rw [expression_eq_scan] at h
  obtain ⟨r, hscan, rfl⟩ := Parse.within_eq_ok.1 h
  unfold Part.scan at hscan
  dsimp only at hscan
  split at hscan
  · cases hscan
  · rename_i hnone
    cases hscan
    have hprefix := expressionRun_eq_take upToAssign [] none p.cursor.ahead
    unfold readExpression at hnone ⊢
    generalize hresult : expressionRun upToAssign [] none p.cursor.ahead = result at hnone hprefix ⊢
    obtain ⟨run, ⟨_ | ⟨innermost, outer⟩⟩ | innermost⟩ := result
    · dsimp only at hnone hprefix ⊢
      cases run with
      | nil => cases hnone
      | cons t ts =>
        rw [← hprefix]
        exact ⟨t :: ts, List.cons_ne_nil t ts, run_of_expressionRun hresult, rfl, rfl,
          List.prefix_iff_eq_take.2 hprefix⟩
    · cases hnone
    · cases hnone

namespace Run

variable {upToAssign : Bool} {opened : List OpenBracket} {run : List (Token Kind)}

/-- Going along a run with the number of open brackets. -/
theorem depth_induction {motive : Nat → List (Token Kind) → Prop}
    (h : Run upToAssign opened run) (done : motive 0 [])
    (take : ∀ depth t ts, endsExpression t.kind = false →
      (upToAssign = true → depth = 0 → t.kind ≠ .assign) →
      motive (depthAfter depth t.kind) ts → motive depth (t :: ts)) :
    motive opened.length run := by
  induction h with
  | done => exact done
  | @opens opened closer t ts hcloser _ ih =>
    have hdepth : depthAfter opened.length t.kind = opened.length + 1 := by
      simp [depthAfter, hcloser]
    obtain ⟨hends, hassign⟩ := passed_of_closer? hcloser
    exact take _ _ _ hends (fun _ _ => hassign) (hdepth ▸ ih)
  | @closes opener outer t ts hclosing _ ih =>
    have hdepth : depthAfter (outer.length + 1) t.kind = outer.length := by
      simp [depthAfter, closer?_eq_none_of_isClosingBracket hclosing, hclosing]
    obtain ⟨hends, hassign⟩ := passed_of_isClosingBracket hclosing
    exact take _ _ _ hends (fun _ _ => hassign) (hdepth ▸ ih)
  | @plain opened t ts hcloser hclosing hends hassign _ ih =>
    have hdepth : depthAfter opened.length t.kind = opened.length := by
      simp [depthAfter, hcloser, hclosing]
    exact take _ _ _ hends (fun hup hd => hassign hup (List.length_eq_zero_iff.1 hd))
      (hdepth.symm ▸ ih)

theorem endsExpression_eq_false (h : Run upToAssign opened run) :
    ∀ t ∈ run, endsExpression t.kind = false :=
  h.depth_induction (motive := fun _ run => ∀ t ∈ run, endsExpression t.kind = false)
    (List.forall_mem_nil _) fun _ _ _ hends _ ih => List.forall_mem_cons.2 ⟨hends, ih⟩

/-- After a run no bracket is open. -/
theorem outside_append (h : Run upToAssign opened run) (tokens : List (Token Kind)) :
    outside opened.length (run ++ tokens) = outside opened.length run ++ outside 0 tokens := by
  refine h.depth_induction (motive := fun depth run =>
    outside depth (run ++ tokens) = outside depth run ++ outside 0 tokens) rfl
    fun depth t ts _ _ ih => ?_
  rw [List.cons_append, outside, outside, ih]
  split <;> rfl

/-- A run that goes up to a `=` has none outside brackets. -/
theorem ne_assign (h : Run true opened run) :
    ∀ t ∈ outside opened.length run, t.kind ≠ .assign := by
  refine h.depth_induction (motive := fun depth run => ∀ t ∈ outside depth run, t.kind ≠ .assign)
    (List.forall_mem_nil _) fun depth t ts _ hassign ih u hu => ?_
  rcases mem_outside_cons.1 hu with ⟨hd, rfl⟩ | hu
  · exact hassign rfl hd
  · exact ih u hu

/-! ## Looking for a `=` -/

/-- A token that can be part of an expression is passed. -/
theorem statementSort_cons {bound : Option Nat} {depth charged : Nat} {t : Token Kind}
    {ts : List (Token Kind)} (hends : endsExpression t.kind = false)
    (hassign : depth = 0 → t.kind ≠ .assign) :
    statementSort bound depth charged (t :: ts) =
      if bound.any (· ≤ if depth = 0 then charged + 1 else charged) then .beyondBound
      else statementSort bound (depthAfter depth t.kind)
        (if depth = 0 then charged + 1 else charged) ts := by
  have hno : (t.kind = .assign && depth = 0) = false := by
    by_cases hd : depth = 0
    · simp [hassign hd]
    · simp [hd]
  rw [statementSort, depthAfter]
  generalize (if depth = 0 then charged + 1 else charged) = charged
  simp only [hno, hends, Bool.false_eq_true, if_false]
  split
  · rfl
  · split
    · rfl
    · split <;> rfl

/-- In a statement that is no assignment, there is no `=` outside brackets in the run that it begins
with. -/
theorem ne_assign_of_statementSort {charged : Nat} {tokens : List (Token Kind)}
    (h : Run upToAssign opened run)
    (hsort : statementSort none opened.length charged (run ++ tokens) ≠ .assignment) :
    ∀ t ∈ outside opened.length run, t.kind ≠ .assign := by
  refine h.depth_induction (motive := fun depth run => ∀ charged,
    statementSort none depth charged (run ++ tokens) ≠ .assignment →
      ∀ t ∈ outside depth run, t.kind ≠ .assign) (fun _ _ => List.forall_mem_nil _)
    (fun depth t ts hends _ ih charged hsort => ?_) charged hsort
  have hassign : depth = 0 → t.kind ≠ .assign := by
    rintro rfl ht
    simp [statementSort, ht, Kind.closer?, isClosingBracket] at hsort
  rw [List.cons_append, statementSort_cons hends hassign] at hsort
  intro u hu
  rcases mem_outside_cons.1 hu with ⟨hd, rfl⟩ | hu
  · exact hassign hd
  · exact ih _ hsort u hu

/-- **Past a run.** Looking for a `=` past a run that has none outside brackets comes out of it
outside all brackets, charged for the tokens that are outside them in the run, unless these are too
many already. -/
theorem statementSort_append {bound charged : Nat} {tokens : List (Token Kind)}
    (h : Run upToAssign opened run) (hassign : ∀ t ∈ outside opened.length run, t.kind ≠ .assign)
    (hcharged : charged < bound) :
    statementSort (some bound) opened.length charged (run ++ tokens) =
      if charged + (outside opened.length run).length < bound then
        statementSort (some bound) 0 (charged + (outside opened.length run).length) tokens
      else .beyondBound := by
  refine h.depth_induction (motive := fun depth run => ∀ charged < bound,
    (∀ t ∈ outside depth run, t.kind ≠ .assign) →
      statementSort (some bound) depth charged (run ++ tokens) =
        if charged + (outside depth run).length < bound then
          statementSort (some bound) 0 (charged + (outside depth run).length) tokens
        else .beyondBound) (fun _ hcharged _ => (if_pos hcharged).symm)
    (fun depth t ts hends _ ih charged hcharged hassign => ?_) charged hcharged hassign
  have hfirst : depth = 0 → t.kind ≠ .assign := fun hd =>
    hassign t (mem_outside_cons.2 (.inl ⟨hd, rfl⟩))
  have hrest : ∀ u ∈ outside (depthAfter depth t.kind) ts, u.kind ≠ .assign := fun u hu =>
    hassign u (mem_outside_cons.2 (.inr hu))
  rw [List.cons_append, statementSort_cons hends hfirst, outside, Option.any_some]
  by_cases hd : depth = 0
  · simp only [if_pos hd, decide_eq_true_eq, List.length_cons]
    by_cases hbound : bound ≤ charged + 1
    · rw [if_pos hbound, if_neg (by omega)]
    · rw [if_neg hbound, ih (charged + 1) (by omega) hrest, Nat.add_right_comm charged 1,
        Nat.add_assoc charged]
  · have hbound : ¬ bound ≤ charged := by omega
    simp only [if_neg hd, hbound, decide_false, Bool.false_eq_true, if_false]
    exact ih charged hcharged hrest

/-- What ends a run is told with one token more, so a run may have two tokens less than the bound
outside brackets. -/
theorem ne_beyondBound_iff {bound : Nat} {tokens : List (Token Kind)} {sort : StatementSort}
    (h : Run upToAssign [] run) (hassign : ∀ t ∈ outside 0 run, t.kind ≠ .assign)
    (hbound : 0 < bound) (hsort : sort ≠ .beyondBound)
    (htokens : ∀ charged, statementSort (some bound) 0 charged tokens =
      if bound ≤ charged + 1 then .beyondBound else sort) :
    statementSort (some bound) 0 0 (run ++ tokens) ≠ .beyondBound ↔
      (outside 0 run).length + 2 ≤ bound := by
  have hrun : statementSort (some bound) 0 0 (run ++ tokens) =
      if 0 + (outside 0 run).length < bound then
        statementSort (some bound) 0 (0 + (outside 0 run).length) tokens
      else .beyondBound := h.statementSort_append hassign hbound
  rw [hrun, Nat.zero_add, htokens]
  by_cases hlong : bound ≤ (outside 0 run).length + 1
  · rw [if_pos hlong, ite_self]
    exact iff_of_false (fun h => h rfl) (by omega)
  · rw [if_neg hlong, if_pos (by omega)]
    exact iff_of_true hsort (by omega)

end Run

theorem statementSort_of_assign {bound charged : Nat} {t : Token Kind} (h : t.kind = .assign)
    (ts : List (Token Kind)) :
    statementSort (some bound) 0 charged (t :: ts) =
      if bound ≤ charged + 1 then .beyondBound else .assignment := by
  simp [statementSort, h, Kind.closer?, isClosingBracket]

/-- Where no token can be part of an expression, a statement without `=` ends. -/
theorem statementSort_of_ends {bound charged : Nat} {tokens : List (Token Kind)}
    (h : ∀ t ∈ tokens.head?, endsExpression t.kind = true) :
    statementSort (some bound) 0 charged tokens =
      if bound ≤ charged + 1 then .beyondBound else .call := by
  cases tokens with
  | nil => simp [statementSort]
  | cons t ts =>
    have hends : endsExpression t.kind = true := h t rfl
    have hcloser : t.kind.closer?.isSome = false := by
      cases hk : t.kind.closer? with
      | none => rfl
      | some closer => exact absurd ((passed_of_closer? hk).1.symm.trans hends) Bool.false_ne_true
    have hclosing : isClosingBracket t.kind = false := by
      cases hk : isClosingBracket t.kind with
      | false => rfl
      | true => exact absurd ((passed_of_isClosingBracket hk).1.symm.trans hends) Bool.false_ne_true
    have hassign : t.kind ≠ .assign := by
      intro hk
      rw [hk] at hends
      cases hends
    simp [statementSort, hends, hcloser, hclosing, hassign]

end BuiltInScript.Module
