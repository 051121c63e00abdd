import BuiltInScript.Module.Directive
import BuiltInScript.Proofs.Lexing.Folding
import BuiltInScript.Proofs.Parsing.Likeness

/-!
# Directives without regard to case

A directive keeps the names in its condition as they were written, and a platform symbol is found by
its name. Both go by the folded text of a token, so lines that are the same when folded hold
directives that are the same when folded.

**Results.**
* `atom_inStep`, `conditionWithin_inStep`: conditions are read alike from tokens that fold alike.
* `directive_inStep`: so are directives.
-/
namespace BuiltInScript

/-- The form of tokens that differ in their spelling only. -/
def Form.folded {K : Type} : Form K := ⟨Token.folded, fun _ => rfl, fun _ => rfl⟩

/-- Token lists that fold alike are shown alike. -/
theorem Cursor.onCode_folded {K : Type} [DecidableEq K] [TokenKind K]
    {tokens tokens' : List (Token K)} (h : tokens.map Token.folded = tokens'.map Token.folded) :
    (Cursor.onCode tokens).Like Form.folded (.onCode tokens') :=
  Cursor.like_ofTokens _ h (Token.endOf_folded_eq h)

namespace Module

open BuiltInScript.Parse (InStep SameForm)

/-! ## Folded directives -/

/-- A condition with its names folded. -/
def Condition.folded : Condition → Condition
  | .symbol s => .symbol s
  | .unknown n => .unknown (Text.fold n)
  | .not c => .not c.folded
  | .and a b => .and a.folded b.folded
  | .or a b => .or a.folded b.folded

/-- A directive with its condition folded. The names of regions and libraries have no effect, and
are dropped. -/
def Directive.folded : Directive → Directive
  | .ifBlock c => .ifBlock (c.map Condition.folded)
  | .elseIf c => .elseIf (c.map Condition.folded)
  | .region _ => .region ""
  | .use _ => .use ""
  | directive => directive

def SameCondition (c d : Condition) : Prop := c.folded = d.folded

/-! ## Conditions -/

/-- A condition that is read alike from tokens that fold alike. -/
abbrev Steady (condition : Parse Kind Condition) : Prop :=
  InStep Form.folded SameCondition condition condition

theorem fold_text_eq {t u : Token Kind} (h : SameForm Form.folded t u) :
    Text.fold t.text = Text.fold u.text := congrArg Token.text h

theorem missingSymbol_inStep : Steady missingSymbol :=
  InStep.next.bind fun _ _ _ => .fail _ _

variable {inner operand : Parse Kind Condition}

theorem atom_inStep (h : Steady inner) : Steady (atom inner) := by
  refine InStep.next.bind fun t u htoken => ?_
  have htext := fold_text_eq htoken
  have hsymbol : PlatformSymbol.ofName? ⟨t.text⟩ = PlatformSymbol.ofName? ⟨u.text⟩ :=
    PlatformSymbol.ofName?_congr (Name.beq_iff.2 (Text.fold_eq_fold_iff.1 htext))
  have hunknown : SameCondition (.unknown t.text) (.unknown u.text) :=
    congrArg Condition.unknown htext
  rw [← Form.folded.kind_eq htoken, ← hsymbol]
  split
  · exact h.bind fun _ _ hcondition => (InStep.expectOr _ _).bind fun _ _ _ => .pure hcondition
  · split
    · exact .pure rfl
    · exact .pure hunknown
  · exact .pure hunknown
  · exact .fail _ _

theorem negated_inStep (h : Steady inner) (n : Nat) : Steady (negated inner n) := by
  induction n with
  | zero => exact atom_inStep h
  | succ n ih =>
    refine (InStep.eat _).bind fun _ _ hate => ?_
    cases hate with
    | some _ => exact ih.bind fun _ _ hcondition => .pure (congrArg Condition.not hcondition)
    | none => exact atom_inStep h

theorem unary_inStep (h : Steady inner) : Steady (unary inner) := by
  refine InStep.remaining.bind fun n _ hn => ?_
  cases hn
  exact negated_inStep h n

section
variable {operator : Kind} {combine : Condition → Condition → Condition}
  (hcombine : ∀ a b c d, SameCondition a b → SameCondition c d →
    SameCondition (combine a c) (combine b d))
include hcombine

theorem chainRest_inStep (h : Steady operand) (n : Nat) {left left' : Condition}
    (hleft : SameCondition left left') :
    InStep Form.folded SameCondition (chainRest operator combine operand n left)
      (chainRest operator combine operand n left') := by
  induction n generalizing left left' with
  | zero => exact .pure hleft
  | succ n ih =>
    refine (InStep.eat _).bind fun _ _ hate => ?_
    cases hate with
    | some _ => exact h.bind fun _ _ hright => ih (hcombine _ _ _ _ hleft hright)
    | none => exact .pure hleft

theorem chain_inStep (h : Steady operand) : Steady (chain operator combine operand) := by
  refine h.bind fun _ _ hfirst => InStep.remaining.bind fun n _ hn => ?_
  cases hn
  exact chainRest_inStep hcombine h n hfirst

end

theorem conditionWithin_inStep (depth : Nat) : Steady (conditionWithin depth) := by
  induction depth with
  | zero => exact missingSymbol_inStep
  | succ depth ih =>
    refine chain_inStep ?_ (chain_inStep ?_ (unary_inStep ih))
    · intro a b c d hleft hright
      exact (congr (congrArg Condition.or hleft) hright :)
    · intro a b c d hleft hright
      exact (congr (congrArg Condition.and hleft) hright :)

theorem guardCondition_inStep : Steady guardCondition := by
  refine .within (InStep.remaining.bind fun n _ hn => ?_)
  cases hn
  exact (conditionWithin_inStep n).bind fun _ _ hcondition =>
    (InStep.expectOr _ _).bind fun _ _ _ => .pure hcondition

/-- A condition that is malformed in one spelling is malformed in the other. -/
theorem condition?_inStep :
    InStep Form.folded (fun c d => c.map Condition.folded = d.map Condition.folded) condition?
      condition? := by
  refine guardCondition_inStep.attempt.bind fun result result' h => ?_
  cases result <;> cases result'
  · exact InStep.skipAll.bind fun _ _ _ => .pure rfl
  · exact h.elim
  · exact h.elim
  · exact .pure (congrArg some h)

/-! ## Directive lines -/

theorem directiveEnd_inStep : InStep Form.folded Eq directiveEnd directiveEnd := by
  refine InStep.peek.bind fun t u htoken => ?_
  have hend : t.isEnd = u.isEnd := (congrArg Token.isEnd htoken : t.folded.isEnd = u.folded.isEnd)
  rw [← hend]
  split
  · exact .pure rfl
  · exact (InStep.emit _ _).bind fun _ _ _ => .skipAll

theorem directiveBody_inStep {hash hash' keyword keyword' : Token Kind}
    (h : SameForm Form.folded keyword keyword') :
    InStep Form.folded (fun d e => d.folded = e.folded) (directiveBody hash keyword)
      (directiveBody hash' keyword') := by
  unfold directiveBody
  rw [← Form.folded.kind_eq h]
  split
  · exact condition?_inStep.bind fun _ _ hc => .pure (congrArg Directive.ifBlock hc)
  · exact condition?_inStep.bind fun _ _ hc => .pure (congrArg Directive.elseIf hc)
  · exact .pure rfl
  · exact .pure rfl
  · exact (InStep.expectOr _ _).bind fun _ _ _ => .pure rfl
  · exact .pure rfl
  · refine InStep.next.bind fun t u hpath => ?_
    rw [← Form.folded.kind_eq hpath]
    split
    · exact .pure rfl
    · exact .pure rfl
    · exact .fail _ _
  · exact InStep.skipAll.bind fun _ _ _ => .pure rfl
  · exact .fail _ _

/-- Lines that fold alike hold directives that fold alike. -/
theorem directive_inStep :
    InStep Form.folded (fun d e => d.folded = e.folded) directive directive := by
  refine .within <| (InStep.expectOr _ _).bind fun _ _ _ => InStep.next.bind fun _ _ hkeyword => ?_
  exact (directiveBody_inStep hkeyword).bind fun _ _ hdirective =>
    directiveEnd_inStep.bind fun _ _ _ => .pure hdirective

end Module
end BuiltInScript
