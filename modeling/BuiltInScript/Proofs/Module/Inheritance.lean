import BuiltInScript.Module.Grammar
import BuiltInScript.Proofs.Parsing.Reports

/-!
# What the grammar inherits from its parts

Many properties are passed on from parts to what is made of them. For such a property it is enough
to look at the ways in which the grammar makes parts, at the statements that are told apart by
looking ahead, and at the loop over the statements of a block. Every other rule inherits it.

**Results.**
* `Inherited.statement`: a statement has a property if the blocks in it do.
* `Inherited.block`: blocks of any depth have it.
* `Inherited.method`, `Inherited.looseStatement`: so have the items of a module.
-/
namespace BuiltInScript.Module

open BuiltInScript.Part

/-- A fault that is about the token where it is found, and no other. -/
def LooksAtFound (fault : Token Kind → Fault Kind) : Prop :=
  ∀ found, (fault found).tokens = [found]

/-- A property that parts pass on to what is made of them. -/
structure Inherited (P : Parse Kind Trees → Prop) : Prop where
  nothing : P (pure [])
  any : P any
  leafOr : ∀ kind {fault}, LooksAtFound fault → P (leafOr kind fault)
  failHere : ∀ {fault}, LooksAtFound fault → P (Parse.failHere fault)
  optional : ∀ kind, P (optional kind)
  leavesWhile : ∀ test, P (leavesWhile test)
  inOrder : ∀ {part parts}, P part → P (inOrder parts) → P (inOrder (part :: parts))
  byKind : ∀ {part}, (∀ kind, P (part kind)) → P (byKind part)
  node : ∀ rule {parts}, rule ≠ .assignment → rule ≠ .call → P (Part.inOrder parts) →
    P (node rule parts)
  within : ∀ name {part}, P part → P (Parse.within name part)
  counting : ∀ {part}, (∀ n, P (part n)) → P (Parse.remaining >>= part)
  /-- One token is within every bound on looking ahead. -/
  second : ∀ {part : Kind → Parse Kind Trees}, (∀ kind, P (part kind)) →
    P (do part (← Parse.lookahead 1).kind)
  whileAt : ∀ kind {part}, P part → P (whileAt kind part)
  separated : ∀ separator {part}, P part → P (separated separator part)
  separatedUpTo : ∀ closer separator {part}, P part → P (separatedUpTo closer separator part)
  expression : ∀ upToAssign, P (expression upToAssign)
  assignmentOrCall : P statementEnd → P assignmentOrCall
  /-- Recovery may need more of a statement than the property. -/
  statements : ∀ depth, P (statement (blockWithin depth)) →
    P (repeating (fun _ => blockTurn (statement (blockWithin depth))) ())

namespace Inherited

variable {P : Parse Kind Trees → Prop} (h : Inherited P)
include h

theorem leaf (kind : Kind) : P (leaf kind) := h.leafOr kind fun _ => rfl

theorem unexpected (wanted : String) : P (Parse.unexpected wanted) := h.failHere fun _ => rfl

/-! ## Rules without blocks -/

theorem operand : P operand := by
  refine h.byKind fun kind => ?_
  split
  · exact h.nothing
  · exact h.expression false

theorem directiveLine : P directiveLine :=
  h.node _ nofun nofun <| h.inOrder h.any <| h.inOrder (h.leavesWhile _) h.nothing

theorem arguments : P arguments := by
  refine h.byKind fun kind => ?_
  split
  · exact h.inOrder h.any <| h.inOrder (h.separatedUpTo _ _ (h.expression false)) <|
      h.inOrder (h.leaf _) h.nothing
  · exact h.nothing

theorem annotationEntry : P annotationEntry := by
  refine h.within _ <| h.node _ nofun nofun <| h.inOrder (h.leaf _) <|
    h.inOrder (h.byKind fun kind => ?_) <| h.inOrder h.arguments h.nothing
  split
  · exact h.any
  · exact h.unexpected _

theorem annotations : P annotations := h.whileAt _ h.annotationEntry

theorem statementEnd : P statementEnd := by
  refine h.byKind fun kind => ?_
  split
  · exact h.any
  · split
    · exact h.nothing
    · exact h.failHere fun _ => rfl

theorem vars : P vars := by
  have hvar : P (Part.node .var [Part.leaf .identifier, Part.optional .kwExport]) :=
    h.node _ nofun nofun <| h.inOrder (h.leaf _) <| h.inOrder (h.optional _) h.nothing
  exact h.within _ <| h.node _ nofun nofun <| h.inOrder (h.leaf _) <|
    h.inOrder (h.separated _ hvar) <| h.inOrder h.statementEnd h.nothing

theorem defaultValue : P defaultValue := by
  refine h.byKind fun kind => ?_
  split
  · exact h.inOrder h.any <| h.inOrder (h.expression false) h.nothing
  · exact h.nothing

theorem param : P param :=
  h.node _ nofun nofun <| h.inOrder h.annotations <| h.inOrder (h.optional _) <|
    h.inOrder (h.leaf _) <| h.inOrder h.defaultValue h.nothing

theorem params : P params :=
  h.within _ <| h.node _ nofun nofun <| h.inOrder (h.leaf _) <|
    h.inOrder (h.separatedUpTo _ _ h.param) <| h.inOrder (h.leaf _) h.nothing

theorem label : P label :=
  h.node _ nofun nofun <| h.inOrder (h.leaf _) <| h.inOrder (h.leaf _) <|
    h.inOrder (h.leaf _) h.nothing

section
variable {rule : Rule} (hassignment : rule ≠ .assignment) (hcall : rule ≠ .call)
include hassignment hcall

theorem bareStatement : P (bareStatement rule) :=
  h.node _ hassignment hcall <| h.inOrder h.any <| h.inOrder h.statementEnd h.nothing

theorem operandStatement : P (operandStatement rule) :=
  h.node _ hassignment hcall <| h.inOrder h.any <| h.inOrder h.operand <|
    h.inOrder h.statementEnd h.nothing

theorem handlerStatement : P (handlerStatement rule) :=
  h.node _ hassignment hcall <| h.inOrder h.any <| h.inOrder (h.expression false) <|
    h.inOrder (h.leaf _) <| h.inOrder (h.expression false) <| h.inOrder h.statementEnd h.nothing

end

theorem executeStatement : P executeStatement :=
  h.node _ nofun nofun <| h.inOrder (h.leaf _) <| h.inOrder (h.expression false) <|
    h.inOrder h.statementEnd h.nothing

theorem gotoStatement : P gotoStatement :=
  h.node _ nofun nofun <| h.inOrder (h.leaf _) <| h.inOrder (h.leaf _) <|
    h.inOrder (h.leaf _) <| h.inOrder h.statementEnd h.nothing

/-! ## Rules with blocks -/

section
variable {block : Parse Kind Trees} (hb : P block)
include hb

theorem elseIfBranch : P (elseIfBranch block) :=
  h.node _ nofun nofun <| h.inOrder h.any <| h.inOrder (h.expression false) <|
    h.inOrder (h.leaf _) <| h.inOrder hb h.nothing

theorem elseBranch : P (elseBranch block) := by
  refine h.byKind fun kind => ?_
  split
  · exact h.node _ nofun nofun <| h.inOrder h.any <| h.inOrder hb h.nothing
  · exact h.nothing

theorem ifStatement : P (ifStatement block) :=
  h.node _ nofun nofun <| h.inOrder (h.leaf _) <| h.inOrder (h.expression false) <|
    h.inOrder (h.leaf _) <| h.inOrder hb <| h.inOrder (h.whileAt _ (h.elseIfBranch hb)) <|
    h.inOrder (h.elseBranch hb) <| h.inOrder (h.leaf _) <| h.inOrder h.statementEnd h.nothing

theorem loopBody : P (loopBody block) :=
  h.inOrder (h.leaf _) <| h.inOrder hb <| h.inOrder (h.leaf _) <|
    h.inOrder h.statementEnd h.nothing

theorem whileLoop : P (whileLoop block) :=
  h.node _ nofun nofun <| h.inOrder (h.leaf _) <| h.inOrder (h.expression false) <|
    h.inOrder (h.loopBody hb) h.nothing

theorem forLoop : P (forLoop block) :=
  h.node _ nofun nofun <| h.inOrder (h.leaf _) <| h.inOrder (h.leaf _) <|
    h.inOrder (h.leaf _) <| h.inOrder (h.expression false) <| h.inOrder (h.leaf _) <|
    h.inOrder (h.expression false) <| h.inOrder (h.loopBody hb) h.nothing

theorem forEachLoop : P (forEachLoop block) :=
  h.node _ nofun nofun <| h.inOrder (h.leaf _) <| h.inOrder (h.leaf _) <|
    h.inOrder (h.leaf _) <| h.inOrder (h.leaf _) <| h.inOrder (h.expression false) <|
    h.inOrder (h.loopBody hb) h.nothing

theorem anyForLoop : P (anyForLoop block) := by
  have hloop (kind : Kind) :
      P (if kind = .kwEach then Module.forEachLoop block else Module.forLoop block) := by
    split
    · exact h.forEachLoop hb
    · exact h.forLoop hb
  exact h.second hloop

theorem tryStatement : P (tryStatement block) := by
  have hexcept : P (Part.node .exceptBranch [Part.leaf .kwExcept, block]) :=
    h.node _ nofun nofun <| h.inOrder (h.leaf _) <| h.inOrder hb h.nothing
  exact h.node _ nofun nofun <| h.inOrder (h.leaf _) <| h.inOrder hb <| h.inOrder hexcept <|
    h.inOrder (h.leaf _) <| h.inOrder h.statementEnd h.nothing

theorem statement : P (statement block) := by
  refine h.within _ <| h.byKind fun kind => ?_
  split
  · exact h.node _ nofun nofun <| h.inOrder h.any h.nothing
  · exact h.directiveLine
  · exact h.label
  · exact h.vars
  · exact h.ifStatement hb
  · exact h.whileLoop hb
  · exact h.anyForLoop hb
  · exact h.tryStatement hb
  · exact h.operandStatement nofun nofun
  · exact h.operandStatement nofun nofun
  · exact h.bareStatement nofun nofun
  · exact h.bareStatement nofun nofun
  · exact h.executeStatement
  · exact h.gotoStatement
  · exact h.handlerStatement nofun nofun
  · exact h.handlerStatement nofun nofun
  · exact h.assignmentOrCall h.statementEnd

end

/-! ## Blocks and the items of a module -/

/-- Blocks of any depth, by induction on it. -/
theorem blockWithin (depth : Nat) : P (blockWithin depth) := by
  induction depth with
  | zero => exact h.within _ <| h.node _ nofun nofun h.nothing
  | succ depth ih =>
    have hstatements := h.statements depth (h.statement ih)
    exact h.within _ <| h.node _ nofun nofun <| h.inOrder hstatements h.nothing

theorem block : P block := h.counting h.blockWithin

theorem methodRest {closer : Kind} : P (methodRest closer) :=
  h.inOrder h.any <| h.inOrder (h.leaf _) <| h.inOrder h.params <| h.inOrder (h.optional _) <|
    h.inOrder h.block <| h.inOrder (h.leafOr _ fun _ => rfl) h.nothing

theorem method : P method := by
  refine h.within _ <| h.node _ nofun nofun <| h.inOrder h.annotations <|
    h.inOrder (h.optional _) <| h.inOrder (h.byKind fun kind => ?_) h.nothing
  split
  · exact h.methodRest
  · exact h.methodRest
  · exact h.unexpected _

theorem looseStatement (kind : Kind) : P (looseStatement kind) := by
  unfold Module.looseStatement
  split
  · exact h.unexpected _
  · exact h.counting fun n => h.statement (h.blockWithin n)

end Inherited
end BuiltInScript.Module
