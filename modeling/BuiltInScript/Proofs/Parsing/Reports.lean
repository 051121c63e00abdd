import BuiltInScript.Proofs.Parsing.Action

/-!
# What parsers report

Several diagnostics are reported one after another, and every diagnostic of a parser tells of a
fault: it is an error, and its labels point at the tokens that the fault is about.

**Results.**
* `diagnostics_addAll`, `errorCount_addAll`: what a report holds when more has been reported.
* `Fault.spans_labels`: a fault points at its tokens.
* `Reported.isError`, `Reported.spans_labels`: so does what is reported of it.
-/
namespace BuiltInScript

/-! ## Several diagnostics -/

namespace Report

def addAll (r : Report) (ds : List Diagnostic) : Report := ds.foldl add r

theorem addAll_append (r : Report) (a b : List Diagnostic) :
    r.addAll (a ++ b) = (r.addAll a).addAll b := List.foldl_append

@[simp] theorem mode_addAll (r : Report) (ds : List Diagnostic) :
    (r.addAll ds).mode = r.mode := by
  induction ds generalizing r with
  | nil => rfl
  | cons d ds ih => exact ih (r.add d)

theorem diagnostics_addAll (r : Report) (ds : List Diagnostic) :
    (r.addAll ds).diagnostics = r.diagnostics ++ ds := by
  induction ds generalizing r with
  | nil => exact (List.append_nil _).symm
  | cons d ds ih => exact (ih (r.add d)).trans (by simp)

theorem errorCount_addAll (r : Report) (ds : List Diagnostic) :
    (r.addAll ds).errorCount = r.errorCount + ds.countP Diagnostic.isError := by
  induction ds generalizing r with
  | nil => rfl
  | cons d ds ih =>
    refine (ih (r.add d)).trans ?_
    rw [errorCount_add, List.countP_cons, Nat.add_assoc, Nat.add_comm d.isError.toNat]
    cases d.isError <;> rfl

end Report

/-- The parser when some more has been reported. -/
def Parser.reporting {K : Type} (p : Parser K) (ds : List Diagnostic) : Parser K :=
  { p with report := p.report.addAll ds }

@[simp] theorem Parser.reporting_nil {K : Type} (p : Parser K) : p.reporting [] = p := rfl

/-! ## Faults and their tokens -/

variable {K : Type}

/-- The tokens that a fault is about: the one where it was found, and one before it that it looks
back at. -/
def Fault.tokens : Fault K → List (Token K)
  | .unclosedBracket _ found opener | .mismatchedBracket _ found opener => [found, opener]
  | .unknownDirective found hash => [found, hash]
  | .expected _ found | .unexpected _ found | .unterminatedStatement found
  | .unterminatedMethod _ found | .missingRegionName found | .missingLibraryName found
  | .missingThen found | .missingSymbol found | .extraAfterDirective found => [found]

theorem Fault.found_mem_tokens (fault : Fault K) : fault.found ∈ fault.tokens := by
  cases fault <;> exact List.mem_cons_self

variable [TokenKind K]

theorem Fault.spans_labels (fault : Fault K) :
    fault.labels.map Label.span = fault.tokens.map Token.span := by
  cases fault <;> rfl

/-- What is reported of a fault about tokens of a sort. -/
inductive Reported (Q : Token K → Prop) : Diagnostic → Prop
  | of (fault : Fault K) (scopes : List String) : (∀ t ∈ fault.tokens, Q t) →
      Reported Q (fault.diagnostic.withNote (Parse.traceback scopes))

namespace Reported

variable {Q : Token K → Prop} {d : Diagnostic}

theorem isError (h : Reported Q d) : d.isError = true := by
  cases h
  rfl

/-- Every label points at a token of the sort. -/
theorem spans_labels (h : Reported Q d) {label : Label} (hl : label ∈ d.labels) :
    ∃ t, Q t ∧ label.span = t.span := by
  obtain ⟨fault, scopes, htokens⟩ := h
  have hspan : label.span ∈ fault.labels.map Label.span := List.mem_map_of_mem hl
  rw [fault.spans_labels, List.mem_map] at hspan
  obtain ⟨t, ht, hspan⟩ := hspan
  exact ⟨t, htokens t ht, hspan.symm⟩

end Reported
end BuiltInScript
