import BuiltInScript.Diagnostic

/-!
# Where diagnostics go

A sink takes diagnostics one after another and keeps none of them, all of them, or the gravest.
-/
namespace BuiltInScript

/-- Mirrors the sinks of `DiagnosticSink`. -/
inductive Sink where
  | discard
  | all (kept : List Diagnostic)
  | gravest (kept : Option Diagnostic)
deriving DecidableEq, Repr

namespace Sink

/-- Of two diagnostics of one severity, the earlier stays the gravest. Mirrors
`DiagnosticSink.emit`. -/
def emit (d : Diagnostic) : Sink → Sink
  | discard => discard
  | all kept => all (kept ++ [d])
  | gravest none => gravest (some d)
  | gravest (some old) => if d.severity ≤ old.severity then gravest (some old) else gravest (some d)

/-- Mirrors `pipe_all_diagnostics_into`. -/
def emitAll (s : Sink) (ds : List Diagnostic) : Sink := ds.foldl (fun s d => s.emit d) s

@[simp] theorem emitAll_discard (ds : List Diagnostic) : discard.emitAll ds = discard := by
  induction ds with
  | nil => rfl
  | cons d ds ih => exact ih

/-- A sink that keeps all keeps them in order. -/
@[simp] theorem emitAll_all (kept ds : List Diagnostic) :
    (all kept).emitAll ds = all (kept ++ ds) := by
  induction ds generalizing kept with
  | nil => simp [emitAll]
  | cons d ds ih => exact (ih (kept ++ [d])).trans (by simp)

end Sink
end BuiltInScript
