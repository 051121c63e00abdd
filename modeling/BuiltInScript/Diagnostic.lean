import BuiltInScript.Source.Span

/-!
# Diagnostics

What the front end reports about a source: a message, labelled places, and notes below them.
-/
namespace BuiltInScript

/-- From the mildest to the gravest. -/
inductive Severity where
  | help | note | warning | error | bug
deriving DecidableEq, Repr, Inhabited

def Severity.rank : Severity → Nat
  | .help => 0
  | .note => 1
  | .warning => 2
  | .error => 3
  | .bug => 4

instance : LE Severity := ⟨fun a b => a.rank ≤ b.rank⟩

instance (a b : Severity) : Decidable (a ≤ b) := inferInstanceAs (Decidable (a.rank ≤ b.rank))

theorem Severity.le_total (a b : Severity) : a ≤ b ∨ b ≤ a := Nat.le_total a.rank b.rank

theorem Severity.le_trans {a b c : Severity} (h₁ : a ≤ b) (h₂ : b ≤ c) : a ≤ c :=
  Nat.le_trans (m := b.rank) h₁ h₂

theorem Severity.le_antisymm {a b : Severity} (h₁ : a ≤ b) (h₂ : b ≤ a) : a = b := by
  have : a.rank = b.rank := Nat.le_antisymm h₁ h₂
  cases a <;> cases b <;> simp_all [Severity.rank]

instance : ToString Severity :=
  ⟨fun
    | .help => "help"
    | .note => "note"
    | .warning => "warning"
    | .error => "error"
    | .bug => "bug"⟩

/-- A primary label marks what is wrong, a secondary one what has to do with it. -/
inductive LabelStyle where
  | primary | secondary
deriving DecidableEq, Repr, Inhabited

/-- Mirrors `Label`. -/
structure Label where
  style : LabelStyle
  span : Span
  message : String
deriving DecidableEq, Repr, Inhabited

/-- Mirrors `Label.primary`. -/
def Label.primary (span : Span) (message : String) : Label := ⟨.primary, span, message⟩

/-- Mirrors `Label.secondary`. -/
def Label.secondary (span : Span) (message : String) : Label := ⟨.secondary, span, message⟩

/-- Debug notes tell about the parser rather than the source. Mirrors `NoteKind`. -/
inductive NoteKind where
  | note | debug
deriving DecidableEq, Repr, Inhabited

instance : ToString NoteKind :=
  ⟨fun
    | .note => "note"
    | .debug => "debug"⟩

/-- Mirrors `Note`. -/
structure Note where
  kind : NoteKind
  text : String
deriving DecidableEq, Repr, Inhabited

/-- Mirrors `Diagnostic`. -/
structure Diagnostic where
  severity : Severity
  message : String
  labels : List Label := []
  notes : List Note := []
deriving DecidableEq, Repr, Inhabited

namespace Diagnostic

/-- An error at the given labels. Mirrors `Diagnostic.error` and `Diagnostic.with_label`. -/
def error (message : String) (labels : List Label := []) : Diagnostic :=
  { severity := .error, message, labels }

/-- Mirrors `Diagnostic.with_note`. -/
def withNote (d : Diagnostic) (note : Note) : Diagnostic := { d with notes := d.notes ++ [note] }

/-- Counted as an error. Mirrors `Diagnostic.is_error`. -/
def isError (d : Diagnostic) : Bool := .error ≤ d.severity

@[simp] theorem isError_error (message : String) (labels : List Label) :
    (error message labels).isError = true := rfl

@[simp] theorem isError_withNote (d : Diagnostic) (note : Note) :
    (d.withNote note).isError = d.isError := rfl

end Diagnostic
end BuiltInScript
