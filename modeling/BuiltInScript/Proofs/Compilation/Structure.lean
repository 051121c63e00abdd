import BuiltInScript.Proofs.Compilation.Selection

/-!
# What does not depend on the symbols

Symbols only decide the flags of open blocks, and the flags only decide what code is selected.
The outline of a scan is what is left without both: where blocks, regions and zones began, which
of them have ended, and what was reported. A directive does the same to an outline whatever the
symbols, so modules compiled for different places have the same regions and zones.

**Results.**
* `Scan.outline_apply`, `Scan.outline_step`: what a directive does to the outline takes no symbols.
* `Scan.outline_run`: neither does a whole scan.
* `preprocess_structure`: regions, zones and what is reported before the parse are those of every
  other symbol table.
-/
namespace BuiltInScript.Compilation

open BuiltInScript.Module

/-- A block without its flags: only where it began. -/
def Frame.outline (f : Frame) : Frame := ⟨false, false, f.opener⟩

namespace ConditionStack

def outline (s : ConditionStack) : ConditionStack := ⟨s.frames.map Frame.outline⟩

section
variable (s : ConditionStack)

@[simp] theorem outline_outline : s.outline.outline = s.outline := by
  simp [outline, Frame.outline]

theorem outline_openIf (chosen chosen' : Bool) (opener : Span) :
    (s.openIf chosen opener).outline = (s.outline.openIf chosen' opener).outline := by
  simp [outline, openIf, Frame.outline]

theorem outline_elseIf (chosen chosen' : Bool) :
    (s.elseIf chosen).map outline = (s.outline.elseIf chosen').map outline := by
  obtain ⟨frames⟩ := s
  cases frames <;> simp [outline, elseIf, Frame.outline, Except.map]

theorem outline_otherwise : s.otherwise.map outline = s.outline.otherwise.map outline := by
  obtain ⟨frames⟩ := s
  cases frames <;> simp [outline, otherwise, Frame.outline, Except.map]

theorem outline_endIf : s.endIf.map outline = s.outline.endIf.map outline := by
  obtain ⟨frames⟩ := s
  cases frames <;> simp [outline, endIf, Frame.outline, Except.map]

theorem unclosed_outline : s.outline.unclosed = s.unclosed := by
  simp [outline, unclosed, Frame.outline]

end
end ConditionStack

namespace Scan

/-- A scan without the flags of its blocks and the code it selected. -/
def outline (s : Scan) : Scan := { s with conditions := s.conditions.outline, code := [] }

section
variable (s : Scan) (span : Span) (range : TokenRange)

@[simp] theorem outline_outline : s.outline.outline = s.outline := by simp [outline]

theorem outline_setConditions (result : Except ConditionError ConditionStack) :
    (s.setConditions span result).outline =
      s.outline.setConditions span (result.map ConditionStack.outline) := by
  cases result <;> rfl

theorem outline_endRegion : (s.endRegion span range).outline = s.outline.endRegion span range := by
  obtain ⟨_, openRegions, _⟩ := s
  cases openRegions <;> rfl

theorem outline_openZone (kind : ZoneKind) :
    (s.openZone kind span range).outline = s.outline.openZone kind span range := by
  obtain ⟨_, _, openInsert, openDelete, _⟩ := s
  cases kind <;> cases openInsert <;> cases openDelete <;> rfl

theorem outline_closeZone (kind : ZoneKind) :
    (s.closeZone kind span range).outline = s.outline.closeZone kind span range := by
  obtain ⟨_, _, openInsert, openDelete, _⟩ := s
  cases kind <;> cases openInsert <;> cases openDelete <;> rfl

/-- What a directive does to the outline takes no symbols. -/
theorem outline_apply (symbols symbols' : SymbolTable) (directive : Directive) :
    (s.apply symbols span range directive).outline =
      (s.outline.apply symbols' span range directive).outline := by
  have hset {result result' : Except ConditionError ConditionStack}
      (h : result.map ConditionStack.outline = result'.map ConditionStack.outline) :
      (s.setConditions span result).outline = (s.outline.setConditions span result').outline := by
    rw [outline_setConditions, outline_setConditions, outline_outline, h]
  cases directive with
  | ifBlock condition =>
    have hopen := s.conditions.outline_openIf (holds symbols condition)
      (holds symbols' condition) span
    exact congrArg (fun conditions => { s.outline with conditions }) hopen
  | elseIf condition => exact hset (s.conditions.outline_elseIf _ _)
  | otherwise => exact hset s.conditions.outline_otherwise
  | endIf => exact hset s.conditions.outline_endIf
  | endRegion => simp only [apply, outline_endRegion, outline_outline]
  | insert | delete => simp only [apply, outline_openZone, outline_outline]
  | endInsert | endDelete => simp only [apply, outline_closeZone, outline_outline]
  | region name => simp [apply, outline]
  | use _ | shebang => exact s.outline_outline.symm

end

theorem outline_step (symbols symbols' : SymbolTable) (s : Scan) (event : Event) :
    (s.step symbols event).outline = (s.outline.step symbols' event).outline := by
  cases event with
  | directive reported found span range =>
    cases found with
    | none => exact ({ s with diagnostics := s.diagnostics ++ reported }).outline_outline.symm
    | some directive =>
      exact ({ s with diagnostics := s.diagnostics ++ reported }).outline_apply span range symbols
        symbols' directive
  | other token =>
    -- Only the code may grow, and the outline has none.
    have hother (symbols : SymbolTable) (s : Scan) :
        (s.step symbols (.other token)).outline = s.outline := by
      rw [step]
      split <;> rfl
    rw [hother, hother, outline_outline]

/-- Two scans of the same directives that begin with one outline end with one outline. -/
theorem outline_run (symbols symbols' : SymbolTable) {s t : Scan} (h : s.outline = t.outline)
    (events : List Event) :
    (events.foldl (step symbols) s).outline = (events.foldl (step symbols') t).outline := by
  induction events generalizing s t with
  | nil => exact h
  | cons event events ih =>
    rw [List.foldl_cons, List.foldl_cons]
    refine ih ?_
    rw [outline_step symbols symbols', h, ← outline_step symbols' symbols']

theorem outline_finish (s : Scan) (tokens : List (Token Kind)) :
    (s.finish tokens).outline = s.outline.finish tokens := by
  have hunclosed : s.outline.unclosed = s.unclosed := by
    rw [unclosed, unclosed, ← s.conditions.unclosed_outline]
    rfl
  rw [finish, finish, hunclosed]
  rfl

end Scan

namespace Preprocessor

/-- A scan for other symbols has the same outline. -/
theorem outline_scan (p q : Preprocessor) (tokens : List (Token Kind)) :
    (p.scan tokens).1.outline = (q.scan tokens).1.outline := by
  have hscan (p : Preprocessor) : (p.scan tokens).1.outline =
      (((piecesFrom 0 tokens).map Piece.event).foldl (Scan.step p.symbols) {}).outline.finish
        tokens := by
    rw [← Scan.outline_finish, ← readPieces_eq_map p.report]
    rfl
  rw [hscan, hscan, Scan.outline_run p.symbols q.symbols rfl]

end Preprocessor

/-- **Structure.** Regions and patch zones do not depend on what is compiled: for any two symbol
tables they are the same, in the same order. So is what is reported before the compiled code is
parsed, and what the parse of that code reports comes after it. -/
theorem preprocess_structure (p q : Preprocessor) (tokens : List (Token Kind)) :
    (p.preprocess tokens).1.regions = (q.preprocess tokens).1.regions ∧
      (p.preprocess tokens).1.zones = (q.preprocess tokens).1.zones ∧
      (p.scan tokens).1.diagnostics = (q.scan tokens).1.diagnostics ∧
      (p.preprocess tokens).1.diagnostics = (p.scan tokens).1.diagnostics ++
        (moduleLanguage.parse {} (p.preprocess tokens).1.tokens).1.diagnostics ∧
      (q.preprocess tokens).1.diagnostics = (p.scan tokens).1.diagnostics ++
        (moduleLanguage.parse {} (q.preprocess tokens).1.tokens).1.diagnostics := by
  have houtline := p.outline_scan q tokens
  have hregions : (p.scan tokens).1.regions = (q.scan tokens).1.regions :=
    (congrArg Scan.regions houtline :)
  have hzones : (p.scan tokens).1.zones = (q.scan tokens).1.zones :=
    (congrArg Scan.zones houtline :)
  have hreported : (p.scan tokens).1.diagnostics = (q.scan tokens).1.diagnostics :=
    (congrArg Scan.diagnostics houtline :)
  -- A parse forgets the report that the parser was left with.
  have hparsed (p : Preprocessor) : (p.preprocess tokens).1.diagnostics =
      (p.scan tokens).1.diagnostics ++
        (moduleLanguage.parse {} (p.preprocess tokens).1.tokens).1.diagnostics := by
    unfold Preprocessor.preprocess
    dsimp only
    rw [moduleLanguage.parse_report (p.scan tokens).2 {}]
  refine ⟨hregions, hzones, hreported, hparsed p, ?_⟩
  rw [hreported]
  exact hparsed q

end BuiltInScript.Compilation
