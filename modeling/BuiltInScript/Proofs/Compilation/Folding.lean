import BuiltInScript.Proofs.Compilation.Selection
import BuiltInScript.Proofs.Languages
import BuiltInScript.Proofs.Module.Folding
import BuiltInScript.Proofs.Module.Likeness

/-!
# Compilation without regard to case

What a scan does goes by the kinds of tokens, by their places in the token list, and by the value of
conditions, and a condition has the same value in every spelling. So two modules that are the same
when folded are compiled from the same tokens into trees of the same shape, with as many
diagnostics.

**Results.**
* `SymbolTable.eval_folded`: a condition has the same value in every spelling.
* `piecesFrom_folded`, `event_folded`: modules that fold alike fall into pieces that fold alike, and
  their directives are read alike.
* `Scan.folded_step`, `Scan.folded_run`: a scan does the same in every spelling.
* `case_insensitive`: so does the front end as a whole.
-/
namespace BuiltInScript

/-- A diagnostic of which only the gravity is told. -/
def Diagnostic.bare (d : Diagnostic) : Diagnostic := { severity := d.severity, message := "" }

theorem Diagnostic.map_bare_eq {a b : List Diagnostic}
    (h : a.map Diagnostic.severity = b.map Diagnostic.severity) :
    a.map Diagnostic.bare = b.map Diagnostic.bare := by
  have hbare (diagnostics : List Diagnostic) : diagnostics.map Diagnostic.bare =
      (diagnostics.map Diagnostic.severity).map fun severity => { severity, message := "" } := by
    rw [List.map_map]
    rfl
  rw [hbare, hbare, h]

namespace Compilation

open BuiltInScript.Module

/-! ## Conditions -/

namespace SymbolTable

variable (t : SymbolTable)

theorem hasName_fold (name : String) : t.hasName (Text.fold name) = t.hasName name := by
  have hsame : ((⟨Text.fold name⟩ : Name) == ⟨name⟩) = true :=
    Name.beq_iff.2 (Text.fold_eq_fold_iff.1 (Text.fold_fold name))
  simp only [hasName, NameSet.contains, BEq.congr_right hsame]

/-- A condition has the same value in every spelling. -/
theorem eval_folded (c : Condition) : t.eval c.folded = t.eval c := by
  unfold eval
  induction c with
  | symbol s => rfl
  | unknown n => exact t.hasName_fold n
  | not c ih => rw [Condition.folded, Condition.eval, ih, Condition.eval]
  | and a b iha ihb => rw [Condition.folded, Condition.eval, iha, ihb, Condition.eval]
  | or a b iha ihb => rw [Condition.folded, Condition.eval, iha, ihb, Condition.eval]

theorem holds_folded (c : Option Condition) :
    Scan.holds t (c.map Condition.folded) = Scan.holds t c := by
  cases c with
  | none => rfl
  | some c => exact t.eval_folded c

end SymbolTable

/-! ## Pieces -/

theorem lineRest_map_folded (tokens : List (Token Kind)) :
    lineRest (tokens.map Token.folded) =
      ((lineRest tokens).1.map Token.folded, (lineRest tokens).2) := by
  induction tokens with
  | nil => rfl
  | cons t ts ih =>
    rw [List.map_cons, lineRest, lineRest, t.kind_folded, t.channels_folded, t.isEnd_folded]
    split
    · rfl
    · split
      · rfl
      · dsimp only
        rw [ih]
        split <;> rfl

/-- A piece with its tokens folded. -/
def Piece.folded : Piece → Piece
  | .marker directive token range => .marker directive token.folded range
  | .line hash tokens range => .line hash.folded (tokens.map Token.folded) range
  | .other token => .other token.folded

theorem piecesFrom_folded (position : Nat) (tokens : List (Token Kind)) :
    piecesFrom position (tokens.map Token.folded) =
      (piecesFrom position tokens).map Piece.folded := by
  fun_induction piecesFrom position tokens with
  | case1 => simp [piecesFrom]
  | case2 position t ts directive hmarker ih => simp [piecesFrom, hmarker, ih, Piece.folded]
  | case3 position t ts hmarker hend => simp [piecesFrom, hmarker, hend]
  | case4 position t ts hmarker hend hhash line n hrest ih =>
    rw [hhash] at hmarker
    simp [piecesFrom, hmarker, hend, hhash, lineRest_map_folded, hrest, ← List.map_drop, ih,
      Piece.folded]
  | case5 position t ts hmarker hend hhash ih =>
    simp [piecesFrom, hmarker, hend, hhash, ih, Piece.folded]

/-! ## Directives -/

/-- An event with its directive folded, and without the bytes that the directive takes. -/
def Event.folded : Event → Event
  | .directive reported found _ range =>
    .directive (reported.map Diagnostic.bare) (found.map Directive.folded) {} range
  | .other token => .other token.folded

/-- Lines that fold alike are read alike. -/
theorem readLine_folded {line line' : List (Token Kind)}
    (h : line.map Token.folded = line'.map Token.folded) :
    (readLine {} line).1.map Diagnostic.bare = (readLine {} line').1.map Diagnostic.bare ∧
      (directiveOf line).map Directive.folded = (directiveOf line').map Directive.folded := by
  have hbegin : Parser.Like Form.folded
      { cursor := .onCode line, report := { mode := .general } }
      { cursor := .onCode line', report := { mode := .general } } :=
    ⟨Cursor.onCode_folded h, rfl⟩
  have houtcome := directive_inStep hbegin
  unfold readLine directiveOf Parse.runOn
  rw [Report.setMode_reset]
  generalize directive { cursor := .onCode line, report := { mode := .general } } = r,
    directive { cursor := .onCode line', report := { mode := .general } } = s at houtcome ⊢
  cases houtcome with
  | ok hdirective hp =>
    obtain ⟨-, -, hseverities⟩ := Report.summary_eq_iff.1 hp.report
    exact ⟨Diagnostic.map_bare_eq hseverities, congrArg some hdirective⟩
  | error hp =>
    obtain ⟨-, -, hseverities⟩ := Report.summary_eq_iff.1 hp.report
    exact ⟨Diagnostic.map_bare_eq hseverities, rfl⟩

/-- What is read of a piece is the same in every spelling. -/
theorem event_folded (piece : Piece) : piece.folded.event.folded = piece.event.folded := by
  cases piece with
  | marker directive token range => rfl
  | line hash tokens range =>
    have hline : (hash.folded :: tokens.map Token.folded).map Token.folded =
        (hash :: tokens).map Token.folded := by simp
    obtain ⟨hreported, hfound⟩ := readLine_folded hline
    simp only [Piece.folded, Piece.event, Event.folded, hreported, hfound]
  | other token => simp [Piece.folded, Piece.event, Event.folded]

/-- Modules that fold alike have the same events, as far as a scan goes by them. -/
theorem events_folded {tokens tokens' : List (Token Kind)}
    (h : tokens.map Token.folded = tokens'.map Token.folded) :
    ((piecesFrom 0 tokens).map Piece.event).map Event.folded =
      ((piecesFrom 0 tokens').map Piece.event).map Event.folded := by
  have hpieces (tokens : List (Token Kind)) :
      ((piecesFrom 0 tokens).map Piece.event).map Event.folded =
        (piecesFrom 0 (tokens.map Token.folded)).map (Event.folded ∘ Piece.event) := by
    rw [piecesFrom_folded, List.map_map, List.map_map]
    exact List.map_congr_left fun piece _ => (event_folded piece).symm
  rw [hpieces, hpieces, h]

/-! ## Scans -/

/-- A block without the place where it began. -/
def Frame.folded (f : Frame) : Frame := { f with opener := {} }

def Opening.folded (o : Opening) : Opening := { o with span := {} }

/-- An open region without its name. -/
def OpenRegion.folded (r : OpenRegion) : OpenRegion := ⟨"", r.opening.folded⟩

def Region.folded (r : Region) : Region := ⟨"", {}, r.tokens⟩

def Zone.folded (z : Zone) : Zone := { z with span := {} }

namespace ConditionStack

def folded (s : ConditionStack) : ConditionStack := ⟨s.frames.map Frame.folded⟩

variable (s : ConditionStack)

@[simp] theorem folded_folded : s.folded.folded = s.folded := by
  simp [folded, Frame.folded]

theorem compiledIn_map_folded (frames : List Frame) :
    compiledIn (frames.map Frame.folded) = compiledIn frames := by
  cases frames <;> rfl

theorem isCompiled_folded : s.folded.isCompiled = s.isCompiled := compiledIn_map_folded s.frames

theorem folded_openIf (chosen : Bool) (opener : Span) :
    (s.openIf chosen opener).folded = s.folded.openIf chosen {} := by
  rw [openIf, openIf, isCompiled_folded]
  rfl

theorem folded_elseIf (chosen : Bool) :
    (s.elseIf chosen).map folded = s.folded.elseIf chosen := by
  obtain ⟨frames⟩ := s
  cases frames with
  | nil => rfl
  | cons frame outer =>
    simp [elseIf, folded, compiledIn_map_folded, Except.map, Frame.folded]

theorem folded_otherwise : s.otherwise.map folded = s.folded.otherwise := by
  obtain ⟨frames⟩ := s
  cases frames with
  | nil => rfl
  | cons frame outer =>
    simp [otherwise, folded, compiledIn_map_folded, Except.map, Frame.folded]

theorem folded_endIf : s.endIf.map folded = s.folded.endIf := by
  obtain ⟨frames⟩ := s
  cases frames <;> rfl

end ConditionStack

namespace Scan

/-- What is left of a scan in every spelling: no bytes, no names, and of diagnostics only their
number and gravity. -/
def folded (s : Scan) : Scan where
  conditions := s.conditions.folded
  openRegions := s.openRegions.map OpenRegion.folded
  openInsert := s.openInsert.map Opening.folded
  openDelete := s.openDelete.map Opening.folded
  code := s.code.map Token.folded
  regions := s.regions.map Region.folded
  zones := s.zones.map Zone.folded
  diagnostics := s.diagnostics.map Diagnostic.bare

section
variable (s : Scan) (span : Span) (range : TokenRange)

@[simp] theorem folded_folded : s.folded.folded = s.folded := by
  simp only [folded, List.map_map, Option.map_map, Function.comp_def, Token.folded_folded,
    ConditionStack.folded_folded]
  rfl

/-- All faults of structure are errors. -/
theorem folded_report (fault fault' : StructureFault) :
    (s.report fault).folded = (s.folded.report fault').folded := by
  have hfolded : ∀ s : Scan, ∀ fault : StructureFault, (s.report fault).folded =
      { s.folded with diagnostics := s.folded.diagnostics ++ [⟨.error, "", [], []⟩] } := by
    intro s fault
    simp only [report, folded, List.map_append]
    rfl
  rw [hfolded, hfolded, folded_folded]

/-- What a step does exactly to what is left of a scan, it does up to what is left. -/
theorem folded_of_eq {s t : Scan} (h : s.folded = t) : s.folded = t.folded := by
  rw [← h, folded_folded]

theorem folded_setConditions (result : Except ConditionError ConditionStack) :
    (s.setConditions span result).folded =
      (s.folded.setConditions {} (result.map ConditionStack.folded)).folded := by
  cases result with
  | ok conditions => exact folded_of_eq rfl
  | error cause => exact s.folded_report _ _

theorem folded_endRegion :
    (s.endRegion span range).folded = (s.folded.endRegion {} range).folded := by
  obtain ⟨_, openRegions, _⟩ := s
  cases openRegions with
  | nil => exact folded_report _ _ _
  | cons region outer =>
    refine folded_of_eq ?_
    simp [endRegion, folded, Region.folded, OpenRegion.folded, Opening.folded]

theorem folded_openZone (kind : ZoneKind) :
    (s.openZone kind span range).folded = (s.folded.openZone kind {} range).folded := by
  obtain ⟨_, _, openInsert, openDelete, _⟩ := s
  cases kind <;> cases openInsert <;> cases openDelete <;>
    first | exact folded_of_eq rfl | exact folded_report _ _ _

theorem folded_closeZone (kind : ZoneKind) :
    (s.closeZone kind span range).folded = (s.folded.closeZone kind {} range).folded := by
  obtain ⟨_, _, openInsert, openDelete, _⟩ := s
  cases kind <;> cases openInsert <;> cases openDelete <;>
    first
    | exact folded_report _ _ _
    | exact folded_of_eq (by simp [closeZone, addZone, folded, Zone.folded, Opening.folded])

/-- A directive does the same in every spelling. -/
theorem folded_apply (symbols : SymbolTable) (directive : Directive) :
    (s.apply symbols span range directive).folded =
      (s.folded.apply symbols {} range directive.folded).folded := by
  have hset {result result' : Except ConditionError ConditionStack}
      (h : result.map ConditionStack.folded = result') :
      (s.setConditions span result).folded = (s.folded.setConditions {} result').folded :=
    h ▸ s.folded_setConditions span result
  cases directive with
  | ifBlock condition =>
    refine folded_of_eq ?_
    rw [Directive.folded, apply, apply, symbols.holds_folded]
    exact congrArg (fun conditions => { s.folded with conditions })
      (s.conditions.folded_openIf (holds symbols condition) span)
  | elseIf condition =>
    rw [Directive.folded, apply, apply, symbols.holds_folded]
    exact hset (s.conditions.folded_elseIf _)
  | otherwise => exact hset s.conditions.folded_otherwise
  | endIf => exact hset s.conditions.folded_endIf
  | region name => exact folded_of_eq rfl
  | endRegion => exact s.folded_endRegion span range
  | insert | delete => exact s.folded_openZone span range _
  | endInsert | endDelete => exact s.folded_closeZone span range _
  | use _ | shebang => exact s.folded_folded.symm

end

theorem folded_step (symbols : SymbolTable) (s : Scan) (event : Event) :
    (s.step symbols event).folded = (s.folded.step symbols event.folded).folded := by
  cases event with
  | directive reported found span range =>
    have hreported : { s with diagnostics := s.diagnostics ++ reported }.folded =
        { s.folded with diagnostics := s.folded.diagnostics ++ reported.map Diagnostic.bare } := by
      simp [folded]
    cases found with
    | none => exact folded_of_eq hreported
    | some directive =>
      have happly := folded_apply { s with diagnostics := s.diagnostics ++ reported } span range
        symbols directive
      rw [hreported] at happly
      exact happly
  | other token =>
    rw [Event.folded, step, step, token.channels_folded]
    have hcompiled : s.folded.conditions.isCompiled = s.conditions.isCompiled :=
      s.conditions.isCompiled_folded
    rw [hcompiled]
    split
    · exact folded_of_eq (by simp [folded])
    · exact s.folded_folded.symm

/-- Scans of events that are the same in every spelling go the same way. -/
theorem folded_run (symbols : SymbolTable) {s t : Scan} (h : s.folded = t.folded)
    {events events' : List Event} (he : events.map Event.folded = events'.map Event.folded) :
    (events.foldl (step symbols) s).folded = (events'.foldl (step symbols) t).folded := by
  induction events generalizing s t events' with
  | nil =>
    obtain rfl := List.map_eq_nil_iff.1 he.symm
    exact h
  | cons event events ih =>
    obtain ⟨event', events', rfl, hevent, hevents⟩ := List.map_eq_cons_iff.1 he.symm
    rw [List.foldl_cons, List.foldl_cons]
    refine ih ?_ hevents.symm
    rw [folded_step, folded_step symbols t, h, hevent]

theorem folded_unclosedDeletion (opening : Opening) (tokens : List (Token Kind)) :
    (unclosedDeletion opening tokens).folded =
      (unclosedDeletion opening.folded (tokens.map Token.folded)).folded := by
  unfold unclosedDeletion
  dsimp only
  rw [List.length_map]
  rfl

theorem folded_finish (s : Scan) (tokens : List (Token Kind)) :
    (s.finish tokens).folded = (s.folded.finish (tokens.map Token.folded)).folded := by
  have htoList (o : Option Opening) :
      (o.map Opening.folded).toList = o.toList.map Opening.folded := by
    cases o <;> rfl
  have hunclosed : s.folded.unclosed.length = s.unclosed.length := by
    simp [unclosed, ConditionStack.unclosed, folded, ConditionStack.folded, htoList]
  have hzones : (s.folded.openDelete.toList.map
      fun opening => unclosedDeletion opening (tokens.map Token.folded)).map Zone.folded =
      (s.openDelete.toList.map fun opening => unclosedDeletion opening tokens).map Zone.folded := by
    rw [folded, htoList, List.map_map, List.map_map, List.map_map]
    exact List.map_congr_left fun opening _ => (folded_unclosedDeletion opening tokens).symm
  have hfinish (s : Scan) (tokens : List (Token Kind)) : (s.finish tokens).folded =
      { s.folded with
        diagnostics := s.folded.diagnostics ++
          List.replicate s.unclosed.length ⟨.error, "", [], []⟩
        zones := s.folded.zones ++ (s.openDelete.toList.map
          fun opening => unclosedDeletion opening tokens).map Zone.folded } := by
    have hbare : (s.unclosed.map StructureFault.diagnostic).map Diagnostic.bare =
        List.replicate s.unclosed.length ⟨.error, "", [], []⟩ := by
      rw [List.map_map, ← List.map_const]
      rfl
    simp only [finish, folded, List.map_append, hbare]
  rw [hfinish, hfinish, folded_folded, hunclosed, hzones]

end Scan

/-! ## Preprocessing -/

/-- Two results of preprocessing that are the same in every spelling: the same tokens are compiled
into trees of the same shape, regions and zones cover the same tokens, and as much is reported. -/
structure Preprocessed.SameFolded (a b : Preprocessed) : Prop where
  tokens : a.tokens.map Token.folded = b.tokens.map Token.folded
  tree : a.tree.map Token.folded = b.tree.map Token.folded
  mode : a.mode = b.mode
  regions : a.regions.map Region.tokens = b.regions.map Region.tokens
  zones : (a.zones.map fun zone => (zone.kind, zone.tokens)) =
    b.zones.map fun zone => (zone.kind, zone.tokens)
  severities : a.diagnostics.map Diagnostic.severity = b.diagnostics.map Diagnostic.severity
  errorCount : a.errorCount = b.errorCount

theorem parse_folded {tokens tokens' : List (Token Kind)}
    (h : tokens.map Token.folded = tokens'.map Token.folded) (report report' : Report) :
    (moduleLanguage.parse report tokens).1.Like Form.folded
      (moduleLanguage.parse report' tokens').1 := by
  have hkeeps : Parse.Keeps moduleLanguage.root := by
    show Parse.Keeps file
    rw [file_eq_whole]
    exact fileItems.keeps_whole
  exact Language.parse_alike file_blind (Cursor.onCode_folded h) hkeeps report report'

namespace Preprocessor

theorem scan_folded (p : Preprocessor) {tokens tokens' : List (Token Kind)}
    (h : tokens.map Token.folded = tokens'.map Token.folded) :
    (p.scan tokens).1.folded = (p.scan tokens').1.folded := by
  have hscan (tokens : List (Token Kind)) : (p.scan tokens).1.folded =
      ((((piecesFrom 0 tokens).map Piece.event).foldl (Scan.step p.symbols) {}).folded.finish
        (tokens.map Token.folded)).folded := by
    rw [← Scan.folded_finish, ← readPieces_eq_map p.report]
    rfl
  rw [hscan, hscan, Scan.folded_run p.symbols rfl (events_folded h), h]

theorem countP_isError (diagnostics : List Diagnostic) :
    (diagnostics.filter Diagnostic.isError).length =
      (diagnostics.map Diagnostic.severity).countP fun severity => .error ≤ severity := by
  rw [List.countP_map, ← List.countP_eq_length_filter]
  rfl

theorem preprocess_folded (p : Preprocessor) {tokens tokens' : List (Token Kind)}
    (h : tokens.map Token.folded = tokens'.map Token.folded) :
    (p.preprocess tokens).1.SameFolded (p.preprocess tokens').1 := by
  have hscan := p.scan_folded h
  have hcode : (compiled (p.scan tokens).1 tokens).map Token.folded =
      (compiled (p.scan tokens').1 tokens').map Token.folded := by
    have hselected : (p.scan tokens).1.code.map Token.folded = _ :=
      (congrArg Scan.code hscan :)
    rw [compiled, compiled, List.map_append, List.map_append, hselected]
    exact congrArg (fun marker => _ ++ [{ marker with channels := .hiddenOnly }])
      (Token.endOf_folded_eq h)
  have hparsed := parse_folded hcode (p.scan tokens).2 (p.scan tokens').2
  have hregions : (p.scan tokens).1.regions.map Region.tokens =
      (p.scan tokens').1.regions.map Region.tokens := by
    simpa [Scan.folded, Function.comp_def, Region.folded] using
      congrArg (fun s => s.regions.map Region.tokens) hscan
  have hzones : ((p.scan tokens).1.zones.map fun zone => (zone.kind, zone.tokens)) =
      (p.scan tokens').1.zones.map fun zone => (zone.kind, zone.tokens) := by
    simpa [Scan.folded, Function.comp_def, Zone.folded] using
      congrArg (fun s => s.zones.map fun zone => (zone.kind, zone.tokens)) hscan
  have hreported : (p.scan tokens).1.diagnostics.map Diagnostic.severity =
      (p.scan tokens').1.diagnostics.map Diagnostic.severity := by
    simpa [Scan.folded, Function.comp_def, Diagnostic.bare] using
      congrArg (fun s => s.diagnostics.map Diagnostic.severity) hscan
  have hseverities : ((p.scan tokens).1.diagnostics ++ (moduleLanguage.parse (p.scan tokens).2
        (compiled (p.scan tokens).1 tokens)).1.diagnostics).map Diagnostic.severity =
      ((p.scan tokens').1.diagnostics ++ (moduleLanguage.parse (p.scan tokens').2
        (compiled (p.scan tokens').1 tokens')).1.diagnostics).map Diagnostic.severity := by
    rw [List.map_append, List.map_append, hreported, hparsed.severities]
  unfold preprocess
  refine ⟨hcode, hparsed.tree, hparsed.mode, hregions, hzones, hseverities, ?_⟩
  dsimp only
  rw [countP_isError, countP_isError, hseverities]

end Preprocessor

theorem map_hideLast (tokens : List (Token Kind)) :
    (hideLast tokens).map Token.folded = hideLast (tokens.map Token.folded) := by
  fun_induction hideLast tokens with
  | case1 => rfl
  | case2 t => rfl
  | case3 t ts hne ih =>
    cases ts with
    | nil => exact absurd rfl hne
    | cons u us => exact congrArg (t.folded :: ·) ih

/-- **Case makes no difference.** Of two texts whose characters are the same when folded the lexers
of both languages make tokens of the same kinds, on the same channels, at the same lines, columns
and places in the list. For every symbol table the same tokens of a module are compiled, into trees
of the same shape, with the same regions and zones, as much reported, and the same prediction. -/
theorem case_insensitive (p : Preprocessor) (name name' : String) {text text' : String}
    (h : text.toList.map Text.foldCase = text'.toList.map Text.foldCase) :
    (Query.lexicalRules.tokenize name text).map Token.folded =
        (Query.lexicalRules.tokenize name' text').map Token.folded ∧
      (lexicalRules.tokenize name text).map Token.folded =
        (lexicalRules.tokenize name' text').map Token.folded ∧
      (p.preprocess (lexicalRules.tokenize name text)).1.SameFolded
        (p.preprocess (lexicalRules.tokenize name' text')).1 ∧
      (p.preprocess (hideLast (lexicalRules.tokenize name text))).1.SameFolded
        (p.preprocess (hideLast (lexicalRules.tokenize name' text'))).1 := by
  have hfold := Text.fold_eq_fold_iff.2 h
  have hmodule := lexicalRules.tokenize_folded name name' hfold
  refine ⟨Query.lexicalRules.tokenize_folded name name' hfold, hmodule,
    p.preprocess_folded hmodule, p.preprocess_folded ?_⟩
  rw [map_hideLast, hmodule, map_hideLast]

/-- A block that is compiled for tests, in two spellings. -/
theorem case_insensitive_block :
    let text := "#If Test Then\nA();\n#EndIf"
    let text' := "#IF test THEN\na();\n#endif"
    let p : Preprocessor := { symbols := .ofNames ["TEST"] }
    text.toList.map Text.foldCase = text'.toList.map Text.foldCase ∧
      (p.preprocess (lexicalRules.tokenize "" text)).1.SameFolded
        (p.preprocess (lexicalRules.tokenize "" text')).1 := by
  intro text text' p
  have h : text.toList.map Text.foldCase = text'.toList.map Text.foldCase := by decide +kernel
  exact ⟨h, (case_insensitive p "" "" h).2.2.1⟩

end Compilation
end BuiltInScript
