import BuiltInScript.Proofs.Compilation.Selection
import BuiltInScript.Proofs.Parsing.Inside
import BuiltInScript.Proofs.Reporting
import BuiltInScript.Proofs.SourceUnit

/-!
# Results point into their source

A scan remembers where blocks, regions and zones began, and makes the spans of regions, zones and
faults of what it remembers and of the line that it has come to. All of it stands in the text that
the tokens were cut from, so what becomes of a text points into the text, whatever stands in it.

**Results.**
* `Piece.inside_event`: a directive that was read points into the text, and so does what is reported
  about it.
* `Scan.Inside.step`, `Scan.Inside.run`, `Scan.Inside.finish`: so does everything that a scan keeps.
* `results_inside`: the results of lexing, parsing and preprocessing point into the text without its
  byte order mark, for every text.
-/
namespace BuiltInScript.Compilation

open BuiltInScript.Module

variable {text : String}

/-! ## Pieces -/

/-- Pieces of the tokens of a text. -/
def Piece.Inside (text : String) : Piece → Prop
  | .marker _ token _ => token.Inside text
  | .line hash tokens _ => ∀ t ∈ hash :: tokens, t.Inside text
  | .other token => token.Inside text

theorem lineRest_subset {tokens : List (Token Kind)} {t : Token Kind}
    (h : t ∈ (lineRest tokens).1) : t ∈ tokens := by
  obtain ⟨content, ends, rest, heq, -, hline, -⟩ := lineRest_split tokens
  rw [hline] at h
  rw [heq, List.append_assoc]
  exact List.mem_append_left _ (List.mem_filter.1 h).1

theorem piecesFrom_inside (position : Nat) {tokens : List (Token Kind)}
    (h : ∀ t ∈ tokens, t.Inside text) :
    ∀ piece ∈ piecesFrom position tokens, piece.Inside text := by
  fun_induction piecesFrom position tokens with
  | case1 position => exact List.forall_mem_nil _
  | case2 position t ts directive hmarker ih =>
    obtain ⟨ht, hts⟩ := List.forall_mem_cons.1 h
    exact List.forall_mem_cons.2 ⟨ht, ih hts⟩
  | case3 position t ts hmarker hend => exact List.forall_mem_nil _
  | case4 position t ts hmarker hend hhash line n hrest ih =>
    obtain ⟨ht, hts⟩ := List.forall_mem_cons.1 h
    have hline : ∀ u ∈ line, u.Inside text := fun u hu => hts u (lineRest_subset (hrest ▸ hu))
    exact List.forall_mem_cons.2 ⟨List.forall_mem_cons.2 ⟨ht, hline⟩,
      ih fun u hu => hts u (List.mem_of_mem_drop hu)⟩
  | case5 position t ts hmarker hend hhash ih =>
    obtain ⟨ht, hts⟩ := List.forall_mem_cons.1 h
    exact List.forall_mem_cons.2 ⟨ht, ih hts⟩

/-- What is reported while a directive line is read is about tokens of the line. -/
theorem readLine_reported {Q : Token Kind → Prop} {line : List (Token Kind)} (h : ∀ t ∈ line, Q t)
    (hend : Q (Token.endOf line)) (report : Report) :
    ∀ d ∈ (readLine report line).1, Reported Q d := by
  have hresult := directive_accounts (Language.sees_onCode h hend { mode := .general })
  intro d hd
  unfold readLine Parse.runOn at hd
  rw [Report.setMode_reset] at hd
  generalize directive { cursor := .onCode line, report := { mode := .general } } = result
    at hresult hd
  cases hresult with
  | ok hq _ | error hq _ _ _ =>
    simp only [Report.takeDiagnostics, hq.report, Report.diagnostics_addAll, List.nil_append] at hd
    exact hq.reported d hd

/-- So it points into the text of the line. -/
theorem readLine_inside {line : List (Token Kind)} (h : ∀ t ∈ line, t.Inside text)
    (report : Report) :
    ∀ d ∈ (readLine report line).1, ∀ label ∈ d.labels, label.span.Inside text :=
  fun d hd => (readLine_reported h (Token.inside_endOf h) report d hd).labels_inside

/-- An event that points into a text. -/
def Event.Inside (text : String) : Event → Prop
  | .directive reported _ span _ =>
    (∀ d ∈ reported, ∀ label ∈ d.labels, label.span.Inside text) ∧ span.Inside text
  | .other token => token.Inside text

theorem Piece.inside_event {piece : Piece} (h : piece.Inside text) : piece.event.Inside text := by
  cases piece with
  | marker directive token range => exact ⟨List.forall_mem_nil _, h⟩
  | line hash tokens range =>
    refine ⟨readLine_inside h {}, (h hash List.mem_cons_self).join ?_⟩
    rw [List.getLastD_eq_getLast?]
    cases hlast : tokens.getLast? with
    | none => exact h hash List.mem_cons_self
    | some last => exact h last (List.mem_cons_of_mem _ (List.mem_of_getLast? hlast))
  | other token => exact h

/-! ## Scans -/

theorem ConditionStack.unclosed_openIf (s : ConditionStack) (chosen : Bool) (opener : Span) :
    (s.openIf chosen opener).unclosed = s.unclosed ++ [opener] := by
  simp [unclosed, openIf]

/-- Going on to another branch leaves open blocks where they began. -/
theorem ConditionStack.unclosed_elseIf {s t : ConditionStack} {chosen : Bool}
    (h : s.elseIf chosen = .ok t) : t.unclosed = s.unclosed := by
  unfold elseIf at h
  split at h <;> cases h
  simp [unclosed, *]

theorem ConditionStack.unclosed_otherwise {s t : ConditionStack} (h : s.otherwise = .ok t) :
    t.unclosed = s.unclosed := by
  unfold otherwise at h
  split at h <;> cases h
  simp [unclosed, *]

theorem ConditionStack.unclosed_endIf {s t : ConditionStack} (h : s.endIf = .ok t) :
    t.unclosed <+: s.unclosed := by
  unfold endIf at h
  split at h <;> cases h
  simp [unclosed, *]

/-- A scan that remembers and has recorded nothing outside of a text. -/
structure Scan.Inside (text : String) (s : Scan) : Prop where
  code : ∀ t ∈ s.code, t.Inside text
  blocks : ∀ place ∈ s.conditions.unclosed, place.Inside text
  openRegions : ∀ region ∈ s.openRegions, region.opening.span.Inside text
  openInsert : ∀ opening ∈ s.openInsert, opening.span.Inside text
  openDelete : ∀ opening ∈ s.openDelete, opening.span.Inside text
  regions : ∀ region ∈ s.regions, region.span.Inside text
  zones : ∀ zone ∈ s.zones, zone.span.Inside text
  labels : ∀ d ∈ s.diagnostics, ∀ label ∈ d.labels, label.span.Inside text

namespace Scan.Inside

variable {s : Scan} {span : Span} {range : TokenRange}

theorem empty : Inside text {} where
  code := List.forall_mem_nil _
  blocks := List.forall_mem_nil _
  openRegions := List.forall_mem_nil _
  openInsert _ h := nomatch h
  openDelete _ h := nomatch h
  regions := List.forall_mem_nil _
  zones := List.forall_mem_nil _
  labels := List.forall_mem_nil _

theorem reporting {ds : List Diagnostic} (h : s.Inside text)
    (hds : ∀ d ∈ ds, ∀ label ∈ d.labels, label.span.Inside text) :
    Inside text { s with diagnostics := s.diagnostics ++ ds } :=
  { h with labels := List.forall_mem_append.2 ⟨h.labels, hds⟩ }

theorem report {fault : StructureFault} (h : s.Inside text)
    (hf : ∀ label ∈ fault.labels, label.span.Inside text) : (s.report fault).Inside text :=
  h.reporting (List.forall_mem_singleton.2 hf)

/-- A fault about one place. -/
theorem report_at {fault : StructureFault} {message : String} (h : s.Inside text)
    (hspan : span.Inside text) (hlabels : fault.labels = [.primary span message]) :
    (s.report fault).Inside text :=
  h.report (by rw [hlabels]; exact List.forall_mem_singleton.2 hspan)

/-- Blocks that are still open began where they did. -/
theorem setConditions {result : Except ConditionError ConditionStack} (h : s.Inside text)
    (hspan : span.Inside text)
    (hblocks : ∀ conditions, result = .ok conditions →
      ∀ place ∈ conditions.unclosed, place ∈ s.conditions.unclosed) :
    (s.setConditions span result).Inside text := by
  cases result with
  | ok conditions =>
    exact { h with blocks := fun place hp => h.blocks place (hblocks _ rfl place hp) }
  | error cause => exact h.report_at hspan rfl

theorem endRegion (h : s.Inside text) (hspan : span.Inside text) :
    (s.endRegion span range).Inside text := by
  unfold Scan.endRegion
  split
  · exact h.report_at hspan rfl
  · rename_i region outer hopen
    have hopened := h.openRegions
    rw [hopen] at hopened
    obtain ⟨hregion, houter⟩ := List.forall_mem_cons.1 hopened
    exact { h with
      openRegions := houter
      regions := List.forall_mem_append.2
        ⟨h.regions, List.forall_mem_singleton.2 (hregion.join hspan)⟩ }

theorem openZone (h : s.Inside text) (kind : ZoneKind) (hspan : span.Inside text) :
    (s.openZone kind span range).Inside text := by
  have hopened : ∀ opening ∈ some (⟨span, range.first⟩ : Opening), opening.span.Inside text :=
    fun _ ho => Option.some.inj ho ▸ hspan
  have hnested {opened : Opening} (ho : opened.span.Inside text) :
      (s.report (.nestedZone span opened.span)).Inside text :=
    h.report (List.forall_mem_cons.2 ⟨hspan, List.forall_mem_singleton.2 ho⟩)
  unfold Scan.openZone
  split
  · exact { h with openInsert := hopened }
  · exact { h with openDelete := hopened }
  · rename_i hopen
    exact hnested (h.openInsert _ hopen)
  · rename_i hopen
    exact hnested (h.openDelete _ hopen)

theorem closeZone (h : s.Inside text) (kind : ZoneKind) (hspan : span.Inside text) :
    (s.closeZone kind span range).Inside text := by
  have hadded {zone : Zone} (hz : zone.span.Inside text) :
      ∀ z ∈ s.zones ++ [zone], z.span.Inside text :=
    List.forall_mem_append.2 ⟨h.zones, List.forall_mem_singleton.2 hz⟩
  unfold Scan.closeZone
  split
  · rename_i opening _ hopen
    exact { h with
      openInsert := nofun
      zones := hadded ((h.openInsert _ hopen).join hspan) }
  · rename_i opening hopen
    exact { h with
      openDelete := nofun
      zones := hadded ((h.openDelete _ hopen).join hspan) }
  · exact h.report_at hspan rfl

/-- A directive keeps a scan inside the text that it stands in. -/
theorem apply (h : s.Inside text) (symbols : SymbolTable) (hspan : span.Inside text)
    (directive : Directive) : (s.apply symbols span range directive).Inside text := by
  cases directive with
  | ifBlock condition =>
    have hblocks : ∀ place ∈ (s.conditions.openIf (holds symbols condition) span).unclosed,
        place.Inside text := by
      rw [ConditionStack.unclosed_openIf]
      exact List.forall_mem_append.2 ⟨h.blocks, List.forall_mem_singleton.2 hspan⟩
    exact { h with blocks := hblocks }
  | elseIf condition =>
    exact h.setConditions hspan fun _ hok _ hp => ConditionStack.unclosed_elseIf hok ▸ hp
  | otherwise =>
    exact h.setConditions hspan fun _ hok _ hp => ConditionStack.unclosed_otherwise hok ▸ hp
  | endIf =>
    exact h.setConditions hspan fun _ hok _ hp => (ConditionStack.unclosed_endIf hok).subset hp
  | region name => exact { h with openRegions := List.forall_mem_cons.2 ⟨hspan, h.openRegions⟩ }
  | endRegion => exact h.endRegion hspan
  | insert => exact h.openZone .insert hspan
  | delete => exact h.openZone .delete hspan
  | endInsert => exact h.closeZone .insert hspan
  | endDelete => exact h.closeZone .delete hspan
  | use path => exact h
  | shebang => exact h

theorem step (h : s.Inside text) (symbols : SymbolTable) {event : Event}
    (he : event.Inside text) : (s.step symbols event).Inside text := by
  cases event with
  | directive reported found span range =>
    obtain ⟨hreported, hspan⟩ := he
    cases found with
    | none => exact (h.reporting hreported :)
    | some directive => exact (h.reporting hreported).apply symbols hspan directive
  | other token =>
    unfold Scan.step
    dsimp only
    split
    · exact { h with code := List.forall_mem_append.2 ⟨h.code, List.forall_mem_singleton.2 he⟩ }
    · exact h

theorem run (h : s.Inside text) (symbols : SymbolTable) {events : List Event}
    (he : ∀ event ∈ events, event.Inside text) :
    (events.foldl (Scan.step symbols) s).Inside text := by
  induction events generalizing s with
  | nil => exact h
  | cons event events ih =>
    obtain ⟨hevent, hevents⟩ := List.forall_mem_cons.1 he
    exact ih (h.step symbols hevent) hevents

/-- What was never closed began in the text, and a deletion that goes on to the end of the input
ends with a token. -/
theorem finish (h : s.Inside text) {tokens : List (Token Kind)} (ht : ∀ t ∈ tokens, t.Inside text) :
    (s.finish tokens).Inside text := by
  have hunclosed : ∀ fault ∈ s.unclosed, ∀ label ∈ fault.labels, label.span.Inside text := by
    unfold Scan.unclosed
    simp only [List.forall_mem_append, List.forall_mem_map, List.mem_reverse, Option.mem_toList]
    exact ⟨⟨⟨fun place hplace => List.forall_mem_singleton.2 (h.blocks place hplace),
      fun region hregion => List.forall_mem_singleton.2 (h.openRegions region hregion)⟩,
      fun opening hopening => List.forall_mem_singleton.2 (h.openInsert opening hopening)⟩,
      fun opening hopening => List.forall_mem_singleton.2 (h.openDelete opening hopening)⟩
  have hdeletion : ∀ opening ∈ s.openDelete,
      (unclosedDeletion opening tokens).span.Inside text := by
    intro opening hopening
    unfold unclosedDeletion
    dsimp only
    split
    · rename_i last hlast
      exact (h.openDelete opening hopening).join (ht last (List.mem_of_getElem? hlast))
    · exact h.openDelete opening hopening
  exact { h with
    labels := List.forall_mem_append.2 ⟨h.labels, List.forall_mem_map.2 hunclosed⟩
    zones := List.forall_mem_append.2 ⟨h.zones, List.forall_mem_map.2 fun opening ho =>
      hdeletion opening (Option.mem_toList.1 ho)⟩ }

end Scan.Inside

namespace Preprocessor

/-- A whole scan keeps to the text that its tokens stand in. -/
theorem inside_scan (p : Preprocessor) {tokens : List (Token Kind)}
    (h : ∀ t ∈ tokens, t.Inside text) : (p.scan tokens).1.Inside text := by
  have hevents : ∀ event ∈ (readPieces p.report (piecesFrom 0 tokens)).1, event.Inside text := by
    rw [readPieces_eq_map]
    exact List.forall_mem_map.2 fun piece hpiece =>
      Piece.inside_event (piecesFrom_inside 0 h piece hpiece)
  exact (Scan.Inside.empty.run p.symbols hevents).finish h

/-- The code that is compiled stands in the text, and so does the end marker after it. -/
theorem inside_compiled (p : Preprocessor) {tokens : List (Token Kind)}
    (h : ∀ t ∈ tokens, t.Inside text) :
    ∀ t ∈ compiled (p.scan tokens).1 tokens, t.Inside text :=
  List.forall_mem_append.2 ⟨(p.inside_scan h).code,
    List.forall_mem_singleton.2 (show Span.Inside text _ from Token.inside_endOf h)⟩

end Preprocessor

/-! ## Results -/

section
variable {K M F : Type} [DecidableEq K] [TokenKind K] {rules : LexicalRules K M F} {name : String}
  {tokens : List (Token K)}

/-- The tokens of a text tile it, with the end marker hidden or not. -/
theorem lexed_tiles (hlossless : rules.Lossless name text)
    (h : tokens = rules.tokenize name text ∨ tokens = hideLast (rules.tokenize name text)) :
    Tiles (Text.stripByteOrderMark text) 0 0 tokens := by
  have htiles : Tiles (Text.stripByteOrderMark text) 0 0 (rules.tokenize name text) := by
    rw [hlossless.tokenize_eq]
    exact hlossless.tiles _
  rcases h with rfl | rfl
  · exact htiles
  · exact htiles.hideLast

/-- So they stand in it. -/
theorem lexed_inside (hlossless : rules.Lossless name text)
    (h : tokens = rules.tokenize name text ∨ tokens = hideLast (rules.tokenize name text)) :
    ∀ t ∈ tokens, t.Inside (Text.stripByteOrderMark text) :=
  fun t ht => Span.inside_of_slice ((lexed_tiles hlossless h).slices t ht)

end

/-- The rules of modules from which parsers recover. -/
inductive RecoveredRule : Parse Kind Module.Trees → Prop
  | statement (depth : Nat) : RecoveredRule (statement (blockWithin depth))
  | looseStatement (kind : Kind) : RecoveredRule (looseStatement kind)
  | vars : RecoveredRule vars
  | method : RecoveredRule method

/-- What parsing tokens as a module gives points into a text, and so does what comes of reading some
of them as a directive line. -/
structure ModuleInside (text : String) (tokens : List (Token Kind)) : Prop where
  span : ∀ t ∈ tokens, t.span.Inside text
  parse : ∀ report, PointsInto text (moduleLanguage.parse report tokens).1.diagnostics
    (moduleLanguage.parse report tokens).1.tree
  parse_error : Parse.ErrorsInside text tokens moduleLanguage.root
  rule_error : ∀ rule, RecoveredRule rule → Parse.ErrorsInside text tokens rule
  line : ∀ line ⊆ tokens, ∀ report, ∀ d ∈ (readLine report line).1,
    ∀ label ∈ d.labels, label.span.Inside text
  line_error : ∀ line ⊆ tokens, Parse.ErrorsInside text line directive

/-- What parsing tokens as queries gives points into a text. -/
structure QueryInside (text : String) (tokens : List (Token Query.Kind)) : Prop where
  span : ∀ t ∈ tokens, t.span.Inside text
  parse : ∀ report, PointsInto text (queryLanguage.parse report tokens).1.diagnostics
    (queryLanguage.parse report tokens).1.tree
  parse_error : Parse.ErrorsInside text tokens queryLanguage.root
  rule_error : Parse.ErrorsInside text tokens Query.query

/-- What preprocessing tokens gives points into a text, and so does what comes of parsing the
tokens that are left. -/
structure Preprocessed.Inside (text : String) (result : Preprocessed) : Prop where
  parsed : ModuleInside text result.tokens
  results : PointsInto text result.diagnostics result.tree
  regions : ∀ region ∈ result.regions, region.span.Inside text
  zones : ∀ zone ∈ result.zones, zone.span.Inside text

theorem moduleInside {tokens : List (Token Kind)} (h : ∀ t ∈ tokens, t.Inside text) :
    ModuleInside text tokens where
  span := h
  parse report := Language.parse_inside fileItems file_eq_whole (file_accounts _) h report
  parse_error := (file_accounts _).errorsInside h
  rule_error rule hrule := by
    have hall : Inherited (Parse.Accounts (Token.Inside text) Shows) := accounts_inherited
    cases hrule with
    | statement depth => exact (hall.statement (hall.blockWithin depth)).errorsInside h
    | looseStatement kind => exact (hall.looseStatement kind).errorsInside h
    | vars => exact hall.vars.errorsInside h
    | method => exact hall.method.errorsInside h
  line line hline report := readLine_inside (fun t ht => h t (hline ht)) report
  line_error line hline := directive_accounts.errorsInside fun t ht => h t (hline ht)

theorem queryInside {tokens : List (Token Query.Kind)} (h : ∀ t ∈ tokens, t.Inside text) :
    QueryInside text tokens where
  span := h
  parse report :=
    Language.parse_inside Query.packageItems Query.package_eq_whole (Query.package_accounts _) h
      report
  parse_error := (Query.package_accounts _).errorsInside h
  rule_error := Query.query_accounts.errorsInside h

theorem Preprocessor.inside_preprocess (p : Preprocessor) {tokens : List (Token Kind)}
    (h : ∀ t ∈ tokens, t.Inside text) : (p.preprocess tokens).1.Inside text := by
  have hscan := p.inside_scan h
  have hparsed := moduleInside (p.inside_compiled h)
  have hresults := hparsed.parse (p.scan tokens).2
  exact ⟨hparsed, ⟨List.forall_mem_append.2 ⟨hscan.labels, hresults.labels⟩, hresults.nodes⟩,
    hscan.regions, hscan.zones⟩

/-- **No result points outside the source.** Of every text, whatever stands in it, everything that
comes of lexing it, of parsing it as a module or as queries, and of preprocessing it for any
symbols points into the text without its byte order mark: labels of diagnostics, errors of parsers
and of the rules that they recover from, regions, patch zones, and nodes. Such a span selects a part
of that text. -/
theorem results_inside (name text : String) :
    (∀ tokens, (tokens = lexicalRules.tokenize name text ∨
        tokens = hideLast (lexicalRules.tokenize name text)) →
      ModuleInside (Text.stripByteOrderMark text) tokens ∧
        ∀ p : Preprocessor, (p.preprocess tokens).1.Inside (Text.stripByteOrderMark text)) ∧
      (∀ tokens, (tokens = Query.lexicalRules.tokenize name text ∨
          tokens = hideLast (Query.lexicalRules.tokenize name text)) →
        QueryInside (Text.stripByteOrderMark text) tokens) ∧
      ∀ span : Span, span.Inside (Text.stripByteOrderMark text) →
        ∃ selected, span.slice? (Text.stripByteOrderMark text) = some selected := by
  refine ⟨fun tokens h => ?_, fun tokens h => ?_, fun span hspan => hspan.slice_eq_some⟩
  · have hinside := lexed_inside (lexicalRules_plain.lossless name text) h
    exact ⟨moduleInside hinside, fun p => p.inside_preprocess hinside⟩
  · exact queryInside (lexed_inside (Query.lexicalRules_plain.lossless name text) h)

/-- A deletion that is never ended, in a text with a byte order mark: its zone goes on to the end of
the text without the mark. A query of one letter. -/
theorem results_inside_unclosed :
    let tokens := lexicalRules.tokenize "" "\uFEFF#Удаление\nЖ"
    let p : Preprocessor := { symbols := {} }
    (p.preprocess tokens).1.zones.map Zone.span = [⟨0, 20⟩] ∧
      (⟨0, 20⟩ : Span).Inside (Text.stripByteOrderMark "\uFEFF#Удаление\nЖ") ∧
      QueryInside (Text.stripByteOrderMark "Ж") (Query.lexicalRules.tokenize "" "Ж") := by
  intro tokens p
  have hzones : (p.preprocess tokens).1.zones.map Zone.span = [⟨0, 20⟩] := by decide +kernel
  obtain ⟨-, hinside⟩ := (results_inside "" "\uFEFF#Удаление\nЖ").1 tokens (.inl rfl)
  refine ⟨hzones, ?_, (results_inside "" "Ж").2.1 _ (.inl rfl)⟩
  have hspan : (⟨0, 20⟩ : Span) ∈ (p.preprocess tokens).1.zones.map Zone.span := by simp [hzones]
  obtain ⟨zone, hzone, heq⟩ := List.mem_map.1 hspan
  exact heq ▸ (hinside p).zones zone hzone

end BuiltInScript.Compilation
