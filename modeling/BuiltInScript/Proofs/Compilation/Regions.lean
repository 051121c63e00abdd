import BuiltInScript.Proofs.Compilation.Matching
import BuiltInScript.Proofs.Compilation.Zones
import BuiltInScript.Proofs.Module.Directive
import BuiltInScript.Proofs.Module.DirectiveGrammar

/-!
# Regions

A scan keeps the regions that are open, and ends the innermost of them at each `#КонецОбласти`. So
at every place it has recorded the pairs that match there, and what is open are the beginnings
without an end, in reverse. Nothing else that stands in a module has to do with either.

**Results.**
* `directiveOf_endRegion`: every line that begins with `#КонецОбласти` ends a region.
* `Scan.Paired.step`, `Scan.Paired.run`: what a directive does to the pairs, and a whole module.
* `Scan.Paired.finish`: at the end what is open is reported.
* `regions_matched`: regions are matched like brackets, and none is lost.
-/
namespace BuiltInScript.Compilation

open BuiltInScript.Module

/-! ## What is said of regions -/

/-- Says that a region was ended that never began. -/
def saysUnmatchedEnd (d : Diagnostic) : Bool :=
  d.message = (StructureFault.unmatchedEndRegion {}).message

/-- Says of some region that it is never closed. -/
def saysUnclosed (d : Diagnostic) : Bool :=
  "region `".toList.isPrefixOf d.message.toList &&
    "` is never closed".toList.isSuffixOf d.message.toList

/-- Says nothing about how regions match. -/
def SilentOnRegions (d : Diagnostic) : Prop := saysUnmatchedEnd d = false ∧ saysUnclosed d = false

section
variable {d : Diagnostic} {s : String}

/-- So does a diagnostic that begins with other words. -/
theorem SilentOnRegions.of_beginning (a : String) (hd : d.message = s ++ a)
    (hs : ¬s.toList <+: (StructureFault.unmatchedEndRegion {}).message.toList ∧
      "region `".toList.length ≤ s.toList.length ∧ ¬"region `".toList <+: s.toList) :
    SilentOnRegions d := by
  obtain ⟨hunmatched, hle, hunclosed⟩ := hs
  refine ⟨decide_eq_false (hd ▸ append_ne_left hunmatched a), ?_⟩
  refine Bool.and_eq_false_iff.2 (.inl (Bool.eq_false_iff.2 fun hprefix => ?_))
  rw [hd, String.toList_append, List.isPrefixOf_iff_prefix] at hprefix
  exact hunclosed (List.prefix_of_prefix_length_le hprefix (List.prefix_append _ _) hle)

/-- And so does one that ends with other words. -/
theorem SilentOnRegions.of_ending (a : String) (hd : d.message = a ++ s)
    (hs : ¬s.toList <:+ (StructureFault.unmatchedEndRegion {}).message.toList ∧
      s.toList.length ≤ "` is never closed".toList.length ∧
        ¬s.toList <:+ "` is never closed".toList) :
    SilentOnRegions d := by
  obtain ⟨hunmatched, hle, hunclosed⟩ := hs
  refine ⟨decide_eq_false (hd ▸ append_ne_right hunmatched a), ?_⟩
  refine Bool.and_eq_false_iff.2 (.inr (Bool.eq_false_iff.2 fun hsuffix => ?_))
  rw [hd, String.toList_append, List.isSuffixOf_iff_suffix] at hsuffix
  exact hunclosed (List.suffix_of_suffix_length_le (List.suffix_append _ _) hsuffix hle)

theorem SilentOnRegions.of_text (hd : d.message = s)
    (hs : ¬s.toList <+: (StructureFault.unmatchedEndRegion {}).message.toList ∧
      "region `".toList.length ≤ s.toList.length ∧ ¬"region `".toList <+: s.toList) :
    SilentOnRegions d :=
  .of_beginning "" (hd.trans String.append_empty.symm) hs

/-- No parser says anything about it. -/
theorem silentOnRegions_of_reported {K : Type} [TokenKind K] {Q : Token K → Prop}
    (h : Reported Q d) : SilentOnRegions d := by
  obtain ⟨fault, scopes, -⟩ := h
  cases fault with
  | expected | unclosedBracket | mismatchedBracket | unterminatedMethod =>
    exact .of_ending (s := " expected") _ rfl (by decide)
  | unexpected => exact .of_beginning (s := "unexpected ") _ rfl (by decide)
  | missingSymbol => exact .of_beginning (s := "build symbol expected, found ") _ rfl (by decide)
  | unknownDirective =>
    exact .of_beginning (s := "unknown preprocessor directive `") _ String.append_assoc (by decide)
  | extraAfterDirective => exact .of_ending (s := " after directive") _ rfl (by decide)
  | unterminatedStatement => exact .of_text (s := "`;` expected") rfl (by decide)
  | missingRegionName => exact .of_text (s := "region name expected") rfl (by decide)
  | missingLibraryName => exact .of_text (s := "library name expected") rfl (by decide)
  | missingThen =>
    exact .of_text (s := "`Тогда` expected after the condition") rfl (by decide)

/-- No other fault of structure does. -/
theorem StructureFault.silentOnRegions {fault : StructureFault}
    (hunmatched : ∀ place, fault ≠ .unmatchedEndRegion place)
    (hunclosed : ∀ name place, fault ≠ .unclosedRegion name place) :
    SilentOnRegions fault.diagnostic := by
  cases fault with
  | unmatchedEndRegion place => exact absurd rfl (hunmatched place)
  | unclosedRegion name place => exact absurd rfl (hunclosed name place)
  | unmatchedCondition cause =>
    refine .of_text (s := cause.message) rfl ?_
    cases cause <;> decide
  | nestedZone => exact .of_text (s := "patch zones cannot be nested") rfl (by decide)
  | unmatchedEndZone =>
    exact .of_text (s := "end of a patch zone that was never opened") rfl (by decide)
  | unclosedIf => exact .of_text (s := "`#Если` is never closed") rfl (by decide)
  | unclosedInsert => exact .of_text (s := "`#Вставка` is never closed") rfl (by decide)
  | unclosedDelete => exact .of_text (s := "`#Удаление` is never closed") rfl (by decide)

/-- Such a fault says so of every region, whatever its name. -/
theorem says_unclosedRegion (name : String) (place : Span) :
    saysUnclosed (StructureFault.unclosedRegion name place).diagnostic = true ∧
      saysUnmatchedEnd (StructureFault.unclosedRegion name place).diagnostic = false := by
  have hmessage : (StructureFault.unclosedRegion name place).diagnostic.message =
      "region `" ++ (name ++ "` is never closed") := String.append_assoc
  constructor
  · rw [saysUnclosed, hmessage, Bool.and_eq_true, List.isPrefixOf_iff_prefix,
      List.isSuffixOf_iff_suffix, String.toList_append, String.toList_append, ← List.append_assoc]
    exact ⟨(List.prefix_append _ _).trans (List.prefix_append _ _), List.suffix_append _ _⟩
  · exact decide_eq_false (hmessage ▸ append_ne_left (by decide) _)

theorem says_unmatchedEndRegion (place : Span) :
    saysUnmatchedEnd (StructureFault.unmatchedEndRegion place).diagnostic = true ∧
      saysUnclosed (StructureFault.unmatchedEndRegion place).diagnostic = false := by
  have hmessage : ¬"region `".toList <+: (StructureFault.unmatchedEndRegion {}).message.toList := by
    decide
  refine ⟨decide_eq_true rfl, Bool.and_eq_false_iff.2 (.inl (Bool.eq_false_iff.2 ?_))⟩
  exact fun h => hmessage (List.isPrefixOf_iff_prefix.1 h)

end

/-! ## Scans -/

/-- The region that a pair makes. -/
def RegionPair.region (pair : RegionPair) : Region :=
  ⟨pair.1.name, pair.1.span.join pair.2.span, ⟨pair.1.range.first, pair.2.range.next⟩⟩

/-- The region that a `#Область` opens. -/
def RegionStart.opened (o : RegionStart) : OpenRegion := ⟨o.name, ⟨o.span, o.range.first⟩⟩

/-- What is said of a `#Область` without an end. -/
def RegionStart.unclosed (o : RegionStart) : Diagnostic :=
  (StructureFault.unclosedRegion o.name o.span).diagnostic

/-- What is said of a `#КонецОбласти` without a beginning. -/
def RegionEnd.unmatched (c : RegionEnd) : Diagnostic :=
  (StructureFault.unmatchedEndRegion c.span).diagnostic

/-- What was reported while a directive was read. -/
def Event.reported : Event → List Diagnostic
  | .directive reported _ _ _ => reported
  | .other _ => []

/-- What leaves the regions as they are, and says nothing about how they match. -/
structure Scan.KeepsRegions (s s' : Scan) : Prop where
  regions : s'.regions = s.regions
  openRegions : s'.openRegions = s.openRegions
  diagnostics : ∃ ds, s'.diagnostics = s.diagnostics ++ ds ∧ ∀ d ∈ ds, SilentOnRegions d

namespace Scan.KeepsRegions

variable {s s' : Scan}

theorem of_silent (hregions : s'.regions = s.regions) (hopen : s'.openRegions = s.openRegions)
    (hdiagnostics : s'.diagnostics = s.diagnostics) : s.KeepsRegions s' :=
  ⟨hregions, hopen, [], by rw [hdiagnostics, List.append_nil], List.forall_mem_nil _⟩

theorem report {fault : StructureFault} (h : SilentOnRegions fault.diagnostic) :
    s.KeepsRegions (s.report fault) :=
  ⟨rfl, rfl, [fault.diagnostic], rfl, List.forall_mem_singleton.2 h⟩

theorem setConditions (span : Span) (result : Except ConditionError ConditionStack) :
    s.KeepsRegions (s.setConditions span result) := by
  cases result with
  | ok conditions => exact .of_silent rfl rfl rfl
  | error cause => exact .report (StructureFault.silentOnRegions nofun nofun)

theorem openZone (kind : ZoneKind) (span : Span) (range : TokenRange) :
    s.KeepsRegions (s.openZone kind span range) := by
  unfold Scan.openZone
  split
  · exact .of_silent rfl rfl rfl
  · exact .of_silent rfl rfl rfl
  · exact .report (StructureFault.silentOnRegions nofun nofun)
  · exact .report (StructureFault.silentOnRegions nofun nofun)

theorem closeZone (kind : ZoneKind) (span : Span) (range : TokenRange) :
    s.KeepsRegions (s.closeZone kind span range) := by
  unfold Scan.closeZone
  split
  · exact .of_silent rfl rfl rfl
  · exact .of_silent rfl rfl rfl
  · exact .report (StructureFault.silentOnRegions nofun nofun)

/-- Only directives that begin or end regions have to do with regions. -/
theorem apply (symbols : SymbolTable) (span : Span) (range : TokenRange) {directive : Directive}
    (hstart : ∀ name, directive ≠ .region name) (hend : directive ≠ .endRegion) :
    s.KeepsRegions (s.apply symbols span range directive) := by
  cases directive with
  | region name => exact absurd rfl (hstart name)
  | endRegion => exact absurd rfl hend
  | ifBlock | use | shebang => exact .of_silent rfl rfl rfl
  | elseIf | otherwise | endIf => exact .setConditions _ _
  | insert | delete => exact .openZone _ _ _
  | endInsert | endDelete => exact .closeZone _ _ _

theorem step_other (symbols : SymbolTable) (t : Token Kind) :
    s.KeepsRegions (s.step symbols (.other t)) := by
  rw [Scan.step]
  split <;> exact .of_silent rfl rfl rfl

end Scan.KeepsRegions

/-- What a scan has recorded of regions after some directives, which make some pairs. -/
structure Scan.Paired (events : List Event) (pairs : List RegionPair) (s : Scan) : Prop where
  matching : Matching (regionStarts events) (regionEnds events) pairs
  regions : s.regions = pairs.map RegionPair.region
  opened : s.openRegions =
    (unpaired Prod.fst (regionStarts events) pairs).reverse.map RegionStart.opened
  unmatched : s.diagnostics.filter saysUnmatchedEnd =
    (unpaired Prod.snd (regionEnds events) pairs).map RegionEnd.unmatched
  unclosed : s.diagnostics.filter saysUnclosed = []

namespace Scan.Paired

variable {s s' : Scan} {events : List Event} {pairs : List RegionPair}

theorem empty : Paired [] [] {} := ⟨.empty, rfl, rfl, rfl, rfl⟩

/-- Where nothing is said about how regions match. -/
theorem filter_silent {ds : List Diagnostic} (h : ∀ d ∈ ds, SilentOnRegions d) :
    ds.filter saysUnmatchedEnd = [] ∧ ds.filter saysUnclosed = [] :=
  ⟨List.filter_eq_nil_iff.2 fun d hd => Bool.eq_false_iff.1 (h d hd).1,
    List.filter_eq_nil_iff.2 fun d hd => Bool.eq_false_iff.1 (h d hd).2⟩

/-- What has nothing to do with regions. -/
theorem keep {more : List Event} (h : s.Paired events pairs) (hkeeps : s.KeepsRegions s')
    (hstarts : regionStarts more = []) (hends : regionEnds more = []) :
    s'.Paired (events ++ more) pairs := by
  obtain ⟨hregions, hopen, ds, heq, hds⟩ := hkeeps
  have hstarts' : regionStarts (events ++ more) = regionStarts events := by
    rw [regionStarts_append, hstarts, List.append_nil]
  have hends' : regionEnds (events ++ more) = regionEnds events := by
    rw [regionEnds_append, hends, List.append_nil]
  obtain ⟨hunmatched, hunclosed⟩ := filter_silent hds
  refine ⟨?_, hregions ▸ h.regions, ?_, ?_, ?_⟩
  · rw [hstarts', hends']
    exact h.matching
  · rw [hopen, hstarts', h.opened]
  · rw [heq, List.filter_append, hunmatched, List.append_nil, hends', h.unmatched]
  · rw [heq, List.filter_append, hunclosed, List.append_nil, h.unclosed]

section
variable {reported : List Diagnostic} {span : Span} {range : TokenRange}

/-- A `#Область` opens a region. -/
theorem start {name : String} (h : s.Paired events pairs)
    (hevents : Sequential (events ++ [.directive reported (some (.region name)) span range])) :
    Paired (events ++ [.directive reported (some (.region name)) span range]) pairs
      { s with openRegions := ⟨name, ⟨span, range.first⟩⟩ :: s.openRegions } := by
  have hstarts : regionStarts (events ++ [.directive reported (some (.region name)) span range]) =
      regionStarts events ++ [⟨name, span, range⟩] := regionStarts_append _ _
  have hends : regionEnds (events ++ [.directive reported (some (.region name)) span range]) =
      regionEnds events := (regionEnds_append _ _).trans (List.append_nil _)
  obtain ⟨hstart, hend⟩ := hevents.before_last rfl
  have hnonempty : range.first < range.next :=
    hevents.nonempty _ (List.mem_append_right _ (List.mem_singleton_self _)) range rfl
  have hnew : (⟨name, span, range⟩ : RegionStart) ∉ pairs.map Prod.fst := by
    intro hm
    obtain ⟨pair, hp, heq⟩ := List.mem_map.1 hm
    have hbefore : pair.1.range.next ≤ range.first := hstart _ (h.matching.nearest hp).mem
    rw [heq] at hbefore
    exact absurd hnonempty (Nat.not_lt.2 hbefore)
  refine ⟨?_, h.regions, ?_, ?_, h.unclosed⟩
  · rw [hstarts, hends]
    exact h.matching.start hnonempty fun c hc => ⟨hevents.left.end_nonempty hc, hend c hc⟩
  · rw [hstarts, unpaired_concat hnew, List.reverse_append, h.opened]
    rfl
  · rw [hends]
    exact h.unmatched

theorem regionStarts_concat_end (events : List Event) :
    regionStarts (events ++ [.directive reported (some .endRegion) span range]) =
      regionStarts events :=
  (regionStarts_append _ _).trans (List.append_nil _)

theorem regionEnds_concat_end (events : List Event) :
    regionEnds (events ++ [.directive reported (some .endRegion) span range]) =
      regionEnds events ++ [⟨span, range⟩] :=
  regionEnds_append _ _

/-- A `#КонецОбласти` where no region is open. -/
theorem unmatchedEnd (h : s.Paired events pairs)
    (hopen : unpaired Prod.fst (regionStarts events) pairs = [])
    (hnew : (⟨span, range⟩ : RegionEnd) ∉ regionEnds events)
    (hmatching : Matching (regionStarts events) (regionEnds events ++ [⟨span, range⟩]) pairs) :
    (s.endRegion span range).Paired
      (events ++ [.directive reported (some .endRegion) span range]) pairs := by
  have hreports : s.endRegion span range = s.report (.unmatchedEndRegion span) := by
    rw [endRegion, h.opened, hopen]
    rfl
  have hfree : (⟨span, range⟩ : RegionEnd) ∉ pairs.map Prod.snd := by
    intro hm
    obtain ⟨pair, hp, heq⟩ := List.mem_map.1 hm
    exact hnew (heq ▸ h.matching.ends_mem pair hp)
  obtain ⟨hunmatched, hunclosed⟩ := says_unmatchedEndRegion span
  rw [hreports]
  refine ⟨?_, h.regions, ?_, ?_, ?_⟩
  · rw [regionStarts_concat_end, regionEnds_concat_end]
    exact hmatching
  · rw [regionStarts_concat_end]
    exact h.opened
  · rw [regionEnds_concat_end, unpaired_concat hfree, List.map_append, ← h.unmatched, report,
      List.filter_append, List.filter_cons_of_pos hunmatched]
    rfl
  · rw [report, List.filter_append, h.unclosed, List.filter_cons_of_neg (by simp [hunclosed])]
    rfl

/-- A `#КонецОбласти` that ends the innermost open region. -/
theorem matchedEnd {inner : List RegionStart} {o : RegionStart} (h : s.Paired events pairs)
    (hopen : unpaired Prod.fst (regionStarts events) pairs = inner ++ [o]) (ho : o ∉ inner)
    (hnew : (⟨span, range⟩ : RegionEnd) ∉ regionEnds events)
    (hmatching : Matching (regionStarts events) (regionEnds events ++ [⟨span, range⟩])
      (pairs ++ [(o, ⟨span, range⟩)])) :
    (s.endRegion span range).Paired
      (events ++ [.directive reported (some .endRegion) span range])
      (pairs ++ [(o, ⟨span, range⟩)]) := by
  have hcloses : s.endRegion span range =
      { s with
        openRegions := inner.reverse.map RegionStart.opened
        regions := s.regions ++ [RegionPair.region (o, ⟨span, range⟩)] } := by
    rw [endRegion, h.opened, hopen, List.reverse_append]
    rfl
  rw [hcloses]
  refine ⟨?_, ?_, ?_, ?_, h.unclosed⟩
  · rw [regionStarts_concat_end, regionEnds_concat_end]
    exact hmatching
  · rw [List.map_append, h.regions]
    rfl
  · rw [regionStarts_concat_end, unpaired_fst_pair hopen ho]
  · rw [regionEnds_concat_end, unpaired_snd_pair hnew]
    exact h.unmatched

/-- What a `#КонецОбласти` does to the pairs. -/
theorem stop (h : s.Paired events pairs)
    (hevents : Sequential (events ++ [.directive reported (some .endRegion) span range])) :
    ∃ pairs', (s.endRegion span range).Paired
      (events ++ [.directive reported (some .endRegion) span range]) pairs' := by
  obtain ⟨hstart, hend⟩ := hevents.before_last rfl
  have hnonempty : range.first < range.next :=
    hevents.nonempty _ (List.mem_append_right _ (List.mem_singleton_self _)) range rfl
  have hnew : (⟨span, range⟩ : RegionEnd) ∉ regionEnds events := by
    intro hm
    have : range.next ≤ range.first := hend _ hm
    omega
  have hmatching := h.matching.stop (c := ⟨span, range⟩) hevents.left.starts_ordered
    (fun o ho => ⟨hevents.left.start_nonempty ho, hstart o ho⟩)
    (fun c hc => ⟨hevents.left.end_nonempty hc, hend c hc⟩) hnonempty
  rcases List.eq_nil_or_concat' (unpaired Prod.fst (regionStarts events) pairs)
    with hnil | ⟨inner, o, hlast⟩
  · rw [hnil] at hmatching
    exact ⟨pairs, h.unmatchedEnd hnil hnew (by simpa using hmatching)⟩
  · rw [hlast, List.getLast?_concat] at hmatching
    have ho : o ∉ inner := by
      have hnodup := hevents.left.starts_nodup.filter fun o => o ∉ pairs.map Prod.fst
      rw [← unpaired, hlast] at hnodup
      exact fun hin => (List.nodup_append.1 hnodup).2.2 o hin o (List.mem_singleton_self o) rfl
    exact ⟨pairs ++ [(o, ⟨span, range⟩)], h.matchedEnd hlast ho hnew hmatching⟩

end

/-- A directive, or what is none. -/
theorem step {event : Event} (h : s.Paired events pairs) (symbols : SymbolTable)
    (hevents : Sequential (events ++ [event]))
    (hsilent : ∀ d ∈ event.reported, SilentOnRegions d) :
    ∃ pairs', (s.step symbols event).Paired (events ++ [event]) pairs' := by
  cases event with
  | other t => exact ⟨pairs, h.keep (.step_other symbols t) rfl rfl⟩
  | directive reported found span range =>
    have hadded : Paired events pairs { s with diagnostics := s.diagnostics ++ reported } := by
      have hkeeps : s.KeepsRegions { s with diagnostics := s.diagnostics ++ reported } :=
        ⟨rfl, rfl, reported, rfl, hsilent⟩
      have hkept : Paired (events ++ []) pairs _ := h.keep hkeeps rfl rfl
      rwa [List.append_nil] at hkept
    cases found with
    | none => exact ⟨pairs, hadded.keep (.of_silent rfl rfl rfl) rfl rfl⟩
    | some directive =>
      unfold Scan.step
      dsimp only
      generalize { s with diagnostics := s.diagnostics ++ reported } = added at hadded ⊢
      cases directive with
      | region name => exact ⟨pairs, hadded.start hevents⟩
      | endRegion => exact hadded.stop hevents
      | _ => refine ⟨pairs, hadded.keep (.apply symbols span range ?_ ?_) rfl rfl⟩ <;> simp

/-- The directives of a module, from any of them on. -/
theorem run {more : List Event} (h : s.Paired events pairs) (symbols : SymbolTable)
    (hevents : Sequential (events ++ more))
    (hsilent : ∀ event ∈ more, ∀ d ∈ event.reported, SilentOnRegions d) :
    ∃ pairs', (more.foldl (Scan.step symbols) s).Paired (events ++ more) pairs' := by
  induction more generalizing events pairs s with
  | nil => exact ⟨pairs, by simpa using h⟩
  | cons event more ih =>
    obtain ⟨hevent, hmore⟩ := List.forall_mem_cons.1 hsilent
    rw [List.append_cons] at hevents ⊢
    obtain ⟨pairs', hstep⟩ := h.step symbols hevents.left hevent
    exact ih hstep hevents hmore

/-- At the end regions that are still open are reported, and nothing else is said of regions. -/
theorem finish (h : s.Paired events pairs) (tokens : List (Token Kind)) :
    (s.finish tokens).regions = pairs.map RegionPair.region ∧
      (s.finish tokens).diagnostics.filter saysUnmatchedEnd =
        (unpaired Prod.snd (regionEnds events) pairs).map RegionEnd.unmatched ∧
      (s.finish tokens).diagnostics.filter saysUnclosed =
        (unpaired Prod.fst (regionStarts events) pairs).map RegionStart.unclosed := by
  have hsilent {α : Type} (fault : α → StructureFault) (places : List α)
      (h : ∀ place, SilentOnRegions (fault place).diagnostic) :
      ((places.map fault).map StructureFault.diagnostic).filter saysUnmatchedEnd = [] ∧
        ((places.map fault).map StructureFault.diagnostic).filter saysUnclosed = [] :=
    filter_silent (by simpa using fun place _ => h place)
  obtain ⟨hblocks, hblocks'⟩ := hsilent .unclosedIf s.conditions.unclosed
    fun _ => StructureFault.silentOnRegions nofun nofun
  obtain ⟨hinsert, hinsert'⟩ := hsilent (fun opening => .unclosedInsert opening.span)
    s.openInsert.toList fun _ => StructureFault.silentOnRegions nofun nofun
  obtain ⟨hdelete, hdelete'⟩ := hsilent (fun opening => .unclosedDelete opening.span)
    s.openDelete.toList fun _ => StructureFault.silentOnRegions nofun nofun
  have hregions : (s.openRegions.reverse.map fun region =>
      StructureFault.unclosedRegion region.name region.opening.span).map
        StructureFault.diagnostic =
      (unpaired Prod.fst (regionStarts events) pairs).map RegionStart.unclosed := by
    rw [h.opened, ← List.map_reverse, List.reverse_reverse, List.map_map, List.map_map]
    rfl
  generalize unpaired Prod.fst (regionStarts events) pairs = starts at hregions ⊢
  have hall : (starts.map RegionStart.unclosed).filter saysUnclosed =
      starts.map RegionStart.unclosed :=
    List.filter_eq_self.2 (List.forall_mem_map.2 fun o _ => (says_unclosedRegion o.name o.span).1)
  have hnone : (starts.map RegionStart.unclosed).filter saysUnmatchedEnd = [] :=
    List.filter_eq_nil_iff.2 (List.forall_mem_map.2 fun o _ =>
      Bool.eq_false_iff.1 (says_unclosedRegion o.name o.span).2)
  refine ⟨h.regions, ?_, ?_⟩
  · simp only [Scan.finish, Scan.unclosed, List.map_append, List.filter_append, h.unmatched,
      hblocks, hinsert, hdelete, hregions, hnone, List.append_nil]
  · simp only [Scan.finish, Scan.unclosed, List.map_append, List.filter_append, h.unclosed,
      hblocks', hinsert', hdelete', hregions, hall, List.append_nil, List.nil_append]

end Scan.Paired

/-! ## Modules -/

/-- Whether a piece is a line that begins with `#` and `КонецОбласти`, whatever follows. -/
def Piece.endsRegion : Piece → Bool
  | .line hash tokens _ =>
    match Cursor.shown .codeOnly (hash :: tokens) with
    | first :: second :: _ => first.kind = .hash && second.kind = .dirEndRegion
    | _ => false
  | _ => false

/-- Such a line can always be read. -/
theorem directiveOf_endRegion {line rest : List (Token Kind)} {hash keyword : Token Kind}
    (hhash : hash.kind = .hash) (hkeyword : keyword.kind = .dirEndRegion)
    (hline : Cursor.shown .codeOnly line = hash :: keyword :: rest) :
    directiveOf line = some .endRegion := by
  have hp : Parser.Faces { cursor := .onCode line, report := { mode := .general } }
      (hash :: keyword :: rest) :=
    ⟨Cursor.valid_ofTokens _ _, (Cursor.ahead_ofTokens _ _).trans hline⟩
  unfold directiveOf Parse.runOn
  generalize ({ cursor := .onCode line, report := { mode := .general } } : Parser Kind) = p
    at hp ⊢
  have hrest : (p.skip 1).Faces (keyword :: rest) := hp.next
  obtain ⟨q, hend, -⟩ := directiveEnd_ok
    { (p.skip 1).skip 1 with scopes := p.scopes ++ ["directive"] }
  have hread : (Parse.next >>= commandRest hash)
      { p.skip 1 with scopes := p.scopes ++ ["directive"] } = .ok .endRegion q := by
    rw [Parse.bind_apply, Parse.next, (hrest.opened _).peek_cons]
    refine Parse.bind_eq_ok.2 ⟨.endRegion, _, ?_, Parse.bind_eq_ok.2 ⟨(), q, hend, rfl⟩⟩
    unfold directiveBody
    rw [hkeyword]
    rfl
  rw [directive_of_hash hp hhash, Parse.within_eq_ok.2 ⟨q, hread, rfl⟩]
  rfl

theorem Piece.regionEnd_isSome {piece : Piece} (h : piece.endsRegion = true) :
    piece.event.regionEnd?.isSome = true := by
  unfold endsRegion at h
  split at h
  · split at h
    · rename_i hash line range first second rest hline
      rw [Bool.and_eq_true, decide_eq_true_eq, decide_eq_true_eq] at h
      rw [Piece.event, directiveOf_endRegion h.1 h.2 hline]
      rfl
    · cases h
  · cases h

/-- What preprocessing gives of the regions that some directives make. -/
structure Preprocessed.Regions (events : List Event) (pairs : List RegionPair)
    (result : Preprocessed) : Prop where
  matching : Matching (regionStarts events) (regionEnds events) pairs
  /-- A `#Область` that can be read is in one pair, or in none and then it is reported. -/
  starts : (pairs.map Prod.fst ++ unpaired Prod.fst (regionStarts events) pairs).Perm
    (regionStarts events)
  /-- And so is a `#КонецОбласти`. -/
  ends : (pairs.map Prod.snd ++ unpaired Prod.snd (regionEnds events) pairs).Perm
    (regionEnds events)
  regions : result.regions = pairs.map RegionPair.region
  unclosed : result.diagnostics.filter saysUnclosed =
    (unpaired Prod.fst (regionStarts events) pairs).map RegionStart.unclosed
  unmatched : result.diagnostics.filter saysUnmatchedEnd =
    (unpaired Prod.snd (regionEnds events) pairs).map RegionEnd.unmatched
  increasing : result.regions.Pairwise fun a b => a.tokens.next < b.tokens.next
  nested : result.regions.Pairwise fun a b => a.tokens.Before b.tokens ∨
    b.tokens.first < a.tokens.first ∧ a.tokens.next < b.tokens.next

/-- Scanning a module pairs its regions. -/
theorem Preprocessor.paired_scan (p : Preprocessor) (tokens : List (Token Kind)) :
    ∃ pairs, ∃ s : Scan, s.Paired ((piecesFrom 0 tokens).map Piece.event) pairs ∧
      (p.scan tokens).1 = s.finish tokens := by
  have hsilent : ∀ event ∈ (piecesFrom 0 tokens).map Piece.event,
      ∀ d ∈ event.reported, SilentOnRegions d := by
    refine List.forall_mem_map.2 fun piece _ d hd => ?_
    cases piece with
    | line hash line range =>
      exact silentOnRegions_of_reported (Q := fun _ => True)
        (readLine_reported (fun _ _ => trivial) trivial {} d hd)
    | marker | other => exact absurd hd List.not_mem_nil
  obtain ⟨pairs, hpairs⟩ := Scan.Paired.empty.run p.symbols
    (piecesFrom_sequential 0 tokens).1 hsilent
  refine ⟨pairs, _, hpairs, ?_⟩
  rw [← readPieces_eq_map p.report]
  rfl

/-- No parse says anything about regions. -/
theorem silentOnRegions_of_parse (report : Report) (tokens : List (Token Kind)) :
    ∀ d ∈ (moduleLanguage.parse report tokens).1.diagnostics, SilentOnRegions d := by
  have hparse : (moduleLanguage.parse report tokens).1.Accountable fun _ => True :=
    Language.parse_accountable fileItems file_eq_whole (file_accounts fun _ => True)
      (fun _ _ => trivial) trivial report
  exact fun d hd => silentOnRegions_of_reported (hparse.reported d hd)

/-- **Regions match like brackets.** For every token list and any symbols there are pairs of
`#Область` and `#КонецОбласти`, each end with the nearest beginning before it that has none yet, and
the regions are these pairs in the order in which they end, under the name of the beginning. Of the
beginnings that can be read and of the ends, each is in one pair, or in none and reported once; an
end can always be read. Ranges of regions end one after another, and any two of them are disjoint
or lie strictly one within the other. -/
theorem regions_matched (p : Preprocessor) (tokens : List (Token Kind)) :
    (∃ pairs, (p.preprocess tokens).1.Regions ((piecesFrom 0 tokens).map Piece.event) pairs) ∧
      ∀ piece ∈ piecesFrom 0 tokens, piece.endsRegion = true →
        piece.event.regionEnd?.isSome = true := by
  refine ⟨?_, fun piece _ h => Piece.regionEnd_isSome h⟩
  obtain ⟨pairs, s, hpaired, hscan⟩ := p.paired_scan tokens
  have hevents := (piecesFrom_sequential 0 tokens).1
  have hmatching := hpaired.matching
  obtain ⟨hregions, hunmatched, hunclosed⟩ := hpaired.finish tokens
  rw [← hscan] at hregions hunmatched hunclosed
  have hresult : (p.preprocess tokens).1.regions = pairs.map RegionPair.region := hregions
  have hdiagnostics : (p.preprocess tokens).1.diagnostics = (p.scan tokens).1.diagnostics ++
      (moduleLanguage.parse (p.scan tokens).2
        (Preprocessor.compiled (p.scan tokens).1 tokens)).1.diagnostics := rfl
  obtain ⟨hnone, hnone'⟩ := Scan.Paired.filter_silent
    (silentOnRegions_of_parse (p.scan tokens).2 (Preprocessor.compiled (p.scan tokens).1 tokens))
  refine ⟨pairs, hmatching, ?_, ?_, hresult, ?_, ?_, ?_, ?_⟩
  · exact perm_unpaired hevents.starts_nodup hmatching.once
      fun pair hp => (hmatching.nearest hp).mem
  · refine perm_unpaired hevents.ends_nodup (List.pairwise_map.2 ?_) hmatching.ends_mem
    exact (hmatching.increases hevents).imp fun hlt heq => by rw [heq] at hlt; omega
  · rw [hdiagnostics, List.filter_append, hunclosed, hnone', List.append_nil]
  · rw [hdiagnostics, List.filter_append, hunmatched, hnone, List.append_nil]
  · rw [hresult]
    exact List.pairwise_map.2 (hmatching.increases hevents)
  · rw [hresult]
    exact List.pairwise_map.2 (hmatching.nests hevents)

/-- A region, and an end that is left over. -/
theorem regions_matched_stray :
    let tokens := lexicalRules.tokenize "" "#Область А\n#КонецОбласти\n#КонецОбласти"
    let result := (Preprocessor.preprocess { symbols := {} } tokens).1
    (∃ pairs, result.Regions ((piecesFrom 0 tokens).map Piece.event) pairs) ∧
      result.regions.map Region.name = ["А"] ∧ result.errorCount = 1 ∧
      ∃ piece ∈ piecesFrom 0 tokens, piece.endsRegion = true ∧
        piece.event.regionEnd?.isSome = true := by
  intro tokens result
  obtain ⟨hregions, hends⟩ := regions_matched { symbols := {} } tokens
  have hrun : result.regions.map Region.name = ["А"] ∧ result.errorCount = 1 ∧
      (piecesFrom 0 tokens).any Piece.endsRegion = true := by decide +kernel
  obtain ⟨piece, hpiece, hend⟩ := List.any_eq_true.1 hrun.2.2
  exact ⟨hregions, hrun.1, hrun.2.1, piece, hpiece, hend, hends piece hpiece hend⟩

end BuiltInScript.Compilation
