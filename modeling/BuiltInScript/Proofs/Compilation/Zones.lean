import BuiltInScript.Proofs.Compilation.Inside
import BuiltInScript.Proofs.Module.Areas

/-!
# Zones of deletions

A scan opens a zone at each `#Удаление` and closes it at the next `#КонецУдаления`, or at the end of
the input. It would not open a zone within another one, but it is never asked to: the lexer reads
nothing but deleted text up to the end of a deletion.

**Results.**
* `Scan.Patched.marker`, `Scan.Patched.line`, `Scan.Patched.other`: what each piece of a module does
  to the zones and to what is said about them.
* `Scan.Patched.run`: a scan from any place records the deletions from there on.
* `Scan.Patched.finish`: at the end there is a zone for each `#Удаление`, one after another.
-/
namespace BuiltInScript.Compilation

open BuiltInScript.Module

/-! ## Deleted tokens -/

/-- What stands at a place of a list stands there however the list goes on. -/
theorem getElem?_append_of_some {α : Type} {before : List α} {i : Nat} {a : α}
    (h : before[i]? = some a) (more : List α) : (before ++ more)[i]? = some a := by
  rw [List.getElem?_append_left (List.getElem?_eq_some_iff.1 h).1, h]

/-- A range of deleted tokens. -/
structure TokenRange.Deleted (tokens : List (Token Kind)) (range : TokenRange) : Prop where
  nonempty : range.first < range.next
  deleted : ∀ i, range.first ≤ i → i < range.next →
    ∃ t, tokens[i]? = some t ∧ t.kind.channels = .deletedOnly

namespace TokenRange.Deleted

variable {before more : List (Token Kind)} {t : Token Kind} {range : TokenRange} {first : Nat}

theorem append (h : range.Deleted before) (more : List (Token Kind)) :
    range.Deleted (before ++ more) where
  nonempty := h.nonempty
  deleted i hfirst hnext := by
    obtain ⟨t, ht, hkind⟩ := h.deleted i hfirst hnext
    exact ⟨t, getElem?_append_of_some ht _, hkind⟩

theorem next_le_length (h : range.Deleted before) : range.next ≤ before.length := by
  have hnonempty := h.nonempty
  obtain ⟨t, ht, -⟩ := h.deleted (range.next - 1) (by omega) (by omega)
  obtain ⟨hlt, -⟩ := List.getElem?_eq_some_iff.1 ht
  omega

theorem singleton (before : List (Token Kind)) (ht : t.kind.channels = .deletedOnly) :
    Deleted (before ++ [t]) ⟨before.length, before.length + 1⟩ where
  nonempty := Nat.lt_succ_self _
  deleted i hfirst hnext := by
    obtain rfl : i = before.length := by dsimp only at hfirst hnext; omega
    exact ⟨t, List.getElem?_concat_length, ht⟩

/-- A range up to the end of the tokens goes on with them. -/
theorem concat (h : Deleted before ⟨first, before.length⟩) (ht : t.kind.channels = .deletedOnly) :
    Deleted (before ++ [t]) ⟨first, before.length + 1⟩ where
  nonempty := Nat.lt_succ_of_lt h.nonempty
  deleted i hfirst hnext := by
    rcases Nat.lt_succ_iff_lt_or_eq.1 hnext with hlt | heq
    · exact (h.append [t]).deleted i hfirst hlt
    · exact (singleton before ht).deleted i (Nat.le_of_eq heq.symm) (heq ▸ Nat.lt_succ_self _)

end TokenRange.Deleted

/-- A zone of deleted tokens, from the first of them through the last one. -/
structure Zone.Takes (tokens : List (Token Kind)) (zone : Zone) : Prop where
  deleted : zone.tokens.Deleted tokens
  span : ∃ first last, tokens[zone.tokens.first]? = some first ∧
    tokens[zone.tokens.next - 1]? = some last ∧ zone.span = first.span.join last.span

theorem Zone.Takes.append {tokens : List (Token Kind)} {zone : Zone} (h : zone.Takes tokens)
    (more : List (Token Kind)) : zone.Takes (tokens ++ more) where
  deleted := h.deleted.append more
  span := by
    obtain ⟨first, last, hfirst, hlast, hspan⟩ := h.span
    refine ⟨first, last, ?_, ?_, hspan⟩
    · exact getElem?_append_of_some hfirst _
    · exact getElem?_append_of_some hlast _

/-- The deletion zones among patch zones. -/
def deletionsOf (zones : List Zone) : List Zone := zones.filter fun zone => zone.kind = .delete

/-- Zones of deletions, one for each `#Удаление`, one after another. -/
structure DeletionZones (tokens : List (Token Kind)) (zones : List Zone) : Prop where
  starts : zones.map (fun zone => zone.tokens.first) =
    (tokens.filter fun t => t.kind = .deleteMarker).map Token.index
  takes : ∀ zone ∈ zones, zone.Takes tokens
  ordered : zones.Pairwise fun a b => a.tokens.next ≤ b.tokens.first

/-! ## What is said of nested zones -/

/-- A diagnostic that says that zones are nested. -/
def SaysNested (d : Diagnostic) : Prop := d.message = (StructureFault.nestedZone {} {}).message

/-- If it says that zones are nested, it is about two insertions. -/
def NestsInsertions (tokens : List (Token Kind)) (d : Diagnostic) : Prop :=
  SaysNested d → ∃ t ∈ tokens, ∃ u ∈ tokens, t.kind = .insertMarker ∧ u.kind = .insertMarker ∧
    d = (StructureFault.nestedZone t.span u.span).diagnostic

theorem append_ne_left {s t : String} (h : ¬s.toList <+: t.toList) (a : String) : s ++ a ≠ t := by
  rintro rfl
  exact h ⟨a.toList, by simp⟩

theorem append_ne_right {s t : String} (h : ¬s.toList <:+ t.toList) (a : String) : a ++ s ≠ t := by
  rintro rfl
  exact h ⟨a.toList, by simp⟩

/-- No parser says so. -/
theorem not_saysNested_of_reported {K : Type} [TokenKind K] {Q : Token K → Prop} {d : Diagnostic}
    (h : Reported Q d) : ¬SaysNested d := by
  obtain ⟨fault, scopes, -⟩ := h
  show fault.message ≠ (StructureFault.nestedZone {} {}).message
  cases fault with
  | expected | unclosedBracket | mismatchedBracket | unterminatedMethod =>
    exact append_ne_right (by decide) _
  | unexpected | missingSymbol => exact append_ne_left (by decide) _
  | unknownDirective | extraAfterDirective => exact append_ne_right (by decide) _
  | unterminatedStatement => exact (by decide : "`;` expected" ≠ "patch zones cannot be nested")
  | missingRegionName => exact (by decide : "region name expected" ≠ "patch zones cannot be nested")
  | missingLibraryName =>
    exact (by decide : "library name expected" ≠ "patch zones cannot be nested")
  | missingThen =>
    exact (by decide : "`Тогда` expected after the condition" ≠ "patch zones cannot be nested")

/-- No other fault of structure does. -/
theorem StructureFault.not_saysNested {fault : StructureFault}
    (h : ∀ place opened, fault ≠ .nestedZone place opened) : ¬SaysNested fault.diagnostic := by
  show fault.message ≠ (StructureFault.nestedZone {} {}).message
  cases fault with
  | nestedZone place opened => exact absurd rfl (h place opened)
  | unmatchedCondition cause place =>
    cases cause <;> simp [StructureFault.message, ConditionError.message]
  | unclosedRegion name place => exact append_ne_right (by decide) _
  | _ => simp [StructureFault.message]

/-! ## Scans -/

/-- A directive line holds neither an end marker nor the beginning of a deletion. -/
theorem not_mem_line {hash : Token Kind} {content ends : List (Token Kind)}
    (hhash : hash.kind = .hash) (hcontent : ∀ t ∈ content, breaksLine t = false)
    (hends : ∀ t ∈ ends, t.kind = .dirNewline) :
    ∀ t ∈ hash :: (content ++ ends), t.isEnd = false ∧ t.kind ≠ .deleteMarker := by
  refine List.forall_mem_cons.2 ⟨⟨decide_eq_false (by simp [hhash, TokenKind.endOfInput]),
    by simp [hhash]⟩, List.forall_mem_append.2 ⟨fun t ht => ?_, fun t ht => ?_⟩⟩
  · have hnot := hcontent t ht
    simp only [breaksLine, Bool.or_eq_false_iff] at hnot
    refine ⟨hnot.2, fun hk => ?_⟩
    simp [hk, Kind.isPatchMarker] at hnot
  · exact ⟨decide_eq_false (by simp [hends t ht, TokenKind.endOfInput]), by simp [hends t ht]⟩

/-- The tokens that a directive line takes: those before its end, a line break if it has one, and
none that ends a module or begins a deletion. -/
theorem lineRest_takes {hash : Token Kind} (hhash : hash.kind = .hash) (ts : List (Token Kind)) :
    ∃ content ends rest, ts = content ++ ends ++ rest ∧ ts.drop (lineRest ts).2 = rest ∧
      (lineRest ts).2 = content.length + ends.length ∧
      (lineRest ts).1 = content.filter (fun u => u.channels ≠ .hiddenOnly) ∧
      (∀ t ∈ ends, t.kind = .dirNewline) ∧
      (∀ t ∈ hash :: (content ++ ends), t.isEnd = false ∧ t.kind ≠ .deleteMarker) ∧
      (hash :: ts).takeWhile (fun t => !t.isEnd) =
        hash :: (content ++ ends) ++ rest.takeWhile fun t => !t.isEnd := by
  obtain ⟨content, ends, rest, heq, hdrop, hread, hcontent, hends⟩ := lineRest_split ts
  have hlength := lineRest_le_length ts
  have hcount : (lineRest ts).2 = content.length + ends.length := by
    have hrest := congrArg List.length hdrop
    have hall := congrArg List.length heq
    simp only [List.length_append, List.length_drop] at hrest hall
    omega
  have hnewlines : ∀ t ∈ ends, t.kind = .dirNewline := by
    rcases hends with ⟨u, rfl, hu⟩ | ⟨rfl, -⟩
    · simpa using hu
    · simp
  have hline := not_mem_line hhash hcontent hnewlines
  refine ⟨content, ends, rest, heq, hdrop, hcount, hread, hnewlines, hline, ?_⟩
  rw [heq, ← List.cons_append]
  exact List.takeWhile_append_of_pos fun t ht => by simp [(hline t ht).1]

/-- No directive line stands for a patch marker. -/
theorem isMarker_directiveOf {line : List (Token Kind)} {d : Directive}
    (h : directiveOf line = some d) : d.isMarker = false := by
  have hsees : Parser.Sees (fun _ => True)
      { cursor := .onCode line, report := { mode := .general } } :=
    Language.sees_onCode (fun _ _ => trivial) trivial _
  have hresult := directive_accounts hsees
  unfold directiveOf Parse.runOn at h
  generalize directive { cursor := .onCode line, report := { mode := .general } } = result
    at hresult h
  cases hresult with
  | ok _ hline =>
    cases h
    exact hline
  | error => cases h

/-- A directive about which nothing was reported. -/
theorem Scan.step_silent (symbols : SymbolTable) (s : Scan) (directive : Directive) (span : Span)
    (range : TokenRange) : s.step symbols (.directive [] (some directive) span range) =
      s.apply symbols span range directive := by
  rw [step]
  simp only [List.append_nil]

/-- What leaves the patch zones as they are, and reports nothing about nested ones. -/
structure Scan.KeepsZones (s s' : Scan) : Prop where
  zones : s'.zones = s.zones
  openInsert : s'.openInsert = s.openInsert
  openDelete : s'.openDelete = s.openDelete
  diagnostics : ∃ ds, s'.diagnostics = s.diagnostics ++ ds ∧ ∀ d ∈ ds, ¬SaysNested d

namespace Scan.KeepsZones

variable {s s' s'' : Scan}

theorem of_silent (hzones : s'.zones = s.zones) (hinsert : s'.openInsert = s.openInsert)
    (hdelete : s'.openDelete = s.openDelete) (hdiagnostics : s'.diagnostics = s.diagnostics) :
    s.KeepsZones s' :=
  ⟨hzones, hinsert, hdelete, [], by rw [hdiagnostics, List.append_nil], List.forall_mem_nil _⟩

theorem trans (h : s.KeepsZones s') (h' : s'.KeepsZones s'') : s.KeepsZones s'' where
  zones := h'.zones.trans h.zones
  openInsert := h'.openInsert.trans h.openInsert
  openDelete := h'.openDelete.trans h.openDelete
  diagnostics := by
    obtain ⟨ds, heq, hds⟩ := h.diagnostics
    obtain ⟨es, heq', hes⟩ := h'.diagnostics
    exact ⟨ds ++ es, by rw [heq', heq, List.append_assoc], List.forall_mem_append.2 ⟨hds, hes⟩⟩

theorem report {fault : StructureFault} (h : ∀ place opened, fault ≠ .nestedZone place opened) :
    s.KeepsZones (s.report fault) :=
  ⟨rfl, rfl, rfl, [fault.diagnostic], rfl,
    List.forall_mem_singleton.2 (StructureFault.not_saysNested h)⟩

theorem setConditions (span : Span) (result : Except ConditionError ConditionStack) :
    s.KeepsZones (s.setConditions span result) := by
  cases result with
  | ok conditions => exact .of_silent rfl rfl rfl rfl
  | error cause => exact .report nofun

/-- Only patch markers have to do with patch zones. -/
theorem apply (symbols : SymbolTable) (span : Span) (range : TokenRange) {directive : Directive}
    (h : directive.isMarker = false) : s.KeepsZones (s.apply symbols span range directive) := by
  cases directive with
  | ifBlock | region | use | shebang => exact .of_silent rfl rfl rfl rfl
  | elseIf | otherwise | endIf => exact .setConditions _ _
  | endRegion =>
    unfold Scan.apply Scan.endRegion
    dsimp only
    split
    · exact .report nofun
    · exact .of_silent rfl rfl rfl rfl
  | insert | endInsert | delete | endDelete => cases h

/-- Directive lines and other tokens have nothing to do with them. -/
theorem step_line (symbols : SymbolTable) {reported : List Diagnostic} {found : Option Directive}
    (span : Span) (range : TokenRange) (hreported : ∀ d ∈ reported, ¬SaysNested d)
    (hfound : ∀ directive ∈ found, directive.isMarker = false) :
    s.KeepsZones (s.step symbols (.directive reported found span range)) := by
  have hadd : s.KeepsZones { s with diagnostics := s.diagnostics ++ reported } :=
    ⟨rfl, rfl, rfl, reported, rfl, hreported⟩
  cases found with
  | none => exact hadd
  | some directive => exact hadd.trans (apply symbols span range (hfound directive rfl))

theorem step_other (symbols : SymbolTable) (t : Token Kind) :
    s.KeepsZones (s.step symbols (.other t)) := by
  rw [Scan.step]
  split <;> exact .of_silent rfl rfl rfl rfl

end Scan.KeepsZones

/-- A deletion that goes on after some tokens. -/
structure Opening.Deletes (before : List (Token Kind)) (opening : Opening) : Prop where
  area : Area.code.run before = some .deletion
  deleted : TokenRange.Deleted before ⟨opening.index, before.length⟩
  first : ∃ t, before[opening.index]? = some t ∧ opening.span = t.span

/-- What a scan has recorded of patch zones after some tokens. -/
structure Scan.Patched (before : List (Token Kind)) (s : Scan) : Prop where
  starts : (deletionsOf s.zones).map (fun zone => zone.tokens.first) ++
      s.openDelete.toList.map Opening.index =
    (before.filter fun t => t.kind = .deleteMarker).map Token.index
  takes : ∀ zone ∈ deletionsOf s.zones, zone.Takes before
  ordered : (deletionsOf s.zones).Pairwise fun a b => a.tokens.next ≤ b.tokens.first
  opened : ∀ opening ∈ s.openDelete, opening.Deletes before ∧
    ∀ zone ∈ deletionsOf s.zones, zone.tokens.next ≤ opening.index
  inserts : ∀ opening ∈ s.openInsert, ∃ t ∈ before, t.kind = .insertMarker ∧ opening.span = t.span
  nested : ∀ d ∈ s.diagnostics, NestsInsertions before d

theorem NestsInsertions.append {before : List (Token Kind)} {d : Diagnostic}
    (h : NestsInsertions before d) (more : List (Token Kind)) :
    NestsInsertions (before ++ more) d := by
  intro hsays
  obtain ⟨t, ht, u, hu, hrest⟩ := h hsays
  exact ⟨t, List.mem_append_left _ ht, u, List.mem_append_left _ hu, hrest⟩

namespace Scan.Patched

variable {before more : List (Token Kind)} {t : Token Kind} {s s' : Scan}

theorem empty : Patched [] {} where
  starts := rfl
  takes := List.forall_mem_nil _
  ordered := List.Pairwise.nil
  opened _ h := nomatch h
  inserts _ h := nomatch h
  nested := List.forall_mem_nil _

/-- Outside of deletions none is open. -/
theorem openDelete_eq_none {area : Area} (h : s.Patched before)
    (hbefore : Area.code.run before = some area) (harea : area ≠ .deletion) :
    s.openDelete = none := by
  cases hopen : s.openDelete with
  | none => rfl
  | some opening =>
    have hdeletion := ((h.opened opening hopen).1.area).symm.trans hbefore
    exact absurd (Option.some.inj hdeletion).symm harea

/-- Tokens that open and close no deletion. -/
theorem pass (h : s.Patched before) (hzones : deletionsOf s'.zones = deletionsOf s.zones)
    (hopen : s'.openDelete = s.openDelete) (hkinds : ∀ t ∈ more, t.kind ≠ .deleteMarker)
    (hgoes : ∀ opening ∈ s.openDelete, opening.Deletes (before ++ more))
    (hinserts : ∀ opening ∈ s'.openInsert,
      ∃ t ∈ before ++ more, t.kind = .insertMarker ∧ opening.span = t.span)
    (hnested : ∀ d ∈ s'.diagnostics, NestsInsertions (before ++ more) d) :
    s'.Patched (before ++ more) where
  starts := by
    have hnone : more.filter (fun t => t.kind = .deleteMarker) = [] :=
      List.filter_eq_nil_iff.2 fun t ht => by simpa using hkinds t ht
    rw [hzones, hopen, h.starts, List.filter_append, hnone, List.append_nil]
  takes := hzones ▸ fun zone hzone => (h.takes zone hzone).append more
  ordered := hzones ▸ h.ordered
  opened opening ho := by
    rw [hopen] at ho
    exact ⟨hgoes opening ho, hzones ▸ (h.opened opening ho).2⟩
  inserts := hinserts
  nested := hnested

theorem nested_append {ds : List Diagnostic} (h : s.Patched before) (more : List (Token Kind))
    (hds : ∀ d ∈ ds, ¬SaysNested d) :
    ∀ d ∈ s.diagnostics ++ ds, NestsInsertions (before ++ more) d :=
  List.forall_mem_append.2 ⟨fun d hd => (h.nested d hd).append more,
    fun d hd hsays => absurd hsays (hds d hd)⟩

theorem nested_unmatched (h : s.Patched before) (place : Span) (more : List (Token Kind)) :
    ∀ d ∈ (s.report (.unmatchedEndZone place)).diagnostics, NestsInsertions (before ++ more) d :=
  h.nested_append more (List.forall_mem_singleton.2 (StructureFault.not_saysNested nofun))

theorem inserts_append (h : s.Patched before) (more : List (Token Kind)) :
    ∀ opening ∈ s.openInsert,
      ∃ t ∈ before ++ more, t.kind = .insertMarker ∧ opening.span = t.span := by
  intro opening ho
  obtain ⟨t, ht, hrest⟩ := h.inserts opening ho
  exact ⟨t, List.mem_append_left _ ht, hrest⟩

/-- A `#Вставка` opens a zone or is said to be nested in one. -/
theorem insert {range : TokenRange} (h : s.Patched before) (hnone : s.openDelete = none)
    (ht : t.kind = .insertMarker) :
    (s.openZone .insert t.span range).Patched (before ++ [t]) := by
  have hkinds : ∀ u ∈ [t], u.kind ≠ .deleteMarker := List.forall_mem_singleton.2 (by simp [ht])
  have hgoes : ∀ opening ∈ s.openDelete, opening.Deletes (before ++ [t]) := by simp [hnone]
  have hmem : t ∈ before ++ [t] := List.mem_append_right _ (List.mem_singleton_self t)
  cases hopen : s.openInsert with
  | none =>
    have hopens : s.openZone .insert t.span range =
        { s with openInsert := some ⟨t.span, range.first⟩ } := by simp [Scan.openZone, hopen]
    rw [hopens]
    refine h.pass rfl rfl hkinds hgoes (fun opening ho => ?_) fun d hd => (h.nested d hd).append _
    cases ho
    exact ⟨t, hmem, ht, rfl⟩
  | some opened =>
    have hreports : s.openZone .insert t.span range =
        s.report (.nestedZone t.span opened.span) := by simp [Scan.openZone, hopen]
    obtain ⟨u, hu, huk, hspan⟩ := h.inserts opened hopen
    rw [hreports]
    refine h.pass rfl rfl hkinds hgoes (h.inserts_append [t]) ?_
    refine List.forall_mem_append.2 ⟨fun d hd => (h.nested d hd).append [t],
      List.forall_mem_singleton.2 fun _ => ?_⟩
    exact ⟨t, hmem, u, List.mem_append_left _ hu, ht, huk, by rw [hspan]⟩

/-- A zone that is no deletion, or the end of none. -/
theorem endInsert {range : TokenRange} (h : s.Patched before) (hnone : s.openDelete = none)
    (ht : t.kind = .endInsertMarker) :
    (s.closeZone .insert t.span range).Patched (before ++ [t]) := by
  have hkinds : ∀ u ∈ [t], u.kind ≠ .deleteMarker := List.forall_mem_singleton.2 (by simp [ht])
  have hgoes : ∀ opening ∈ s.openDelete, opening.Deletes (before ++ [t]) := by simp [hnone]
  cases hopen : s.openInsert with
  | none =>
    have hreports : s.closeZone .insert t.span range = s.report (.unmatchedEndZone t.span) := by
      simp [Scan.closeZone, hopen]
    rw [hreports]
    exact h.pass rfl rfl hkinds hgoes (h.inserts_append [t]) (h.nested_unmatched t.span [t])
  | some opened =>
    have hcloses : s.closeZone .insert t.span range =
        { s with openInsert := none }.addZone .insert opened t.span range := by
      simp [Scan.closeZone, hopen]
    rw [hcloses]
    have hinserts : ∀ opening ∈ ({ s with openInsert := none }.addZone .insert opened t.span
        range).openInsert, ∃ u ∈ before ++ [t], u.kind = .insertMarker ∧ opening.span = u.span := by
      simp [Scan.addZone]
    refine h.pass ?_ rfl hkinds hgoes hinserts fun d hd => (h.nested d hd).append [t]
    simp [Scan.addZone, deletionsOf]

/-- A `#Удаление` opens a zone: none can be open. -/
theorem delete (h : s.Patched before) (hnone : s.openDelete = none) (ht : t.kind = .deleteMarker)
    (hrun : Area.code.run (before ++ [t]) = some .deletion) (hindex : t.index = before.length) :
    (s.openZone .delete t.span ⟨before.length, before.length + 1⟩).Patched (before ++ [t]) := by
  have hopens : s.openZone .delete t.span ⟨before.length, before.length + 1⟩ =
      { s with openDelete := some ⟨t.span, before.length⟩ } := by simp [Scan.openZone, hnone]
  have hstarts := h.starts
  rw [hnone, Option.toList_none, List.map_nil, List.append_nil] at hstarts
  rw [hopens]
  exact {
    starts := by simp [hstarts, ht, hindex]
    takes := fun zone hzone => (h.takes zone hzone).append [t]
    ordered := h.ordered
    opened := by
      rintro opening ho
      cases ho
      refine ⟨⟨hrun, ?_, t, List.getElem?_concat_length, rfl⟩, fun zone hzone => ?_⟩
      · rw [List.length_append]
        exact .singleton before (by rw [ht]; rfl)
      · exact (h.takes zone hzone).deleted.next_le_length
    inserts := h.inserts_append [t]
    nested := fun d hd => (h.nested d hd).append [t] }

/-- A `#КонецУдаления` closes the open zone, if there is one. -/
theorem endDelete (h : s.Patched before) (ht : t.kind = .endDeleteMarker) :
    (s.closeZone .delete t.span ⟨before.length, before.length + 1⟩).Patched (before ++ [t]) := by
  have hkinds : ∀ u ∈ [t], u.kind ≠ .deleteMarker := List.forall_mem_singleton.2 (by simp [ht])
  cases hopen : s.openDelete with
  | none =>
    have hreports : s.closeZone .delete t.span ⟨before.length, before.length + 1⟩ =
        s.report (.unmatchedEndZone t.span) := by simp [Scan.closeZone, hopen]
    rw [hreports]
    exact h.pass rfl rfl hkinds (by simp [hopen]) (h.inserts_append [t])
      (h.nested_unmatched t.span [t])
  | some opening =>
    have hcloses : s.closeZone .delete t.span ⟨before.length, before.length + 1⟩ =
        { s with openDelete := none }.addZone .delete opening t.span
          ⟨before.length, before.length + 1⟩ := by simp [Scan.closeZone, hopen]
    obtain ⟨⟨-, hdeleted, first, hfirst, hspan⟩, hbefore⟩ := h.opened opening hopen
    have hstarts := h.starts
    have hzones : deletionsOf ({ s with openDelete := none }.addZone .delete opening t.span
        ⟨before.length, before.length + 1⟩).zones = deletionsOf s.zones ++
          [⟨.delete, opening.span.join t.span, ⟨opening.index, before.length + 1⟩⟩] := by
      simp [Scan.addZone, deletionsOf]
    rw [hopen] at hstarts
    rw [hcloses]
    exact {
      starts := by
        rw [hzones, List.map_append]
        simpa [Scan.addZone, ht] using hstarts
      takes := by
        rw [hzones]
        refine List.forall_mem_append.2 ⟨fun zone hzone => (h.takes zone hzone).append [t],
          List.forall_mem_singleton.2 ⟨hdeleted.concat (by rw [ht]; rfl), first, t, ?_, ?_, ?_⟩⟩
        · exact getElem?_append_of_some hfirst _
        · exact List.getElem?_concat_length
        · rw [hspan]
      ordered := by
        rw [hzones]
        exact List.pairwise_append.2 ⟨h.ordered, List.pairwise_singleton ..,
          fun zone hzone other ho => List.mem_singleton.1 ho ▸ hbefore zone hzone⟩
      opened := by simp [Scan.addZone]
      inserts := h.inserts_append [t]
      nested := fun d hd => (h.nested d hd).append [t] }

variable (symbols : SymbolTable)

/-- A patch marker, wherever it may stand. -/
theorem marker {area next : Area} {directive : Directive} (h : s.Patched before)
    (hmarker : Directive.ofPatchMarker? t.kind = some directive)
    (hbefore : Area.code.run before = some area) (hafter : area.after t.kind = some next)
    (hindex : t.index = before.length) :
    (s.step symbols
        (.directive [] (some directive) t.span ⟨before.length, before.length + 1⟩)).Patched
      (before ++ [t]) := by
  have hnone (ht : t.kind ≠ .endDeleteMarker) : s.openDelete = none := by
    refine h.openDelete_eq_none hbefore ?_
    rintro rfl
    rcases Area.after_deletion hafter with hk | hk | ⟨hk, -⟩
    · exact ht hk
    · rw [hk] at hmarker
      cases hmarker
    · rw [hk] at hmarker
      cases hmarker
  rw [step_silent]
  unfold Directive.ofPatchMarker? at hmarker
  split at hmarker <;> cases hmarker <;> rename_i ht
  · exact h.insert (hnone (by simp [ht])) ht
  · exact h.endInsert (hnone (by simp [ht])) ht
  · have hrun : Area.code.run (before ++ [t]) = some .deletion := by
      rw [Area.run_concat, hbefore, Option.bind_some, hafter]
      exact congrArg some (Area.after_deleteMarker (ht ▸ hafter))
    exact h.delete (hnone (by simp [ht])) ht hrun hindex
  · exact h.endDelete ht

/-- What has nothing to do with patch zones, where no deletion is open. -/
theorem keep (h : s.Patched before) (hkeeps : s.KeepsZones s')
    (hkinds : ∀ t ∈ more, t.kind ≠ .deleteMarker)
    (hgoes : ∀ opening ∈ s.openDelete, opening.Deletes (before ++ more)) :
    s'.Patched (before ++ more) := by
  obtain ⟨hzones, hinsert, hdelete, ds, heq, hds⟩ := hkeeps
  refine h.pass (by rw [hzones]) hdelete hkinds hgoes ?_ ?_
  · rw [hinsert]
    exact h.inserts_append more
  · rw [heq]
    exact h.nested_append more hds

/-- A token that is no patch marker. A deletion goes on with it if it can. -/
theorem other {area next : Area} (h : s.Patched before)
    (hmarker : Directive.ofPatchMarker? t.kind = none) (hend : t.isEnd = false)
    (hbefore : Area.code.run before = some area) (hafter : area.after t.kind = some next) :
    (s.step symbols (.other t)).Patched (before ++ [t]) := by
  refine h.keep (.step_other symbols t) ?_ fun opening ho => ?_
  · refine List.forall_mem_singleton.2 fun hk => ?_
    rw [hk] at hmarker
    cases hmarker
  · obtain ⟨⟨harea, hdeleted, first, hfirst, hspan⟩, -⟩ := h.opened opening ho
    obtain rfl : area = .deletion := Option.some.inj (hbefore.symm.trans harea)
    rcases Area.after_deletion hafter with hk | hk | ⟨hk, rfl⟩
    · rw [hk] at hmarker
      cases hmarker
    · exact absurd hk (of_decide_eq_false hend)
    · refine ⟨?_, ?_, first, ?_, hspan⟩
      · rw [Area.run_concat, harea]
        exact hafter
      · rw [List.length_append]
        exact hdeleted.concat (by rw [hk]; rfl)
      · exact getElem?_append_of_some hfirst _

/-- **Zones of deletions.** A scan that has come to a place records the deletions from there on, up
to the end marker. -/
theorem run {tokens after : List (Token Kind)} {position : Nat}
    (hareas : (Area.code.run tokens).isSome)
    (hindex : ∀ i (t : Token Kind), tokens[i]? = some t → t.index = i)
    (htokens : tokens = before ++ after) (hposition : position = before.length)
    (h : s.Patched before) :
    (((piecesFrom position after).map Piece.event).foldl (Scan.step symbols) s).Patched
      (before ++ after.takeWhile fun t => !t.isEnd) := by
  fun_induction piecesFrom position after generalizing before s with
  | case1 position => simpa using h
  | case2 position t ts directive hmarker ih =>
    obtain ⟨area, next, hbefore, hafter, -⟩ := Area.run_of_append_cons (htokens ▸ hareas)
    have ht : t.index = before.length := hindex _ t (by rw [htokens]; simp)
    have hnot : t.isEnd = false := by
      refine decide_eq_false fun hk => ?_
      rw [show t.kind = .endOfInput from hk] at hmarker
      cases hmarker
    have hstep := h.marker symbols hmarker hbefore hafter ht
    rw [← hposition] at hstep
    have hrest := ih (by rw [htokens, List.append_assoc]; rfl) (by simp [hposition]) hstep
    rw [List.takeWhile_cons_of_pos (by simp [hnot]), List.append_cons]
    exact hrest
  | case3 position t ts hmarker hisEnd => simpa [hisEnd] using h
  | case4 position t ts hmarker hisEnd hhash line n hrest ih =>
    obtain ⟨content, ends, rest, heq, hdrop, hcount, -, -, hline, htake⟩ := lineRest_takes hhash ts
    rw [hrest] at hdrop hcount
    dsimp only at hdrop hcount
    obtain ⟨area, next, hbefore, hafter, -⟩ := Area.run_of_append_cons (htokens ▸ hareas)
    have harea : area ≠ .deletion := by
      rintro rfl
      rcases Area.after_deletion hafter with hk | hk | ⟨hk, -⟩ <;> cases hhash.symm.trans hk
    have hnone := h.openDelete_eq_none hbefore harea
    have hstep : (s.step symbols (Piece.line t line ⟨position, position + 1 + n⟩).event).Patched
        (before ++ t :: (content ++ ends)) :=
      h.keep (.step_line symbols _ _ (fun d hd => not_saysNested_of_reported (Q := fun _ => True)
          (readLine_reported (fun _ _ => trivial) trivial {} d hd))
        fun directive hd => isMarker_directiveOf hd) (fun u hu => (hline u hu).2) (by simp [hnone])
    have hnext : position + 1 + n = (before ++ t :: (content ++ ends)).length := by
      simp only [List.length_append, List.length_cons]
      omega
    rw [hdrop] at ih ⊢
    rw [htake, ← List.append_assoc]
    exact ih (by simp [htokens, heq]) hnext hstep
  | case5 position t ts hmarker hisEnd hhash ih =>
    obtain ⟨area, next, hbefore, hafter, -⟩ := Area.run_of_append_cons (htokens ▸ hareas)
    have hnot : t.isEnd = false := by simpa using hisEnd
    have hstep := h.other symbols hmarker hnot hbefore hafter
    have hrest := ih (by rw [htokens, List.append_assoc]; rfl) (by simp [hposition]) hstep
    rw [List.takeWhile_cons_of_pos (by simp [hnot]), List.append_cons]
    exact hrest

/-- A deletion that is never ended takes everything up to the end marker. -/
theorem takes_unclosed {body : List (Token Kind)} {opening : Opening} (h : opening.Deletes body)
    (endMarker : Token Kind) :
    (unclosedDeletion opening (body ++ [endMarker])).tokens = ⟨opening.index, body.length⟩ ∧
      (unclosedDeletion opening (body ++ [endMarker])).Takes (body ++ [endMarker]) := by
  obtain ⟨-, hdeleted, first, hfirst, hspan⟩ := h
  have hnonempty := hdeleted.nonempty
  dsimp only at hnonempty
  obtain ⟨last, hlast, -⟩ := hdeleted.deleted (body.length - 1) (by dsimp only; omega)
    (by dsimp only; omega)
  have hlength : (body ++ [endMarker]).length - 1 = body.length := by simp
  have hlast' : (body ++ [endMarker])[body.length - 1]? = some last :=
    getElem?_append_of_some hlast _
  have hzone : unclosedDeletion opening (body ++ [endMarker]) =
      ⟨.delete, opening.span.join last.span, ⟨opening.index, body.length⟩⟩ := by
    unfold unclosedDeletion
    simp only [hlength, hlast']
  rw [hzone]
  refine ⟨rfl, hdeleted.append _, first, last, ?_, hlast', by rw [hspan]⟩
  exact getElem?_append_of_some hfirst _

/-- At the end of the input there is a zone for each `#Удаление`. -/
theorem finish {body : List (Token Kind)} {endMarker : Token Kind} (h : s.Patched body)
    (hend : endMarker.kind ≠ .deleteMarker) :
    DeletionZones (body ++ [endMarker]) (deletionsOf (s.finish (body ++ [endMarker])).zones) ∧
      ∀ d ∈ (s.finish (body ++ [endMarker])).diagnostics,
        NestsInsertions (body ++ [endMarker]) d := by
  have hunclosed : ∀ d ∈ s.unclosed.map StructureFault.diagnostic, ¬SaysNested d := by
    refine List.forall_mem_map.2 fun fault hfault => StructureFault.not_saysNested ?_
    rintro place opened rfl
    simp [unclosed] at hfault
  refine ⟨?_, h.nested_append [endMarker] hunclosed⟩
  have hzones : deletionsOf (s.finish (body ++ [endMarker])).zones = deletionsOf s.zones ++
      s.openDelete.toList.map fun opening => unclosedDeletion opening (body ++ [endMarker]) := by
    rw [Scan.finish, deletionsOf, List.filter_append]
    exact congrArg _ (List.filter_eq_self.2 (List.forall_mem_map.2 fun opening _ => rfl))
  have hstarts := h.starts
  have htakes := fun zone hzone => (h.takes zone hzone).append [endMarker]
  rw [hzones]
  cases hopen : s.openDelete with
  | none =>
    rw [hopen] at hstarts
    simp only [Option.toList_none, List.map_nil, List.append_nil] at hstarts ⊢
    exact ⟨by simp [hstarts, hend], htakes, h.ordered⟩
  | some opening =>
    obtain ⟨hdeletes, hbefore⟩ := h.opened opening hopen
    obtain ⟨htokens, hunclosed⟩ := takes_unclosed hdeletes endMarker
    rw [hopen] at hstarts
    simp only [Option.toList_some, List.map_cons, List.map_nil] at hstarts ⊢
    refine ⟨?_, List.forall_mem_append.2 ⟨htakes, List.forall_mem_singleton.2 hunclosed⟩, ?_⟩
    · simpa [htokens, hend] using hstarts
    · refine List.pairwise_append.2 ⟨h.ordered, List.pairwise_singleton ..,
        fun zone hzone other ho => ?_⟩
      rw [List.mem_singleton.1 ho, htokens]
      exact hbefore zone hzone

end Scan.Patched

/-- A scan of a whole module records its deletions, up to the end marker. -/
theorem Preprocessor.patched_scan (p : Preprocessor) {tokens : List (Token Kind)}
    (hareas : (Area.code.run tokens).isSome)
    (hindex : ∀ i (t : Token Kind), tokens[i]? = some t → t.index = i) :
    ∃ s : Scan, s.Patched (tokens.takeWhile fun t => !t.isEnd) ∧
      (p.scan tokens).1 = s.finish tokens := by
  refine ⟨_, Scan.Patched.empty.run p.symbols hareas hindex rfl rfl, ?_⟩
  rw [← readPieces_eq_map p.report]
  rfl

end BuiltInScript.Compilation
