import BuiltInScript.Proofs.Compilation.Preprocessor
import BuiltInScript.Proofs.Compilation.Zones
import BuiltInScript.Proofs.Module.Derivation

/-!
# Directives and deletions are dropped

The scan does not look whether it is in a deletion: it takes whatever stands on the code channel,
outside of directive lines. It relies on the lexer, which puts everything in a deletion on a channel
of its own, begins no directive and no deletion within another one, and lets nothing but a line
break end a directive.

**Results.**
* `lineOpen_eq`: the scanner sees directive lines where the lexer reads them.
* `Lexed.deletionsWhole`: a deletion holds nothing but deleted text.
* `Lexed.scan`: the scan of a text records a zone for each of its deletions, one after another.
* `preprocess_drops`: nothing of directives and deletions is compiled, and each `#Удаление` has a
  zone of its own.
-/
namespace BuiltInScript.Compilation

open BuiltInScript.Module

/-! ## Areas and lines -/

/-- The tokens of a text, as far as directives and deletions go. -/
structure Lexed (tokens : List (Token Kind)) : Prop where
  areas : (Area.code.run tokens).isSome
  channels : ∀ t ∈ tokens, t.isEnd = false → t.channels = t.kind.channels
  ends : ∃ body marker, tokens = body ++ [marker] ∧ marker.isEnd = true ∧
    ∀ t ∈ body, t.isEnd = false

/-- The tokens of a text are so, with the end marker hidden or not. -/
theorem lexed {name text : String} {tokens : List (Token Kind)}
    (h : tokens = lexicalRules.tokenize name text ∨
      tokens = hideLast (lexicalRules.tokenize name text)) : Lexed tokens := by
  obtain ⟨body, marker, heq, hend, hbody⟩ :=
    (lexicalRules_plain.lossless name text).tokenize_ends
  have hareas := tokenize_areas name text
  have hchannels : ∀ t ∈ lexicalRules.tokenize name text, t.channels = t.kind.channels :=
    Lexer.tokensUpTo_channels _ _
  rw [heq] at h hareas hchannels
  rw [hideLast_concat] at h
  rcases h with rfl | rfl
  · exact ⟨hareas, fun t ht _ => hchannels t ht, body, marker, rfl, hend, hbody⟩
  · refine ⟨?_, fun t ht hnot => ?_, body, _, rfl, hend, hbody⟩
    · rw [Area.run_concat] at hareas ⊢
      exact hareas
    · rcases List.mem_append.1 ht with ht | ht
      · exact hchannels t (List.mem_append_left _ ht)
      · rw [List.mem_singleton.1 ht] at hnot
        exact absurd (hend.symm.trans hnot) nofun

theorem breaksLine_eq (t : Token Kind) : breaksLine t =
    (t.kind = .hash || t.kind = .dirNewline || t.kind.isPatchMarker || t.kind = .endOfInput) := rfl

/-- The scanner sees directive lines where the lexer reads them. -/
theorem lineOpen_eq {before : List (Token Kind)} {area : Area}
    (h : Area.code.run before = some area) : lineOpen before = decide (area = .directive) := by
  induction before using List.reverseRecOn generalizing area with
  | nil =>
    cases h
    rfl
  | append_singleton before t ih =>
    rw [Area.run_concat] at h
    obtain ⟨here, hbefore, hafter⟩ := Option.bind_eq_some_iff.1 h
    rw [lineOpen_concat, ih hbefore, breaksLine_eq]
    generalize t.kind = kind at hafter
    cases here <;> cases kind <;> cases hafter <;> rfl

/-- Code of its own: neither a part of a directive nor a patch marker. -/
def IsCode (kind : Kind) : Prop :=
  kind ≠ .hash ∧ kind.isDirectivePart = false ∧ kind.isPatchMarker = false

/-- What is compiled of the tokens that may stand at a place is code. -/
theorem isCode_of_compiledAt {symbols : SymbolTable} {before : List (Token Kind)} {t : Token Kind}
    {area next : Area} (hbefore : Area.code.run before = some area)
    (hafter : area.after t.kind = some next)
    (hchannels : t.isEnd = false → t.channels = t.kind.channels)
    (h : compiledAt symbols before t = true) : IsCode t.kind ∧ t.kind.channels = .codeOnly := by
  simp only [compiledAt, onLine, lineOpen_eq hbefore, Bool.and_eq_true, decide_eq_true_eq,
    Bool.not_eq_true', Bool.or_eq_false_iff, decide_eq_false_iff_not] at h
  obtain ⟨⟨⟨hcode, hend⟩, hhash, hline⟩, -⟩ := h
  have hkind : t.kind.channels = .codeOnly := (hchannels hend).symm.trans hcode
  have hmarker : t.kind.isPatchMarker = false :=
    Bool.eq_false_iff.2 fun hmarker => channels_of_isPatchMarker hmarker hkind
  have hdirective : area ≠ .directive := by simpa [hmarker, hend] using hline
  refine ⟨⟨hhash, ?_, hmarker⟩, hkind⟩
  cases area with
  | code => exact Area.after_code hafter
  | directive => exact absurd rfl hdirective
  | deletion =>
    -- All that a deletion holds is on a channel of its own.
    rcases Area.after_deletion hafter with hk | hk | ⟨hk, -⟩
    · rw [hk] at hmarker
      cases hmarker
    · exact absurd hk (of_decide_eq_false hend)
    · rw [hk] at hkind
      cases hkind

/-! ## Deletions -/

/-- From each `#Удаление` to the next `#КонецУдаления`, or to the end of the input, there is only
deleted text. -/
def DeletionsWhole (tokens : List (Token Kind)) : Prop :=
  ∀ before d between after, tokens = before ++ d :: (between ++ after) → d.kind = .deleteMarker →
    (∀ t ∈ between, t.kind ≠ .endDeleteMarker ∧ t.isEnd = false) →
      ∀ t ∈ between, t.kind = .deletedText ∧ t.channels = .deletedOnly

theorem Lexed.deletionsWhole {tokens : List (Token Kind)} (h : Lexed tokens) :
    DeletionsWhole tokens := by
  rintro before d between after rfl hd hnot t ht
  obtain ⟨_, next, -, hafter, hrest⟩ := Area.run_of_append_cons h.areas
  obtain rfl : next = .deletion := Area.after_deleteMarker (hd ▸ hafter)
  have hkind := Area.deletedText_of_run hrest hnot t ht
  have hmem : t ∈ before ++ d :: (between ++ after) := by simp [ht]
  exact ⟨hkind, (h.channels t hmem (hnot t ht).2).trans (by rw [hkind]; rfl)⟩

/-- A token that stands before or after a zone, among the tokens and in the text. -/
def Zone.Avoids (zone : Zone) (t : Token Kind) : Prop :=
  t.index < zone.tokens.first ∧ t.span.stop ≤ zone.span.start ∨
    zone.tokens.next ≤ t.index ∧ zone.span.stop ≤ t.span.start

section
variable {text : String} {tokens : List (Token Kind)} {zone other : Zone} {t : Token Kind}

/-- A zone reaches from the beginning of its first token to the end of its last one. -/
theorem Zone.Takes.span_eq (h : zone.Takes tokens) (htiles : Tiles text 0 0 tokens) :
    ∃ first last, tokens[zone.tokens.first]? = some first ∧
      tokens[zone.tokens.next - 1]? = some last ∧
      zone.span.start = first.span.start ∧ zone.span.stop = last.span.stop := by
  obtain ⟨first, last, hfirst, hlast, hspan⟩ := h.span
  have hnonempty := h.deleted.nonempty
  have hle := htiles.mono (by omega) hfirst hlast
  rw [hspan, Span.join_eq_of_le hle.1 hle.2]
  exact ⟨first, last, hfirst, hlast, rfl, rfl⟩

/-- No other token is in a zone of deleted tokens. -/
theorem Zone.Takes.avoids (h : zone.Takes tokens) (htiles : Tiles text 0 0 tokens) {i : Nat}
    (ht : tokens[i]? = some t) (hkind : t.kind.channels ≠ .deletedOnly) : zone.Avoids t := by
  obtain ⟨first, last, hfirst, hlast, hstart, hstop⟩ := h.span_eq htiles
  have hindex : t.index = i := (htiles.numbered i t ht).trans (Nat.zero_add i)
  have hnonempty := h.deleted.nonempty
  unfold Avoids
  rw [hindex, hstart, hstop]
  rcases Nat.lt_or_ge i zone.tokens.first with hlt | hge
  · exact .inl ⟨hlt, htiles.stop_le_start hlt ht hfirst⟩
  · rcases Nat.lt_or_ge i zone.tokens.next with hlt | hnext
    · obtain ⟨u, hu, huk⟩ := h.deleted.deleted i hge hlt
      obtain rfl : t = u := Option.some.inj (ht.symm.trans hu)
      exact absurd huk hkind
    · exact .inr ⟨hnext, htiles.stop_le_start (by omega) hlast ht⟩

/-- Zones that follow each other among the tokens follow each other in the text. -/
theorem Zone.Takes.stop_le_start (h : zone.Takes tokens) (h' : other.Takes tokens)
    (htiles : Tiles text 0 0 tokens) (hnext : zone.tokens.next ≤ other.tokens.first) :
    zone.span.stop ≤ other.span.start := by
  obtain ⟨-, last, -, hlast, -, hstop⟩ := h.span_eq htiles
  obtain ⟨first, -, hfirst, -, hstart, -⟩ := h'.span_eq htiles
  have hnonempty := h.deleted.nonempty
  rw [hstart, hstop]
  exact htiles.stop_le_start (by omega) hlast hfirst

end

/-! ## What is compiled -/

/-- What is compiled was there. -/
theorem mem_chosenCode {symbols : SymbolTable} {tokens : List (Token Kind)} {t : Token Kind}
    (h : t ∈ chosenCode symbols tokens) :
    ∃ i, tokens[i]? = some t ∧ compiledAt symbols (tokens.take i) t = true := by
  obtain ⟨⟨u, i⟩, hmem, rfl⟩ := List.mem_map.1 h
  obtain ⟨hmem, hcompiled⟩ := List.mem_filter.1 hmem
  exact ⟨i, List.mem_zipIdx_iff_getElem?.1 hmem, hcompiled⟩

section
variable {text : String} {tokens : List (Token Kind)}

/-- Nothing but code is compiled. -/
theorem Lexed.isCode_of_chosen (h : Lexed tokens) {symbols : SymbolTable} {t : Token Kind}
    (ht : t ∈ chosenCode symbols tokens) :
    ∃ i : Nat, tokens[i]? = some t ∧ IsCode t.kind ∧ t.kind.channels = .codeOnly := by
  obtain ⟨i, hi, hcompiled⟩ := mem_chosenCode ht
  obtain ⟨hlt, rfl⟩ := List.getElem?_eq_some_iff.1 hi
  have hsplit : tokens.take i ++ tokens[i] :: tokens.drop (i + 1) = tokens := by simp
  obtain ⟨area, next, hbefore, hafter, -⟩ := Area.run_of_append_cons (hsplit.symm ▸ h.areas)
  exact ⟨i, hi, isCode_of_compiledAt hbefore hafter (h.channels _ (List.getElem_mem hlt)) hcompiled⟩

/-- A scan records the deletions of a text. -/
theorem Lexed.scan (h : Lexed tokens) (htiles : Tiles text 0 0 tokens) (p : Preprocessor) :
    DeletionZones tokens (deletionsOf (p.scan tokens).1.zones) ∧
      ∀ d ∈ (p.scan tokens).1.diagnostics, NestsInsertions tokens d := by
  have hindex (i : Nat) (t : Token Kind) (ht : tokens[i]? = some t) : t.index = i :=
    (htiles.numbered i t ht).trans (Nat.zero_add i)
  obtain ⟨s, hrun, hscan⟩ := p.patched_scan h.areas hindex
  obtain ⟨body, marker, heq, hend, hbody⟩ := h.ends
  have htake : (tokens.takeWhile fun t => !t.isEnd) = body := by
    rw [heq, List.takeWhile_append_of_pos fun t ht => by simp [hbody t ht]]
    simp [hend]
  have hmarker : marker.kind ≠ .deleteMarker := by
    rw [show marker.kind = .endOfInput from of_decide_eq_true hend]
    nofun
  rw [htake] at hrun
  rw [hscan, heq]
  exact hrun.finish hmarker

end

/-- No parse says that zones are nested. -/
theorem not_saysNested_of_parse (report : Report) (tokens : List (Token Kind)) :
    ∀ d ∈ (moduleLanguage.parse report tokens).1.diagnostics, ¬SaysNested d := by
  have hparse : (moduleLanguage.parse report tokens).1.Accountable fun _ => True :=
    Language.parse_accountable fileItems file_eq_whole (file_accounts fun _ => True)
      (fun _ _ => trivial) trivial report
  exact fun d hd => not_saysNested_of_reported (hparse.reported d hd)

/-- What preprocessing a token list gives has nothing of its directives and deletions, and has a
zone for each deletion. -/
structure Preprocessed.Drops (tokens : List (Token Kind)) (result : Preprocessed) : Prop where
  code : ∀ t ∈ result.tokens, IsCode t.kind
  avoids : ∀ t ∈ result.tokens, ∀ zone ∈ deletionsOf result.zones, zone.Avoids t
  tree : result.tree.findAll .directive = []
  zones : DeletionZones tokens (deletionsOf result.zones)
  apart : (deletionsOf result.zones).Pairwise fun a b => a.span.stop ≤ b.span.start
  nested : ∀ d ∈ result.diagnostics, NestsInsertions tokens d

/-- **Directives and deletions are dropped.** Of every text and for any symbols: from each
`#Удаление` to the next `#КонецУдаления`, or to the end, the lexer makes nothing but deleted text;
what is compiled has no `#`, no part of a directive, no patch marker and no token of a deletion, and
its tree has no directives; each `#Удаление` has one zone, and these zones follow one another. No
deletion is said to be nested: what is said about nested zones is about two insertions. -/
theorem preprocess_drops (p : Preprocessor) (name text : String) {tokens : List (Token Kind)}
    (h : tokens = lexicalRules.tokenize name text ∨
      tokens = hideLast (lexicalRules.tokenize name text)) :
    DeletionsWhole tokens ∧ (p.preprocess tokens).1.Drops tokens := by
  have hlexed := lexed h
  have htiles := lexed_tiles (lexicalRules_plain.lossless name text) h
  obtain ⟨hends, hmarkers⟩ := lexed_scannable name text h
  obtain ⟨hzones, hnested⟩ := hlexed.scan htiles p
  -- Each compiled token is one of the list, the end marker but for its channels.
  have hcompiled : ∀ t ∈ Preprocessor.compiled (p.scan tokens).1 tokens, IsCode t.kind ∧
      ∀ zone ∈ deletionsOf (p.scan tokens).1.zones, zone.Avoids t := by
    refine List.forall_mem_append.2 ⟨fun t ht => ?_, List.forall_mem_singleton.2 ?_⟩
    · rw [scan_code p hends hmarkers] at ht
      obtain ⟨i, hi, hcode, hchannels⟩ := hlexed.isCode_of_chosen ht
      have hnot : t.kind.channels ≠ .deletedOnly := by
        rw [hchannels]
        decide
      exact ⟨hcode, fun zone hzone => (hzones.takes zone hzone).avoids htiles hi hnot⟩
    · obtain ⟨body, marker, rfl, hend, -⟩ := hlexed.ends
      have hmarker : Token.endOf (body ++ [marker]) = marker := by
        rw [Token.endOf, List.getLast?_concat]
        exact if_pos hend
      have hkind : marker.kind = .endOfInput := of_decide_eq_true hend
      rw [hmarker]
      refine ⟨?_, fun zone hzone => ?_⟩
      · simp [IsCode, hkind, Kind.isDirectivePart, Kind.isPatchMarker]
      · have havoids : zone.Avoids marker := (hzones.takes zone hzone).avoids htiles
          List.getElem?_concat_length (by rw [hkind]; decide)
        exact havoids
  refine ⟨hlexed.deletionsWhole, fun t ht => (hcompiled t ht).1, fun t ht => (hcompiled t ht).2,
    findAll_directive _ fun t ht => (hcompiled t ht).1.1, hzones, ?_, ?_⟩
  · refine hzones.ordered.imp_of_mem fun {a b} ha hb hnext => ?_
    exact (hzones.takes a ha).stop_le_start (hzones.takes b hb) htiles hnext
  · exact List.forall_mem_append.2 ⟨hnested, fun d hd hsays =>
      absurd hsays (not_saysNested_of_parse _ _ d hd)⟩

/-- A `#` in a deletion. -/
theorem preprocess_drops_hash :
    let tokens := lexicalRules.tokenize "" "#Удаление\n#\n#КонецУдаления;"
    let p : Preprocessor := { symbols := {} }
    (p.preprocess tokens).1.tokens.map Token.text = [";", ""] ∧
      (p.preprocess tokens).1.zones.map Zone.tokens = [⟨0, 4⟩] ∧
      (p.preprocess tokens).1.Drops tokens := by
  intro tokens p
  have hdrops := preprocess_drops p "" "#Удаление\n#\n#КонецУдаления;" (.inl rfl)
  exact ⟨by decide +kernel, by decide +kernel, hdrops.2⟩

end BuiltInScript.Compilation
