import BuiltInScript.Compilation.Preprocessor
import BuiltInScript.Proofs.Compilation.Blocks
import BuiltInScript.Proofs.Compilation.Lines
import BuiltInScript.Proofs.Token.Cursor

/-!
# The code that is selected

Which tokens a module is compiled from, told for each token by what stands before it: the
directives that can be read there make the open blocks, and the token is compiled if the current
branch of each of them is chosen.

**Results.**
* `readPieces_eq_map`: reading a directive depends on its own line only.
* `Stands.marker`, `Stands.directiveLine`, `Stands.other`: what the scan of a piece selects, and
  where it comes to.
* `selects_pieces`: a scan from any place selects what is compiled from there on.
* `scan_code`: the code that a scan selects of a token list.
-/
namespace BuiltInScript.Compilation

open BuiltInScript.Module

/-! ## What is compiled -/

/-- What a directive line stands for, if it can be read. -/
def directiveOf (line : List (Token Kind)) : Option Directive :=
  (directive.runOn { mode := .general } (.onCode line)).1.toOption

/-- The blocks that are open after some tokens, the innermost first. Lines that cannot be read
change nothing. -/
def blocksAfter (tokens : List (Token Kind)) : List Block :=
  ((lines tokens).filterMap directiveOf).foldl nest []

/-- Whether a token is compiled, given the tokens before it: it is code, it does not lie on a
directive line, and the current branches of all open blocks are chosen. -/
def compiledAt (symbols : SymbolTable) (before : List (Token Kind)) (t : Token Kind) : Bool :=
  t.channels = .codeOnly && !t.isEnd && !onLine before t &&
    (blocksAfter before).all (chosen symbols)

/-- The tokens of a list that are compiled, in order. -/
def chosenCode (symbols : SymbolTable) (tokens : List (Token Kind)) : List (Token Kind) :=
  (tokens.zipIdx.filter fun (t, i) => compiledAt symbols (tokens.take i) t).map Prod.fst

/-- The tokens that are compiled among those after some others. -/
def chosenFrom (symbols : SymbolTable) (before : List (Token Kind)) :
    List (Token Kind) → List (Token Kind)
  | [] => []
  | t :: ts =>
    if compiledAt symbols before t then t :: chosenFrom symbols (before ++ [t]) ts
    else chosenFrom symbols (before ++ [t]) ts

section
variable {symbols : SymbolTable} {before : List (Token Kind)}

/-- Positions in the whole list or the tokens that were passed: it is the same. -/
theorem chosenCode_eq_chosenFrom (symbols : SymbolTable) (tokens : List (Token Kind)) :
    chosenCode symbols tokens = chosenFrom symbols [] tokens := by
  have hfrom (before after : List (Token Kind)) :
      ((after.zipIdx before.length).filter fun (t, i) =>
        compiledAt symbols ((before ++ after).take i) t).map Prod.fst =
      chosenFrom symbols before after := by
    induction after generalizing before with
    | nil => rfl
    | cons t ts ih =>
      have hrest := ih (before ++ [t])
      rw [List.length_append, List.length_singleton, List.append_assoc, List.singleton_append]
        at hrest
      have htake : (before ++ t :: ts).take before.length = before := List.take_left
      rw [chosenFrom, ← hrest]
      simp only [List.zipIdx_cons, List.filter_cons, htake]
      split <;> rfl
  exact hfrom [] tokens

theorem chosenFrom_cons_of_not {t : Token Kind} {ts : List (Token Kind)}
    (h : compiledAt symbols before t = false) :
    chosenFrom symbols before (t :: ts) = chosenFrom symbols (before ++ [t]) ts := by
  rw [chosenFrom, if_neg (by simp [h])]

theorem compiledAt_of_onLine {t : Token Kind} (h : onLine before t = true) :
    compiledAt symbols before t = false := by
  simp [compiledAt, h]

/-- Nothing of an open line is compiled. -/
theorem chosenFrom_content (symbols : SymbolTable) {content : List (Token Kind)}
    (after : List (Token Kind)) (hopen : lineOpen before = true)
    (hcontent : ∀ t ∈ content, breaksLine t = false) :
    chosenFrom symbols before (content ++ after) = chosenFrom symbols (before ++ content) after ∧
      lineOpen (before ++ content) = true := by
  induction content generalizing before with
  | nil => simpa using hopen
  | cons t ts ih =>
    obtain ⟨ht, hts⟩ := List.forall_mem_cons.1 hcontent
    have hnext : lineOpen (before ++ [t]) = true := by simp [lineOpen_concat, ht, hopen]
    have hline : onLine before t = true := by
      simp only [breaksLine, Bool.or_eq_false_iff] at ht
      simp [onLine, hopen, ht]
    have hrest := ih hnext hts
    rw [List.append_assoc, List.singleton_append] at hrest
    rw [List.cons_append, chosenFrom_cons_of_not (compiledAt_of_onLine hline)]
    exact hrest

end

/-! ## Reading directives -/

/-- A piece whose directive has been read by a parser that did nothing before. -/
def Piece.event : Piece → Event
  | .marker directive token range => .directive [] (some directive) token.span range
  | .line hash tokens range =>
    .directive (readLine {} (hash :: tokens)).1 (directiveOf (hash :: tokens))
      (hash.span.join (tokens.getLastD hash).span) range
  | .other token => .other token

/-- Reading a directive depends on its own line only. -/
theorem readPieces_eq_map (report : Report) (pieces : List Piece) :
    (readPieces report pieces).1 = pieces.map Piece.event := by
  induction pieces generalizing report with
  | nil => rfl
  | cons piece pieces ih =>
    cases piece with
    | marker directive token range => exact congrArg _ (ih report)
    | line hash tokens range => exact congrArg _ (ih _)
    | other token => exact congrArg _ (ih report)

/-! ## Scanning -/

/-- What the lexer does not do: a patch marker that is code. -/
def MarkersHidden (tokens : List (Token Kind)) : Prop :=
  ∀ t ∈ tokens, t.kind.isPatchMarker = true → t.channels ≠ .codeOnly

/-- A directive line has the effect of its directive, if it can be read. -/
theorem blocksAfter_append_line (before : List (Token Kind)) {content ends : List (Token Kind)}
    {hash : Token Kind} (hhash : hash.kind = .hash) (hcontent : ∀ t ∈ content, breaksLine t = false)
    (hends : ∀ t ∈ ends, t.kind = .dirNewline) :
    blocksAfter (before ++ hash :: (content ++ ends)) =
      (directiveOf (hash :: content.filter fun u => u.channels ≠ .hiddenOnly)).elim
        (blocksAfter before) (nest (blocksAfter before)) := by
  have htake : (content ++ ends).takeWhile (fun u => !breaksLine u) = content := by
    rw [List.takeWhile_append_of_pos fun u hu => by simp [hcontent u hu]]
    cases ends with
    | nil => simp
    | cons u us => simp [breaksLine, hends u List.mem_cons_self]
  have hnone : lines (content ++ ends) = [] := by
    refine lines_eq_nil fun u hu hk => ?_
    rcases List.mem_append.1 hu with hu | hu
    · simpa [breaksLine_of_hash hk] using hcontent u hu
    · rw [hends u hu] at hk
      cases hk
  unfold blocksAfter
  rw [lines_append (.inr fun u hu => by cases hu; exact breaksLine_of_hash hhash), lines,
    if_pos hhash, htake, hnone, List.filterMap_append, List.foldl_append]
  cases hread : directiveOf (hash :: content.filter fun u => u.channels ≠ .hiddenOnly) <;>
    simp only [List.filterMap_cons, List.filterMap_nil, hread, List.foldl_cons, List.foldl_nil,
      Option.elim]

/-- Nothing of a directive line is compiled, and no line is open after it. -/
theorem chosenFrom_line (symbols : SymbolTable) (before : List (Token Kind))
    {content ends after : List (Token Kind)}
    {hash : Token Kind} (hhash : hash.kind = .hash)
    (hcontent : ∀ t ∈ content, breaksLine t = false)
    (hends : (∃ t, ends = [t] ∧ t.kind = .dirNewline) ∨
      ends = [] ∧ ∀ t, after.head? = some t → breaksLine t = true ∧ t.kind ≠ .dirNewline) :
    chosenFrom symbols before (hash :: (content ++ ends ++ after)) =
        chosenFrom symbols (before ++ hash :: (content ++ ends)) after ∧
      (lineOpen (before ++ hash :: (content ++ ends)) = false ∨
        ∀ t, after.head? = some t → breaksLine t = true ∧ t.kind ≠ .dirNewline) := by
  have hopen : lineOpen (before ++ [hash]) = true := by
    simp [lineOpen_concat, breaksLine_of_hash hhash, hhash]
  obtain ⟨hcode, hstill⟩ := chosenFrom_content symbols (ends ++ after) hopen hcontent
  have hfirst : onLine before hash = true := by simp [onLine, hhash]
  rw [chosenFrom_cons_of_not (compiledAt_of_onLine hfirst), List.append_assoc, hcode]
  rcases hends with ⟨t, rfl, hnewline⟩ | ⟨rfl, hafter⟩
  · have hlast : onLine (before ++ [hash] ++ content) t = true := by
      rw [onLine, hstill]
      simp [hnewline, Kind.isPatchMarker, Token.isEnd, TokenKind.endOfInput]
    rw [List.singleton_append, chosenFrom_cons_of_not (compiledAt_of_onLine hlast)]
    refine ⟨by simp, .inl ?_⟩
    have hclosed := lineOpen_concat (before ++ [hash] ++ content) t
    simp only [breaksLine, hnewline] at hclosed
    simpa using hclosed
  · exact ⟨by simp, .inr hafter⟩

/-- A token that begins no line leaves the blocks as they are, unless a line is open. -/
theorem blocksAfter_concat {before : List (Token Kind)} {t : Token Kind} (hhash : t.kind ≠ .hash)
    (h : lineOpen before = false ∨ breaksLine t = true) :
    blocksAfter (before ++ [t]) = blocksAfter before := by
  have hnone : lines [t] = [] := lines_eq_nil (by simpa using hhash)
  unfold blocksAfter
  rw [lines_append (h.imp_right fun ht u hu => by cases hu; exact ht), hnone, List.append_nil]

theorem nest_ofPatchMarker {kind : Kind} {directive : Directive}
    (h : Directive.ofPatchMarker? kind = some directive) :
    kind.isPatchMarker = true ∧ ∀ blocks, nest blocks directive = blocks := by
  unfold Directive.ofPatchMarker? at h
  split at h <;> cases h <;> exact ⟨rfl, fun blocks => by cases blocks <;> rfl⟩

theorem not_isPatchMarker {kind : Kind} (h : Directive.ofPatchMarker? kind = none) :
    kind.isPatchMarker = false := by
  cases kind <;> first | rfl | cases h

/-- A scan that has come to a place where no directive line is open, with the flags of the blocks
that are open there. -/
structure Stands (symbols : SymbolTable) (before after : List (Token Kind)) (s : Scan) : Prop where
  line : lineOpen before = false ∨
    ∀ t, after.head? = some t → breaksLine t = true ∧ t.kind ≠ .dirNewline
  blocks : Tracks symbols (blocksAfter before) s.conditions.frames

namespace Stands

variable {symbols : SymbolTable} {before ts : List (Token Kind)} {t : Token Kind} {s : Scan}

/-- A patch marker ends a line and belongs to no block. -/
theorem marker {directive : Directive} (h : Stands symbols before (t :: ts) s)
    (hmarker : Directive.ofPatchMarker? t.kind = some directive) (hhidden : t.channels ≠ .codeOnly)
    (range : TokenRange) :
    let s' := s.step symbols (Piece.marker directive t range).event
    Stands symbols (before ++ [t]) ts s' ∧
      s'.code ++ chosenFrom symbols (before ++ [t]) ts =
        s.code ++ chosenFrom symbols before (t :: ts) := by
  obtain ⟨hkind, hnest⟩ := nest_ofPatchMarker hmarker
  have hbreak : breaksLine t = true := by simp [breaksLine, hkind]
  have hhash : t.kind ≠ .hash := fun hk => by simp [hk, Kind.isPatchMarker] at hkind
  have hopen : lineOpen (before ++ [t]) = false := by simp [lineOpen_concat, hbreak, hhash]
  obtain ⟨hcode, hblocks⟩ := h.blocks.step [] (some directive) t.span range
  rw [Option.elim, hnest, ← blocksAfter_concat hhash (.inr hbreak)] at hblocks
  refine ⟨⟨.inl hopen, hblocks⟩, ?_⟩
  rw [chosenFrom_cons_of_not (by simp [compiledAt, hhidden])]
  exact congrArg (· ++ _) hcode

/-- A directive line ends where the next piece begins. -/
theorem directiveLine {content ends : List (Token Kind)} (range : TokenRange)
    (h : Stands symbols before (t :: (content ++ ends ++ ts)) s) (hhash : t.kind = .hash)
    (hcontent : ∀ u ∈ content, breaksLine u = false)
    (hends : (∃ u, ends = [u] ∧ u.kind = .dirNewline) ∨
      ends = [] ∧ ∀ u, ts.head? = some u → breaksLine u = true ∧ u.kind ≠ .dirNewline) :
    let line := content.filter fun u => u.channels ≠ .hiddenOnly
    let s' := s.step symbols (Piece.line t line range).event
    Stands symbols (before ++ t :: (content ++ ends)) ts s' ∧
      s'.code ++ chosenFrom symbols (before ++ t :: (content ++ ends)) ts =
        s.code ++ chosenFrom symbols before (t :: (content ++ ends ++ ts)) := by
  intro line s'
  have hnewlines : ∀ u ∈ ends, u.kind = .dirNewline := by
    rcases hends with ⟨u, rfl, hu⟩ | ⟨rfl, -⟩
    · simpa using hu
    · simp
  obtain ⟨hnone, hopen⟩ := chosenFrom_line symbols before hhash hcontent hends
  obtain ⟨hcode, hblocks⟩ := h.blocks.step (readLine {} (t :: line)).1 (directiveOf (t :: line))
    (t.span.join (line.getLastD t).span) range
  rw [← blocksAfter_append_line before hhash hcontent hnewlines] at hblocks
  exact ⟨⟨hopen, hblocks⟩, hnone ▸ congrArg (· ++ _) hcode⟩

/-- A token that begins no piece of another sort does not lie on a line. -/
theorem lineOpen_eq_false (h : Stands symbols before (t :: ts) s)
    (hmarker : Directive.ofPatchMarker? t.kind = none) (hend : t.isEnd = false)
    (hhash : t.kind ≠ .hash) : lineOpen before = false := by
  rcases h.line with hclosed | hbreak
  · exact hclosed
  · obtain ⟨hbreaks, hnewline⟩ := hbreak t rfl
    simp [breaksLine, hhash, hnewline, hend, not_isPatchMarker hmarker] at hbreaks

/-- Any other token is selected if it is code and the current branches are chosen. -/
theorem other (h : Stands symbols before (t :: ts) s)
    (hmarker : Directive.ofPatchMarker? t.kind = none) (hend : t.isEnd = false)
    (hhash : t.kind ≠ .hash) :
    let s' := s.step symbols (Piece.other t).event
    Stands symbols (before ++ [t]) ts s' ∧
      s'.code ++ chosenFrom symbols (before ++ [t]) ts =
        s.code ++ chosenFrom symbols before (t :: ts) := by
  have hclosed := h.lineOpen_eq_false hmarker hend hhash
  have hnext : lineOpen (before ++ [t]) = false := by
    rw [lineOpen_concat, hclosed]
    simp [hhash]
  have hcompiled : compiledAt symbols before t =
      (t.channels = .codeOnly && s.conditions.isCompiled) := by
    simp [compiledAt, onLine, hend, hhash, hclosed, h.blocks.isCompiled]
  have hblocks := h.blocks
  rw [← blocksAfter_concat hhash (.inl hclosed)] at hblocks
  rw [chosenFrom, Piece.event, Scan.step, hcompiled]
  split
  · -- The token is selected; nothing else of the scan changes.
    exact ⟨⟨.inl hnext, hblocks⟩, by simp⟩
  · exact ⟨⟨.inl hnext, hblocks⟩, rfl⟩

end Stands

/-- **Selection.** A scan that has come to a place where no line is open selects what is compiled
from there on. -/
theorem selects_pieces {symbols : SymbolTable} {position : Nat} {before after : List (Token Kind)}
    {s : Scan} (hend : EndsLast after) (hmarkers : MarkersHidden after)
    (hstands : Stands symbols before after s) :
    (((piecesFrom position after).map Piece.event).foldl (Scan.step symbols) s).code =
      s.code ++ chosenFrom symbols before after := by
  fun_induction piecesFrom position after generalizing before s with
  | case1 position => simp [chosenFrom]
  | case2 position t ts directive hmarker ih =>
    have hkind := (nest_ofPatchMarker hmarker).1
    obtain ⟨hnext, hcode⟩ := hstands.marker hmarker (hmarkers t List.mem_cons_self hkind)
      ⟨position, position + 1⟩
    rw [List.map_cons, List.foldl_cons, ← hcode]
    exact ih hend.tail (fun u hu => hmarkers u (List.mem_cons_of_mem t hu)) hnext
  | case3 position t ts hmarker hisEnd =>
    obtain rfl := hend.eq_nil hisEnd
    rw [chosenFrom_cons_of_not (by simp [compiledAt, hisEnd])]
    simp [chosenFrom]
  | case4 position t ts hmarker hisEnd hhash line n hrest ih =>
    obtain ⟨content, ends, rest, rfl, hdrop, hread, hcontent, hends⟩ := lineRest_split ts
    rw [hrest] at hdrop hread
    dsimp only at hdrop hread
    rw [hdrop] at ih ⊢
    obtain ⟨hnext, hcode⟩ := hstands.directiveLine ⟨position, position + 1 + n⟩ hhash hcontent hends
    rw [← hread] at hnext hcode
    have hafter : EndsLast rest :=
      EndsLast.of_append (show EndsLast ((t :: (content ++ ends)) ++ rest) from hend)
    rw [List.map_cons, List.foldl_cons, ← hcode]
    exact ih hafter (fun u hu => hmarkers u (by simp [hu])) hnext
  | case5 position t ts hmarker hisEnd hhash ih =>
    obtain ⟨hnext, hcode⟩ := hstands.other hmarker (Bool.eq_false_iff.2 hisEnd) hhash
    rw [List.map_cons, List.foldl_cons, ← hcode]
    exact ih hend.tail (fun u hu => hmarkers u (List.mem_cons_of_mem t hu)) hnext

/-- The code that a preprocessor selects of a token list. -/
theorem scan_code (p : Preprocessor) {tokens : List (Token Kind)} (hend : EndsLast tokens)
    (hmarkers : MarkersHidden tokens) :
    (p.scan tokens).1.code = chosenCode p.symbols tokens := by
  have hscan : (p.scan tokens).1.code =
      (((readPieces p.report (piecesFrom 0 tokens)).1).foldl (Scan.step p.symbols) {}).code := rfl
  have hstands : Stands p.symbols [] tokens {} := ⟨.inl rfl, trivial⟩
  rw [hscan, readPieces_eq_map, chosenCode_eq_chosenFrom, selects_pieces hend hmarkers hstands]
  rfl

end BuiltInScript.Compilation
