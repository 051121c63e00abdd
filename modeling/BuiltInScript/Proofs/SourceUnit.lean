import BuiltInScript.Proofs.Compilation.Selection
import BuiltInScript.Proofs.Module.Lexis
import BuiltInScript.Proofs.Query.Lexis
import BuiltInScript.SourceUnit

/-!
# Source units through their lives

A source unit keeps its lexer and its parser's report over all texts that it is given, and its
tokens and its tree until the next. Neither is seen from outside: the lexer is put at the
beginning of the text before it reads, a parse forgets the report that it finds, and what is kept
is what would be computed again.

The spans of the tokens are meant for the text of the unit. But a unit drops a byte order mark from
what it is given, and its lexer drops one from what the unit passes on.

**Results.**
* `Faithful.answer`: a unit that keeps only what belongs to its text answers as a new one, and
  goes on to keep only that.
* `Faithful.after`: so it is after any number of requests.
* `Preprocessor.preprocessUnit_eq`: what is compiled of a unit is told by its text and the symbols.
* `no_memory`: what a unit or a preprocessor was used for before makes no difference.
* `SourceUnit.ofBytes_eq`: a unit read from bytes has lost one byte order mark more.
* `tokens_tile_iff`: the tokens tile the text of the unit unless there were two byte order marks.
-/
namespace BuiltInScript

variable {E K R M F : Type}

/-! ## Requests -/

/-- What may be asked of a source unit, and what may be done to it. The diagnostics may be rendered
by anything. -/
inductive Request (E : Type) where
  | tokens
  | tree
  | parsed
  | errorCount
  | diagnostics
  | render (renderer : Renderer E)
  | rebuild (text : String)

/-- What a source unit answers. -/
inductive Answer (E R K : Type) where
  | tokens (tokens : List (Token K))
  | tree (tree : Node R K)
  | parsed (parsed : Parsed R K)
  | errorCount (count : Nat)
  | diagnostics (diagnostics : List Diagnostic)
  | rendered (rendered : Except E String)
  | rebuilt

/-- The text after a request, if it was this before. -/
def Request.textAfter (text : String) : Request E → String
  | .rebuild text => text
  | _ => text

/-- The text that was given last, if the first was this. -/
def lastText (text : String) (requests : List (Request E)) : String :=
  requests.foldl Request.textAfter text

namespace SourceUnit

variable {lang : Language K R M F} [DecidableEq K] [TokenKind K]

def answer (u : SourceUnit lang) : Request E → Answer E R K × SourceUnit lang
  | .tokens => (.tokens u.tokens.1, u.tokens.2)
  | .tree => (.tree u.tree.1, u.tree.2)
  | .parsed => (.parsed u.parsed.1, u.parsed.2)
  | .errorCount => (.errorCount u.errorCount.1, u.errorCount.2)
  | .diagnostics => (.diagnostics u.diagnostics.1, u.diagnostics.2)
  | .render renderer => (.rendered (u.render renderer).1, (u.render renderer).2)
  | .rebuild text => (.rebuilt, u.rebuild text)

/-- The unit after some requests. -/
def after (u : SourceUnit lang) (requests : List (Request E)) : SourceUnit lang :=
  requests.foldl (fun u request => (u.answer request).2) u

/-! ## What a unit keeps -/

/-- A unit with this name and text that keeps nothing but their tokens and what is parsed from
them. -/
structure Faithful (name text : String) (u : SourceUnit lang) : Prop where
  name_eq : u.name = name
  text_eq : u.text = Text.stripByteOrderMark text
  tokens_eq : ∀ tokens, u.tokenMemo.value? = some tokens → tokens = (fresh lang name text).tokens.1
  parsed_eq : ∀ parsed, u.parsedMemo.value? = some parsed → parsed = (fresh lang name text).parsed.1

omit [DecidableEq K] [TokenKind K] in
/-- A lexer that is given an input forgets everything else. -/
theorem setInput_eq {rules : LexicalRules K M F} (l : Lexer rules) (name text : String) :
    l.setInput (.ofText name text) = .ofText rules name text := rfl

theorem tokens_of_none {u : SourceUnit lang} (h : u.tokenMemo.value? = none) :
    u.tokens.1 = hideLast (lang.lexicalRules.tokenize u.name u.text) := by
  simp only [tokens, h, setInput_eq, LexicalRules.tokenize]

theorem parsed_of_none {u : SourceUnit lang} (h : u.parsedMemo.value? = none) :
    u.parsed.1 = (lang.parse {} u.tokens.1).1 := by
  simp only [parsed, h]
  rw [lang.parse_report u.tokens.2.report {}]

namespace Faithful

variable {name text : String} {u : SourceUnit lang}

/-- A unit that keeps nothing. -/
theorem of_empty (hname : u.name = name) (htext : u.text = Text.stripByteOrderMark text)
    (htokens : u.tokenMemo = {}) (hparsed : u.parsedMemo = {}) : u.Faithful name text := by
  refine ⟨hname, htext, fun tokens h => ?_, fun parsed h => ?_⟩
  · rw [htokens] at h
    cases h
  · rw [hparsed] at h
    cases h

theorem of_fresh (lang : Language K R M F) (name text : String) :
    (fresh lang name text).Faithful name text := of_empty rfl rfl rfl rfl

theorem rebuild (h : u.Faithful name text) (text' : String) :
    (u.rebuild text').Faithful name text' := of_empty h.name_eq rfl rfl rfl

theorem tokens (h : u.Faithful name text) :
    u.tokens.1 = (fresh lang name text).tokens.1 ∧ u.tokens.2.Faithful name text := by
  cases hmemo : u.tokenMemo.value? with
  | some tokens =>
    have hkept : u.tokens = (tokens, u) := by simp only [SourceUnit.tokens, hmemo]
    rw [hkept]
    exact ⟨h.tokens_eq tokens hmemo, h⟩
  | none =>
    -- The lexer is given the text anew, so it does not matter where it stood.
    have hlexed : u.tokens.1 = (fresh lang name text).tokens.1 := by
      rw [tokens_of_none hmemo, tokens_of_none rfl, h.name_eq, h.text_eq]
      rfl
    have hmade : u.tokens.2.name = u.name ∧ u.tokens.2.text = u.text ∧
        u.tokens.2.tokenMemo = ⟨some u.tokens.1⟩ ∧ u.tokens.2.parsedMemo = u.parsedMemo := by
      simp only [SourceUnit.tokens, hmemo, and_self]
    obtain ⟨hname, htext, htokens, hparsed⟩ := hmade
    refine ⟨hlexed, hname.trans h.name_eq, htext.trans h.text_eq, ?_, ?_⟩
    · rw [htokens, hlexed]
      exact fun _ heq => (Option.some.inj heq).symm
    · rw [hparsed]
      exact h.parsed_eq

theorem parsed (h : u.Faithful name text) :
    u.parsed.1 = (fresh lang name text).parsed.1 ∧ u.parsed.2.Faithful name text := by
  cases hmemo : u.parsedMemo.value? with
  | some parsed =>
    have hkept : u.parsed = (parsed, u) := by simp only [SourceUnit.parsed, hmemo]
    rw [hkept]
    exact ⟨h.parsed_eq parsed hmemo, h⟩
  | none =>
    obtain ⟨htokens, hnext⟩ := h.tokens
    have hread : u.parsed.1 = (fresh lang name text).parsed.1 := by
      rw [parsed_of_none hmemo, parsed_of_none rfl, htokens]
    refine ⟨hread, ?_⟩
    have hmade : u.parsed.2 = { u.tokens.2 with
        report := u.parsed.2.report, parsedMemo := ⟨some u.parsed.1⟩ } := by
      simp only [SourceUnit.parsed, hmemo]
    rw [hmade, hread]
    exact ⟨hnext.name_eq, hnext.text_eq, hnext.tokens_eq,
      fun _ heq => (Option.some.inj heq).symm⟩

theorem sourceFile_eq (h : u.Faithful name text) :
    u.sourceFile = .ofText name (Text.stripByteOrderMark text) := by
  rw [sourceFile, h.name_eq, h.text_eq]

/-- A unit that is faithful to its text answers as a new one, and stays faithful. -/
theorem answer (h : u.Faithful name text) (request : Request E) :
    (u.answer request).1 = ((fresh lang name text).answer request).1 ∧
      (u.answer request).2.Faithful name (request.textAfter text) := by
  obtain ⟨hparsed, hnext⟩ := h.parsed
  have hnew := (of_fresh lang name text).parsed.2
  cases request with
  | tokens => exact ⟨congrArg Answer.tokens h.tokens.1, h.tokens.2⟩
  | tree =>
    have htree (u : SourceUnit lang) : u.tree.1 = u.parsed.1.tree := rfl
    refine ⟨congrArg Answer.tree ?_, hnext⟩
    rw [htree, htree, hparsed]
  | parsed => exact ⟨congrArg Answer.parsed hparsed, hnext⟩
  | errorCount =>
    have hcount (u : SourceUnit lang) : u.errorCount.1 = u.parsed.1.errorCount := rfl
    refine ⟨congrArg Answer.errorCount ?_, hnext⟩
    rw [hcount, hcount, hparsed]
  | diagnostics =>
    have hdiagnostics (u : SourceUnit lang) : u.diagnostics.1 = u.parsed.1.diagnostics := rfl
    refine ⟨congrArg Answer.diagnostics ?_, hnext⟩
    rw [hdiagnostics, hdiagnostics, hparsed]
  | render renderer =>
    have hrender (u : SourceUnit lang) :
        (u.render renderer).1 = u.parsed.1.diagnostics.foldlM
          (fun text d => return text ++ (← renderer u.parsed.2.sourceFile d)) "" := rfl
    refine ⟨congrArg Answer.rendered ?_, hnext⟩
    rw [hrender, hrender, hnext.sourceFile_eq, hnew.sourceFile_eq, hparsed]
  | rebuild text' => exact ⟨rfl, h.rebuild text'⟩

theorem after (h : u.Faithful name text) (requests : List (Request E)) :
    (u.after requests).Faithful name (lastText text requests) := by
  induction requests generalizing u text with
  | nil => exact h
  | cons request requests ih => exact ih (h.answer request).2

end Faithful
end SourceUnit

/-! ## Preprocessors -/

namespace Compilation.Preprocessor

/-- The preprocessor after it was used for some token lists. -/
def after (p : Preprocessor) (lists : List (List (Token Module.Kind))) : Preprocessor :=
  lists.foldl (fun p tokens => (p.preprocess tokens).2) p

theorem symbols_after (p : Preprocessor) (lists : List (List (Token Module.Kind))) :
    (p.after lists).symbols = p.symbols := by
  induction lists generalizing p with
  | nil => rfl
  | cons tokens lists ih => exact ih (p.preprocess tokens).2

/-- The report that a preprocessor was left with makes no difference. -/
theorem preprocess_report (p : Preprocessor) (tokens : List (Token Module.Kind)) :
    (p.preprocess tokens).1 = (preprocess { symbols := p.symbols } tokens).1 := by
  have hscan : (p.scan tokens).1 = (scan { symbols := p.symbols } tokens).1 := by
    rw [scan, scan]
    dsimp only
    rw [readPieces_eq_map, readPieces_eq_map]
  rw [preprocess, preprocess]
  dsimp only
  rw [hscan]
  rfl

/-- A unit hands over the tokens of its text, whatever it and the preprocessor were used for. -/
theorem preprocessUnit_eq {u : SourceUnit moduleLanguage} {name text : String}
    (h : u.Faithful name text) (p : Preprocessor) :
    (p.preprocessUnit u).1 = (preprocess { symbols := p.symbols }
      (SourceUnit.fresh moduleLanguage name text).tokens.1).1 := by
  rw [preprocessUnit, preprocess_report, h.tokens.1]

end Compilation.Preprocessor

/-! ## No memory -/

/-- **No memory.** A source unit may be made with a lexer and a parser's report in any state.
After any requests it answers each further one as a new unit of the text that was given last. And a
preprocessor gives of a token list what a new one with its symbols gives, whatever it was used for
before. -/
theorem no_memory [DecidableEq K] [TokenKind K] (lang : Language K R M F) (name text : String)
    (lexer : Lexer lang.lexicalRules) (report : Report) :
    (∃ u, SourceUnit.ofText name text lexer (.ok report) = .ok u ∧
        ∀ (before : List (Request E)) (request : Request E), ((u.after before).answer request).1 =
          ((SourceUnit.fresh lang name (lastText text before)).answer request).1) ∧
      ∀ (p : Compilation.Preprocessor) lists tokens, ((p.after lists).preprocess tokens).1 =
        (Compilation.Preprocessor.preprocess { symbols := p.symbols } tokens).1 := by
  refine ⟨⟨_, rfl, fun before request => ?_⟩, fun p lists tokens => ?_⟩
  · exact (((SourceUnit.Faithful.of_empty rfl rfl rfl rfl).after before).answer request).1
  · rw [Compilation.Preprocessor.preprocess_report, Compilation.Preprocessor.symbols_after]

/-! ## Spans -/

section
variable [DecidableEq K] [TokenKind K]

omit [DecidableEq K] [TokenKind K] in
theorem getElem?_hideLast {tokens : List (Token K)} {i : Nat} {t : Token K}
    (h : (hideLast tokens)[i]? = some t) :
    ∃ u channels, tokens[i]? = some u ∧ t = { u with channels } := by
  fun_induction hideLast tokens generalizing i with
  | case1 => simp at h
  | case2 u =>
    cases i with
    | zero => exact ⟨u, .hiddenOnly, rfl, (Option.some.inj h).symm⟩
    | succ i => simp at h
  | case3 u us _ ih =>
    cases i with
    | zero => exact ⟨u, u.channels, rfl, (Option.some.inj h).symm⟩
    | succ i => exact ih h

/-- Tokens tile a text whatever channels they are on. -/
theorem Tiles.hideLast {text : String} {start index : Nat} {tokens : List (Token K)}
    (h : Tiles text start index tokens) : Tiles text start index (hideLast tokens) := by
  have hmem {t : Token K} (ht : t ∈ BuiltInScript.hideLast tokens) :
      ∃ u channels, u ∈ tokens ∧ t = { u with channels } := by
    obtain ⟨i, hi⟩ := List.mem_iff_getElem?.1 ht
    obtain ⟨u, channels, hu, rfl⟩ := getElem?_hideLast hi
    exact ⟨u, channels, List.mem_of_getElem? hu, rfl⟩
  constructor
  · intro t ht
    obtain ⟨u, channels, hu, rfl⟩ := hmem ht
    exact h.nonempty u hu
  · intro t ht
    rw [List.head?_eq_getElem?] at ht
    obtain ⟨u, channels, hu, rfl⟩ := getElem?_hideLast ht
    exact h.first u (by rw [List.head?_eq_getElem?, hu])
  · intro i t u ht hu
    obtain ⟨t, -, ht, rfl⟩ := getElem?_hideLast ht
    obtain ⟨u, -, hu, rfl⟩ := getElem?_hideLast hu
    exact h.adjacent i t u ht hu
  · intro t ht
    obtain ⟨u, channels, hu, rfl⟩ := hmem ht
    exact h.marker u hu
  · intro t ht
    obtain ⟨u, channels, hu, rfl⟩ := hmem ht
    exact h.slices u hu
  · intro i t ht
    obtain ⟨u, channels, hu, rfl⟩ := getElem?_hideLast ht
    exact h.numbered i u hu

namespace SourceUnit

variable {lang : Language K R M F} {name text : String} {u : SourceUnit lang}

/-- The tokens of a unit tile its text, from the beginning to the end marker. -/
def TokensTile (u : SourceUnit lang) : Prop :=
  Tiles u.text 0 0 u.tokens.1 ∧
    ∃ marker, u.tokens.1.getLast? = some marker ∧ marker.isEnd = true

/-- Whatever a unit was used for, its tokens tile its text without a byte order mark. -/
theorem Faithful.tiles (h : u.Faithful name text) (hplain : lang.lexicalRules.Plain) :
    Tiles (Text.stripByteOrderMark u.text) 0 0 u.tokens.1 ∧
      ∃ marker, u.tokens.1.getLast? = some marker ∧ marker.isEnd = true := by
  have hlossless := hplain.lossless name u.text
  have htokens : u.tokens.1 = hideLast (lang.lexicalRules.tokenize name u.text) := by
    rw [h.tokens.1, tokens_of_none rfl, h.text_eq]
    rfl
  have htiles : Tiles (Text.stripByteOrderMark u.text) 0 0
      (lang.lexicalRules.tokenize name u.text) := by
    rw [hlossless.tokenize_eq]
    exact hlossless.tiles _
  obtain ⟨body, marker, heq, hmarker, -⟩ := hlossless.tokenize_ends
  rw [htokens]
  refine ⟨htiles.hideLast, { marker with channels := .hiddenOnly }, ?_, hmarker⟩
  rw [heq, hideLast_concat, List.getLast?_concat]

omit [DecidableEq K] [TokenKind K] in
/-- What is read from bytes goes through a stream, which drops a byte order mark before the unit
drops one. -/
theorem ofBytes_eq {bytes : ByteArray} (h : String.fromUTF8? bytes = some text)
    (lexer : Lexer lang.lexicalRules) (parser : Except String Report) :
    ofBytes name bytes lexer parser =
      ofText name (Text.stripByteOrderMark text) lexer parser := by
  have hstream : (CharStream.ofText name text).text 0 (CharStream.ofText name text).size =
      Text.stripByteOrderMark text := by
    rw [CharStream.text, CharStream.size_eq_length, List.take_length, List.drop_zero,
      CharStream.chars_ofText, Text.stripByteOrderMark]
  rw [ofBytes, CharStream.ofBytes, h]
  dsimp only
  rw [hstream]

theorem Faithful.tokensTile_iff (h : u.Faithful name text) (hplain : lang.lexicalRules.Plain) :
    u.TokensTile ↔ ¬[Text.byteOrderMark, Text.byteOrderMark] <+: text.toList := by
  obtain ⟨htiles, marker, hlast, hmarker⟩ := h.tiles hplain
  rw [← Text.head?_dropByteOrderMark_iff, ← Text.toList_stripByteOrderMark, ← h.text_eq]
  constructor
  · rintro ⟨htext, -⟩ hhead
    obtain ⟨rest, hrest⟩ := List.head?_eq_some_iff.1 hhead
    -- The end marker cannot stand both at the end of the text and three bytes before it.
    have hmem := List.mem_of_getLast? hlast
    have hspan := (htiles.marker marker hmem hmarker).symm.trans (htext.marker marker hmem hmarker)
    rw [Text.toList_stripByteOrderMark, hrest, Text.dropByteOrderMark, if_pos rfl] at hspan
    have hbytes := Text.byteOrderMark.utf8Size_pos
    have hstart := congrArg Span.start hspan
    simp only [Text.byteLength] at hstart
    omega
  · intro hhead
    have hsame : Text.stripByteOrderMark u.text = u.text := by
      rw [Text.stripByteOrderMark, Text.dropByteOrderMark_eq_self hhead, String.ofList_toList]
    rw [hsame] at htiles
    exact ⟨htiles, marker, hlast, hmarker⟩

end SourceUnit
end

/-- **Spans.** Whatever a source unit of either language was made with and used for, its tokens
tile its text from the first byte to the last, and each is what its span selects of it, exactly if
the text that was given last does not begin with two byte order marks. -/
theorem tokens_tile_iff (name text : String) (report : Report) (before : List (Request E)) :
    (∀ lexer, ∃ u : SourceUnit moduleLanguage,
        SourceUnit.ofText name text lexer (.ok report) = .ok u ∧
          ((u.after before).TokensTile ↔
            ¬[Text.byteOrderMark, Text.byteOrderMark] <+: (lastText text before).toList)) ∧
      ∀ lexer, ∃ u : SourceUnit queryLanguage,
        SourceUnit.ofText name text lexer (.ok report) = .ok u ∧
          ((u.after before).TokensTile ↔
            ¬[Text.byteOrderMark, Text.byteOrderMark] <+: (lastText text before).toList) :=
  ⟨fun _ => ⟨_, rfl, ((SourceUnit.Faithful.of_empty rfl rfl rfl rfl).after before).tokensTile_iff
      Module.lexicalRules_plain⟩,
    fun _ => ⟨_, rfl, ((SourceUnit.Faithful.of_empty rfl rfl rfl rfl).after before).tokensTile_iff
      Query.lexicalRules_plain⟩⟩

/-- Of two byte order marks the unit keeps one, and its tokens are told without it. -/
theorem tokens_tile_two_marks :
    ∃ u : SourceUnit moduleLanguage,
      SourceUnit.ofText "" "\uFEFF\uFEFF;" {} (.ok {}) = .ok u ∧ u.text = "\uFEFF;" ∧
        u.tokens.1.map Token.span = [⟨0, 1⟩, ⟨1, 1⟩] ∧ ¬u.TokensTile := by
  refine ⟨_, rfl, by decide +kernel, by decide +kernel, ?_⟩
  rw [(SourceUnit.Faithful.of_empty rfl rfl rfl rfl).tokensTile_iff Module.lexicalRules_plain]
  decide +kernel

end BuiltInScript
