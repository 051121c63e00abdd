import BuiltInScript.Proofs.Parsing.Layout
import BuiltInScript.Proofs.Positions

/-!
# End markers that are made up

A token list need not end with an end marker: where there is none, a cursor makes one up from the
last token. It counts the line breaks in the text of that token, without a look at what follows, and
still comes to where the lexer went on from, since no token ends within a `\r\n`. So the end marker
that is made up for the tokens of a text is the one that the lexer makes, but for its channel, and
no rule of a grammar looks at that.

**Results.**
* `Token.Placed.position_endAfter`: an end marker after a token lands where the next token is.
* `endOf_body`: the end marker that is made up for the tokens of a text.
* `end_markers_agree`: cursors and parsers can do without the end marker of the lexer.
-/
namespace BuiltInScript

open Text (byteLength dropByteOrderMark)

variable {R K M F : Type}

/-! ## After a token -/

theorem Text.byteLength_eq_zero_iff {cs : List Char} : byteLength cs = 0 ↔ cs = [] := by
  cases cs with
  | nil => simp [byteLength]
  | cons c cs => simp [byteLength, Nat.ne_of_gt c.utf8Size_pos]

namespace Token.Placed

variable {t u : Token K} {chars before after before' after' : List Char}

theorem position_eq_walk (h : t.Placed chars before after) :
    t.position = ({} : Position).walk before := by
  rw [h.position, Position.walk_eq, Nat.zero_add, ite_self]

/-- Where one token ends, what stands before the next one ends with it. -/
theorem before_eq (h : t.Placed chars before after) (h' : u.Placed chars before' after')
    (hadjacent : u.span.start = t.span.stop) : before' = before ++ t.text.toList := by
  have hbytes : byteLength before' = byteLength (before ++ t.text.toList) := by
    rw [h.span, h'.span] at hadjacent
    rw [Text.byteLength_append]
    exact hadjacent
  have hcut := Text.splitBytes?_append (before ++ t.text.toList) after
  have hcut' := Text.splitBytes?_append before' (u.text.toList ++ after')
  rw [← List.append_assoc, ← h'.chars_eq, hbytes] at hcut'
  rw [← h.chars_eq, hcut', Option.some.injEq, Prod.mk.injEq] at hcut
  exact hcut.1

/-- An end marker after a token is counted to where the next token is. -/
theorem position_endAfter [TokenKind K] (h : t.Placed chars before after)
    (h' : u.Placed chars before' after') (hadjacent : u.span.start = t.span.stop) :
    t.endAfter.position = u.position := by
  have hbefore := h.before_eq h' hadjacent
  have hcut : ¬(before.getLast? = some '\r' ∧ t.text.toList.head? = some '\n') := by
    rintro ⟨hreturn, hfeed⟩
    exact h.start_whole ⟨hreturn, by rw [List.head?_append, hfeed, Option.some_or]⟩
  calc t.endAfter.position = (({} : Position).walk before).walk t.text.toList := by
        rw [← h.position_eq_walk]
        rfl
    _ = ({} : Position).walk (before ++ t.text.toList) := by
        rw [← Position.walkTo_none _ (before ++ _), Position.walkTo_append, Option.or_none,
          Position.walkTo_eq_walk _ hcut, Position.walkTo_none]
    _ = u.position := by rw [h'.position_eq_walk, hbefore]

end Token.Placed

variable [DecidableEq K] [TokenKind K]

/-! ## After the tokens of a text -/

namespace LexicalRules

variable {rules : LexicalRules K M F} (name text : String)

/-- The tokens of a text tile it. -/
theorem Plain.tiles_tokenize (h : rules.Plain) :
    Tiles (Text.stripByteOrderMark text) 0 0 (rules.tokenize name text) := by
  have hlossless := h.lossless name text
  rw [hlossless.tokenize_eq]
  exact hlossless.tiles _

/-- **After a token.** Wherever the tokens of a text are broken off, an end marker that is made up
there lands where the next token is. -/
theorem endAfter_lands (hplain : rules.Plain) (hwhole : rules.Whole) {i : Nat} {t u : Token K}
    (ht : (rules.tokenize name text)[i]? = some t)
    (hu : (rules.tokenize name text)[i + 1]? = some u) :
    t.endAfter.position = u.position ∧ t.endAfter.index = u.index ∧
      t.endAfter.span.start = u.span.start := by
  have htiles := hplain.tiles_tokenize name text
  obtain ⟨before, after, h⟩ := hwhole.placed_tokenize name text t (List.mem_of_getElem? ht)
  obtain ⟨before', after', h'⟩ := hwhole.placed_tokenize name text u (List.mem_of_getElem? hu)
  have hadjacent := htiles.adjacent i t u ht hu
  refine ⟨h.position_endAfter h' hadjacent, ?_, hadjacent.symm⟩
  rw [Token.endAfter, htiles.numbered i t ht, htiles.numbered (i + 1) u hu, Nat.add_assoc]

/-- The end marker that is made up for the tokens of a text is the one that the lexer makes, but for
its channels. -/
theorem endOf_body (hplain : rules.Plain) (hwhole : rules.Whole) {body : List (Token K)}
    {marker : Token K} (heq : rules.tokenize name text = body ++ [marker])
    (hmarker : marker.isEnd = true) (hbody : ∀ t ∈ body, t.isEnd = false) :
    Token.endOf body = { marker with channels := .hiddenOnly } := by
  have htiles := hplain.tiles_tokenize name text
  have hmem : marker ∈ rules.tokenize name text := by simp [heq]
  obtain ⟨before, after, hplaced⟩ := hwhole.placed_tokenize name text marker hmem
  have hkind : marker.kind = TokenKind.endOfInput := by simpa [Token.isEnd] using hmarker
  have hspan := htiles.marker marker hmem hmarker
  have htext : marker.text = "" := by
    have hempty : byteLength marker.text.toList = 0 := by
      have := congrArg Span.start (hspan.symm.trans hplaced.span)
      have := congrArg Span.stop (hspan.symm.trans hplaced.span)
      dsimp only at *
      omega
    exact String.toList_eq_nil_iff.1 (Text.byteLength_eq_zero_iff.1 hempty)
  have hmade : Token.endOf body = ⟨TokenKind.endOfInput, .hiddenOnly, "", marker.position,
      marker.index, ⟨marker.span.start, marker.span.start⟩⟩ := by
    rcases List.eq_nil_or_concat body with rfl | ⟨initial, last, rfl⟩
    · have hfirst : (rules.tokenize name text)[0]? = some marker := by simp [heq]
      have hstart : marker.span.start = 0 := htiles.first marker (by simp [heq])
      have hbefore : before = [] := by
        rw [hplaced.span] at hstart
        exact Text.byteLength_eq_zero_iff.1 hstart
      rw [hstart, htiles.numbered 0 marker hfirst, hplaced.position, hbefore]
      rfl
    · rw [List.concat_eq_append] at heq hbody ⊢
      have hlast : (rules.tokenize name text)[initial.length]? = some last := by simp [heq]
      have hnext : (rules.tokenize name text)[initial.length + 1]? = some marker := by simp [heq]
      obtain ⟨hposition, hindex, hstart⟩ := endAfter_lands name text hplain hwhole hlast hnext
      rw [← hposition, ← hindex, ← hstart, Token.endOf, List.getLast?_concat]
      simp only [hbody last (by simp)]
      rfl
  show _ = (⟨marker.kind, .hiddenOnly, marker.text, marker.position, marker.index, marker.span⟩ :
    Token K)
  rw [hmade, hkind, htext, hspan]

end LexicalRules

/-! ## Cursors and parsers -/

namespace Cursor

/-- After its tokens a cursor shows its end marker, however far it is asked to go. -/
theorem peek_skip_ofTokens (channels : Channels) (tokens : List (Token K)) {n : Nat}
    (h : (ofTokens channels tokens).ahead.length ≤ n) :
    ((ofTokens channels tokens).skip n).peek = Token.endOf tokens := by
  have hvalid := valid_ofTokens channels tokens
  rw [(hvalid.skip n).peek_eq, hvalid.ahead_skip, List.drop_eq_nil_of_le h, List.headD_nil,
    marker_skip]
  rfl

/-- An end marker is not shown as a token. -/
theorem shown_append_marker (channels : Channels) {body : List (Token K)} {marker : Token K}
    (hmarker : marker.isEnd = true) (hbody : ∀ t ∈ body, t.isEnd = false) :
    shown channels (body ++ [marker]) = shown channels body := by
  have hbody' : ∀ t ∈ body, (!t.isEnd) = true := fun t ht => by rw [hbody t ht, Bool.not_false]
  rw [shown, shown, List.takeWhile_append_of_pos hbody', List.takeWhile_eq_self_iff.2 hbody',
    List.takeWhile_cons_of_neg (by simp [hmarker]), List.append_nil]

end Cursor

/-- A language in which nothing but a channel depends on the end marker that the lexer makes of a
text. -/
structure Language.CanEndItself (lang : Language K R M F) (name text : String) : Prop where
  /-- An end marker after a token lands where the next token is. -/
  lands : ∀ i t u, (lang.lexicalRules.tokenize name text)[i]? = some t →
    (lang.lexicalRules.tokenize name text)[i + 1]? = some u →
    t.endAfter.position = u.position ∧ t.endAfter.index = u.index ∧
      t.endAfter.span.start = u.span.start
  /-- Without the end marker of the lexer, cursors end with the same one on the hidden channel, and
  a parse tells the same but for that one. -/
  ends : ∃ body marker, lang.lexicalRules.tokenize name text = body ++ [marker] ∧
    marker.isEnd = true ∧
    (∀ channels n, (Cursor.ofTokens channels body).ahead.length ≤ n →
      ((Cursor.ofTokens channels body).skip n).peek = { marker with channels := .hiddenOnly } ∧
      (Cursor.ofTokens channels body).peekNth n = { marker with channels := .hiddenOnly }) ∧
    ∀ report report', ∃ items left,
      (lang.parse report (body ++ [marker])).1 = parsedOf lang.rootRule items left marker ∧
      (lang.parse report' body).1 =
        parsedOf lang.rootRule items left { marker with channels := .hiddenOnly }

theorem canEndItself_of_items {lang : Language K R M F} {item : K → Parse K (Trees R K)}
    {root : String} (h : Part.Items item) (hi : ∀ kind, Parse.Placeless True (item kind))
    (hroot : lang.root = Part.whole root lang.rootRule item) (hplain : lang.lexicalRules.Plain)
    (hwhole : lang.lexicalRules.Whole) (name text : String) : lang.CanEndItself name text where
  lands i t u ht hu := LexicalRules.endAfter_lands name text hplain hwhole ht hu
  ends := by
    obtain ⟨body, marker, heq, hmarker, hbody⟩ := (hplain.lossless name text).tokenize_ends
    have hend := LexicalRules.endOf_body name text hplain hwhole heq hmarker hbody
    refine ⟨body, marker, heq, hmarker, fun channels n hn => ⟨?_, ?_⟩, fun report report' => ?_⟩
    · rw [Cursor.peek_skip_ofTokens channels body hn, hend]
    · rw [← hend]
      rw [Cursor.peekNth, List.getD_eq_getElem?_getD, List.getElem?_eq_none hn]
      rfl
    · have hlast : Token.endOf (body ++ [marker]) = marker := by
        rw [Token.endOf, List.getLast?_concat]
        simp only [hmarker, if_true]
      have hsame : (Token.endOf (body ++ [marker])).SameButChannels (Token.endOf body) := by
        rw [hlast, hend]
        rfl
      have hparse := Language.parse_of_shown h hi hroot
        (Cursor.shown_append_marker .codeOnly hmarker hbody) hsame report
      rwa [hlast, hend] at hparse

/-- **End markers.** For every text of either language, an end marker that is made up after a token
lands where the next token is; and without the end marker of the lexer, every cursor over the tokens
ends with one that is the same but for its channel, and the two phases of a parse tell the same but
for that channel. -/
theorem end_markers_agree (name text : String) :
    moduleLanguage.CanEndItself name text ∧ queryLanguage.CanEndItself name text :=
  ⟨canEndItself_of_items Module.fileItems (fun kind => (Module.fileItem_regular kind).placeless)
      Module.file_eq_whole Module.lexicalRules_plain Module.lexicalRules_whole name text,
    canEndItself_of_items Query.packageItems
      (fun kind => (Query.packageItem_regular kind).placeless)
      Query.package_eq_whole Query.lexicalRules_plain Query.lexicalRules_whole name text⟩

end BuiltInScript
