import BuiltInScript.Lexing.Lexer
import BuiltInScript.Lexing.WordTable

/-!
# Tokens tile their source

A lexer may be asked for tokens and told to change modes in any order. Whatever it is told, the
tokens that it gives up to the end marker lie side by side and cover the source from its beginning.

**Results.**
* `next_cuts`: a token is cut from the head of what is to be read, and it is the end marker only
  if nothing is.
* `tiles_run`: the tokens of any sequence of calls tile the source.
* `tokensUpTo_spec`: reading tokens comes to the end marker, after at most one for each character.
* `Plain.lossless`: rules that only tell of what is there lose nothing of a text.
-/
namespace BuiltInScript

open Text (byteLength)

variable {K M F : Type}

/-! ## Cutting a token -/

/-- A scanner cuts a token of `n` characters from the head of what it is to read. -/
structure Scanner.Cuts (s : Scanner) (n : Nat) (t : Token K) (s' : Scanner) : Prop where
  text : t.text = String.ofList (s.stream.ahead.take n)
  span : t.span = ⟨byteLength s.stream.behind,
    byteLength s.stream.behind + byteLength (s.stream.ahead.take n)⟩
  index : t.index = s.nextIndex
  behind : s'.stream.behind = (s.stream.ahead.take n).reverse ++ s.stream.behind
  ahead : s'.stream.ahead = s.stream.ahead.drop n
  nextIndex : s'.nextIndex = s.nextIndex + 1

namespace Scanner

theorem behind_advanceBy (s : Scanner) (n : Nat) :
    (s.advanceBy n).stream.behind = (s.stream.ahead.take n).reverse ++ s.stream.behind := by
  induction n generalizing s with
  | zero => simp [advanceBy]
  | succ n ih =>
    have hone : s.advance.stream.behind = (s.stream.ahead.take 1).reverse ++ s.stream.behind := by
      simp only [advance, CharStream.fst_consumeAt]
      unfold CharStream.consume
      split <;> rename_i h <;> simp [h]
    have hahead : s.advance.stream.ahead = s.stream.ahead.drop 1 := s.ahead_advanceBy 1
    rw [advanceBy, ih, hone, hahead, ← List.append_assoc, ← List.reverse_append, ← List.take_add,
      Nat.add_comm]

theorem tokenStart_advanceBy (s : Scanner) (n : Nat) :
    (s.advanceBy n).tokenStart = s.tokenStart := by
  induction n generalizing s with
  | zero => rfl
  | succ n ih => exact ih s.advance

theorem nextIndex_advanceBy (s : Scanner) (n : Nat) : (s.advanceBy n).nextIndex = s.nextIndex := by
  induction n generalizing s with
  | zero => rfl
  | succ n ih => exact ih s.advance

theorem cuts_emit (s : Scanner) (n : Nat) (kind : K) (channels : Channels) :
    s.Cuts n ((s.beginToken.advanceBy n).emit kind channels).1
      ((s.beginToken.advanceBy n).emit kind channels).2 := by
  have hbehind := s.beginToken.behind_advanceBy n
  have hlength : (s.beginToken.advanceBy n).tokenLength =
      (s.stream.ahead.take n).reverse.length := by
    unfold tokenLength CharStream.index
    rw [hbehind, tokenStart_advanceBy, List.length_append]
    exact Nat.add_sub_cancel ..
  refine ⟨?_, ?_, s.beginToken.nextIndex_advanceBy n, hbehind, s.beginToken.ahead_advanceBy n, ?_⟩
  · rw [text_emit, tokenChars, hlength, hbehind, stream_beginToken, List.take_left,
      List.reverse_reverse]
  · simp only [emit]
    rw [hlength, hbehind, stream_beginToken, List.drop_left, Text.byteLength_append,
      Text.byteLength_reverse, Nat.add_comm]
  · exact congrArg (· + 1) (s.beginToken.nextIndex_advanceBy n)

end Scanner

variable [TokenKind K]

/-- A lexeme that is not an end marker, and whose characters after the first are there. -/
structure Lexeme.Fits (cs : List Char) (lexeme : Lexeme K) : Prop where
  kind_ne_end : lexeme.kind ≠ TokenKind.endOfInput
  more_le : lexeme.more ≤ cs.length

/-- A sign of two characters. -/
theorem Lexeme.Fits.second {cs : List Char} {d : Char} {kind : K}
    (hk : kind ≠ TokenKind.endOfInput) (h : cs.head? = some d) :
    (⟨kind, 1⟩ : Lexeme K).Fits cs := by
  cases cs with
  | nil => cases h
  | cons c cs => exact ⟨hk, Nat.le_add_left 1 _⟩

/-- What is found under a key is one of the entries. -/
theorem mem_map_snd_of_lookup {α β : Type} [BEq α] [LawfulBEq α] {rows : List (α × β)} {a : α}
    {b : β} (h : rows.lookup a = some b) : b ∈ rows.map Prod.snd := by
  obtain ⟨before, after, rfl, -⟩ := List.lookup_eq_some_iff.1 h
  simp

/-- What is found in a table is one of its entries. -/
theorem WordTable.mem_of_find? {α : Type} {table : WordTable α} {word : List Char} {a : α}
    (h : table.find? word = some a) : a ∈ table.map Prod.snd := mem_map_snd_of_lookup h

/-- Rules that only ever tell of what is there. -/
def LexicalRules.Plain (rules : LexicalRules K M F) : Prop :=
  ∀ state c cs, (rules.read state c cs).1.Fits cs

namespace Lexer

variable {rules : LexicalRules K M F}

/-- A token of at least one character is cut, or the end marker if no character is left. -/
theorem next_cuts (l : Lexer rules) :
    (l.scanner.stream.ahead = [] ∧ l.next.1.kind = TokenKind.endOfInput ∧
      l.scanner.Cuts 0 l.next.1 l.next.2.scanner) ∨
    ∃ c cs n, l.scanner.stream.ahead = c :: cs ∧
      l.next.1.kind = (rules.read l.state (Text.foldCase c) (cs.map Text.foldCase)).1.kind ∧
      l.scanner.Cuts (n + 1) l.next.1 l.next.2.scanner := by
  have hfolded : l.scanner.beginToken.ahead = l.scanner.stream.ahead.map Text.foldCase :=
    l.scanner.stream.folded_eq
  unfold next
  dsimp only
  cases ha : l.scanner.stream.ahead with
  | nil =>
    rw [ha] at hfolded
    rw [hfolded]
    exact .inl ⟨rfl, rfl, l.scanner.cuts_emit 0 _ _⟩
  | cons c cs =>
    rw [ha] at hfolded
    rw [hfolded]
    exact .inr ⟨c, cs, _, rfl, rfl, l.scanner.cuts_emit _ _ _⟩

/-- What comes next is the end marker, or what the rules read of the folded text ahead. -/
theorem next_reads (l : Lexer rules) :
    (l.next.1.kind = TokenKind.endOfInput ∧ l.next.1.text = "") ∨
      ∃ c cs, l.next.1.text.toList.head? = some c ∧
        l.next.1.kind = (rules.read l.state (Text.foldCase c) cs).1.kind ∧
        foldWord l.next.1.text =
          Text.foldCase c :: cs.take (rules.read l.state (Text.foldCase c) cs).1.more ∧
        l.next.2.state = (rules.read l.state (Text.foldCase c) cs).2 := by
  have hfolded : l.scanner.beginToken.ahead = l.scanner.stream.ahead.map Text.foldCase :=
    l.scanner.stream.folded_eq
  unfold next
  dsimp only
  cases ha : l.scanner.stream.ahead with
  | nil =>
    rw [ha] at hfolded
    rw [hfolded]
    refine .inl ⟨rfl, (l.scanner.cuts_emit 0 _ _).text.trans ?_⟩
    rw [List.take_zero, String.ofList_nil]
  | cons c cs =>
    rw [ha] at hfolded
    rw [hfolded]
    have htext (n : Nat) (kind : K) :
        ((l.scanner.beginToken.advanceBy (n + 1)).emitKind kind).1.text =
          String.ofList (c :: cs.take n) := by
      rw [Scanner.emitKind, (l.scanner.cuts_emit (n + 1) kind _).text, ha, List.take_succ_cons]
    refine .inr ⟨c, cs.map Text.foldCase, ?_, rfl, ?_, rfl⟩
    · rw [List.map_cons]
      dsimp only
      rw [htext, String.toList_ofList, List.head?_cons]
    · rw [List.map_cons]
      dsimp only
      rw [htext, foldWord, String.toList_ofList, List.map_cons, List.map_take]

/-- A token is on the channels of its kind. -/
theorem channels_next (l : Lexer rules) :
    l.next.1.channels = TokenKind.channels l.next.1.kind := by
  unfold next
  dsimp only
  split <;> rfl

end Lexer

/-! ## Tilings -/

variable [DecidableEq K]

/-- Tokens that tile a text from a byte offset on, up to the end marker if they come to it. The
first of them has the given index. -/
structure Tiles (text : String) (start index : Nat) (tokens : List (Token K)) : Prop where
  nonempty : ∀ t ∈ tokens, t.isEnd = false → t.text ≠ "" ∧ t.span.start < t.span.stop
  first : ∀ t, tokens.head? = some t → t.span.start = start
  adjacent : ∀ i t u, tokens[i]? = some t → tokens[i + 1]? = some u → u.span.start = t.span.stop
  marker : ∀ t ∈ tokens, t.isEnd = true →
    t.span = ⟨byteLength text.toList, byteLength text.toList⟩
  /-- The text of a token is what its span selects, so spans begin and end between characters. -/
  slices : ∀ t ∈ tokens, t.span.slice? text = some t.text
  numbered : ∀ i t, tokens[i]? = some t → t.index = index + i

namespace Tiles

variable {text : String} {start index : Nat} {t : Token K} {tokens : List (Token K)}

theorem nil : Tiles text start index ([] : List (Token K)) := by
  constructor <;> simp

/-- A token before other tokens. -/
theorem cons (hne : t.text ≠ "" ∧ t.span.start < t.span.stop) (hend : t.isEnd = false)
    (hstart : t.span.start = start) (hslice : t.span.slice? text = some t.text)
    (hindex : t.index = index) (h : Tiles text t.span.stop (index + 1) tokens) :
    Tiles text start index (t :: tokens) where
  nonempty := List.forall_mem_cons.2 ⟨fun _ => hne, h.nonempty⟩
  first u hu := by
    cases hu
    exact hstart
  adjacent i u v hu hv := by
    cases i with
    | zero =>
      cases hu
      exact h.first v (by simpa [List.head?_eq_getElem?] using hv)
    | succ i => exact h.adjacent i u v (by simpa using hu) (by simpa using hv)
  marker := List.forall_mem_cons.2 ⟨fun he => absurd he (by simp [hend]), h.marker⟩
  slices := List.forall_mem_cons.2 ⟨hslice, h.slices⟩
  numbered i u hu := by
    cases i with
    | zero =>
      cases hu
      exact hindex
    | succ i =>
      have := h.numbered i u (by simpa using hu)
      omega

/-- The end marker by itself, at the end of the text. -/
theorem singleton (hspan : t.span = ⟨byteLength text.toList, byteLength text.toList⟩)
    (hend : t.isEnd = true) (hstart : t.span.start = start)
    (hslice : t.span.slice? text = some t.text) (hindex : t.index = index) :
    Tiles text start index [t] where
  nonempty u hu he := by simp_all
  first u hu := by
    cases hu
    exact hstart
  adjacent i u v hu hv := by simp at hv
  marker u hu _ := by simp_all
  slices u hu := by simp_all
  numbered i u hu := by
    cases i with
    | zero =>
      cases hu
      exact hindex
    | succ i => simp at hu

theorem start_le_stop (h : Tiles text start index tokens) (ht : t ∈ tokens) :
    t.span.start ≤ t.span.stop := by
  cases hend : t.isEnd with
  | false => exact Nat.le_of_lt (h.nonempty t ht hend).2
  | true => simp [h.marker t ht hend]

/-- Of two tokens the first ends before the other begins. -/
theorem stop_le_start (h : Tiles text start index tokens) {i j : Nat} {u : Token K} (hij : i < j)
    (ht : tokens[i]? = some t) (hu : tokens[j]? = some u) : t.span.stop ≤ u.span.start := by
  induction j generalizing u with
  | zero => omega
  | succ j ih =>
    rcases Nat.lt_succ_iff_lt_or_eq.1 hij with hlt | rfl
    · obtain ⟨hlength, -⟩ := List.getElem?_eq_some_iff.1 hu
      have hj : tokens[j]? = some tokens[j] := List.getElem?_eq_getElem (by omega)
      calc t.span.stop ≤ tokens[j].span.start := ih hlt hj
        _ ≤ tokens[j].span.stop := h.start_le_stop (List.getElem_mem _)
        _ = u.span.start := (h.adjacent j _ u hj hu).symm
    · exact Nat.le_of_eq (h.adjacent i t u ht hu).symm

/-- A token that does not stand before another one neither begins nor ends before it. -/
theorem mono (h : Tiles text start index tokens) {i j : Nat} {u : Token K} (hij : i ≤ j)
    (ht : tokens[i]? = some t) (hu : tokens[j]? = some u) :
    t.span.start ≤ u.span.start ∧ t.span.stop ≤ u.span.stop := by
  rcases Nat.lt_or_eq_of_le hij with hlt | rfl
  · have hbetween := h.stop_le_start hlt ht hu
    have ht' := h.start_le_stop (List.mem_of_getElem? ht)
    have hu' := h.start_le_stop (List.mem_of_getElem? hu)
    exact ⟨by omega, by omega⟩
  · obtain rfl : t = u := Option.some.inj (ht.symm.trans hu)
    exact ⟨Nat.le_refl _, Nat.le_refl _⟩

/-- The first of some tokens tile the text as far as they go. -/
theorem left {more : List (Token K)} (h : Tiles text start index (tokens ++ more)) :
    Tiles text start index tokens := by
  have hsome {i : Nat} {t : Token K} (ht : tokens[i]? = some t) :
      (tokens ++ more)[i]? = some t := by
    rw [List.getElem?_append_left (List.getElem?_eq_some_iff.1 ht).1, ht]
  exact {
    nonempty := fun t ht => h.nonempty t (List.mem_append_left more ht)
    first := fun t ht => h.first t (by simp [List.head?_append, ht])
    adjacent := fun i t u ht hu => h.adjacent i t u (hsome ht) (hsome hu)
    marker := fun t ht => h.marker t (List.mem_append_left more ht)
    slices := fun t ht => h.slices t (List.mem_append_left more ht)
    numbered := fun i t ht => h.numbered i t (hsome ht) }

end Tiles

omit [TokenKind K] [DecidableEq K] in
/-- A token that is cut is what its span selects. -/
theorem Scanner.Cuts.slice {s s' : Scanner} {n : Nat} {t : Token K} (h : s.Cuts n t s')
    {text : String} (ht : text.toList = s.stream.chars) : t.span.slice? text = some t.text := by
  have hchars : text.toList =
      s.stream.behind.reverse ++ s.stream.ahead.take n ++ s.stream.ahead.drop n := by
    rw [ht, CharStream.chars, List.append_assoc, List.take_append_drop]
  have hslice := Text.sliceBytes?_eq_some_iff.2
    ⟨_, _, hchars, Text.byteLength_reverse s.stream.behind, rfl⟩
  rw [Span.slice?, h.span, h.text, hslice]
  rfl

/-! ## Calls -/

/-- What a lexer may be told. -/
inductive LexerCall (M : Type) where
  | next
  | pushMode (mode : M)
  | setMode (mode : M)
  | popMode
deriving DecidableEq, Repr

/-- Tokens up to the first end marker, which is taken too. -/
def upToEnd : List (Token K) → List (Token K)
  | [] => []
  | t :: ts => if t.isEnd then [t] else t :: upToEnd ts

namespace Lexer

variable {rules : LexicalRules K M F}

/-- The tokens that a lexer gives in a sequence of calls. -/
def run : Lexer rules → List (LexerCall M) → List (Token K)
  | _, [] => []
  | l, .next :: calls => l.next.1 :: l.next.2.run calls
  | l, .pushMode mode :: calls => (l.pushMode mode).run calls
  | l, .setMode mode :: calls => (l.setMode mode).run calls
  | l, .popMode :: calls => l.popMode.2.run calls

theorem isEnd_next_iff (h : rules.Plain) (l : Lexer rules) :
    l.next.1.isEnd = true ↔ l.scanner.stream.ahead = [] := by
  unfold Token.isEnd
  rw [decide_eq_true_iff]
  rcases l.next_cuts with ⟨ha, hk, -⟩ | ⟨c, cs, n, ha, hk, -⟩
  · simp [ha, hk]
  · simp [ha, hk, (h l.state _ _).kind_ne_end]

/-- **Tiling.** Whatever a lexer is told, the tokens that it gives up to the end marker tile the
text from the place where it stands. -/
theorem tiles_run (h : rules.Plain) {text : String} (l : Lexer rules)
    (ht : text.toList = l.scanner.stream.chars) (calls : List (LexerCall M)) :
    Tiles text (byteLength l.scanner.stream.behind) l.scanner.nextIndex
      (upToEnd (l.run calls)) := by
  induction calls generalizing l with
  | nil => exact .nil
  | cons call calls ih =>
    cases call with
    | next =>
      have hrest := ih l.next.2 (ht.trans l.chars_next.symm)
      have hend := l.isEnd_next_iff h
      rw [run, upToEnd]
      rcases l.next_cuts with ⟨ha, -, hcut⟩ | ⟨c, cs, n, ha, -, hcut⟩
      · have hbytes : byteLength text.toList = byteLength l.scanner.stream.behind := by
          rw [ht, CharStream.chars, ha, List.append_nil, Text.byteLength_reverse]
        rw [if_pos (hend.2 ha)]
        refine .singleton ?_ (hend.2 ha) ?_ (hcut.slice ht) hcut.index
        · rw [hcut.span, hbytes, List.take_zero, byteLength, Nat.add_zero]
        · rw [hcut.span]
      · have hsome : l.next.1.isEnd = false := by
          rw [← Bool.not_eq_true, hend, ha]
          exact List.cons_ne_nil c cs
        have hstop : byteLength l.next.2.scanner.stream.behind = l.next.1.span.stop := by
          rw [hcut.behind, hcut.span, Text.byteLength_append, Text.byteLength_reverse, Nat.add_comm]
        rw [hstop, hcut.nextIndex] at hrest
        rw [if_neg (by simp [hsome])]
        refine .cons ⟨?_, ?_⟩ hsome ?_ (hcut.slice ht) hcut.index hrest
        · rw [hcut.text, ha]
          simp
        · have := c.utf8Size_pos
          rw [hcut.span, ha, List.take_succ_cons, byteLength]
          dsimp only
          omega
        · rw [hcut.span]
    | pushMode mode => exact ih (l.pushMode mode) ht
    | setMode mode => exact ih (l.setMode mode) ht
    | popMode => exact ih l.popMode.2 ht

/-! ## All tokens -/

theorem tokensUpTo_eq_run (l : Lexer rules) (n : Nat) :
    (l.tokensUpTo n).1 = upToEnd (l.run (List.replicate n .next)) := by
  induction n generalizing l with
  | zero => rfl
  | succ n ih =>
    rw [List.replicate_succ, run, upToEnd, ← ih, tokensUpTo]
    dsimp only
    split <;> rfl

/-- Each token takes a character, so the end marker comes in time. -/
theorem tokensUpTo_spec (h : rules.Plain) (l : Lexer rules) {n : Nat}
    (hn : l.scanner.stream.ahead.length < n) :
    ∃ body marker, (l.tokensUpTo n).1 = body ++ [marker] ∧ marker.isEnd = true ∧
      (∀ t ∈ body, t.isEnd = false) ∧ body.length ≤ l.scanner.stream.ahead.length := by
  induction n generalizing l with
  | zero => omega
  | succ n ih =>
    have hend := l.isEnd_next_iff h
    unfold tokensUpTo
    dsimp only
    by_cases he : l.next.1.isEnd = true
    · rw [if_pos he]
      exact ⟨[], l.next.1, rfl, he, by simp, Nat.zero_le _⟩
    · rw [if_neg he]
      rcases l.next_cuts with ⟨ha, -⟩ | ⟨c, cs, m, ha, -, hcut⟩
      · exact absurd (hend.2 ha) he
      · have hshorter : l.next.2.scanner.stream.ahead.length < l.scanner.stream.ahead.length := by
          rw [hcut.ahead, List.length_drop, ha, List.length_cons]
          omega
        obtain ⟨body, marker, hbody, hmarker, hnone, hlength⟩ := ih l.next.2 (by omega)
        refine ⟨l.next.1 :: body, marker, ?_, hmarker, ?_, ?_⟩
        · exact congrArg (l.next.1 :: ·) hbody
        · exact List.forall_mem_cons.2 ⟨by simpa using he, hnone⟩
        · rw [List.length_cons]
          omega

/-- What is true of the state that a lexer is in and of the tokens before, and stays true with each
token, is true wherever a token stands. -/
theorem exists_next_of_tokensUpTo {P : List (Token K) → LexState M F → Prop}
    (hstep : ∀ (l : Lexer rules) (tokens : List (Token K)), P tokens l.state →
      l.next.1.isEnd = true ∨ P (tokens ++ [l.next.1]) l.next.2.state)
    {l : Lexer rules} {tokens before after : List (Token K)} {t : Token K} {n : Nat}
    (h : P tokens l.state) (heq : (l.tokensUpTo n).1 = before ++ t :: after) :
    ∃ l' : Lexer rules, P (tokens ++ before) l'.state ∧ l'.next.1 = t := by
  induction n generalizing l tokens before with
  | zero => cases before <;> cases heq
  | succ n ih =>
    unfold tokensUpTo at heq
    dsimp only at heq
    cases before with
    | nil => split at heq <;> exact ⟨l, by rwa [List.append_nil], (List.cons.inj heq).1⟩
    | cons u before =>
      split at heq <;> obtain ⟨hu, hrest⟩ := List.cons.inj heq
      · cases before <;> cases hrest
      · rename_i hnot
        obtain ⟨l', hl', ht⟩ := ih ((hstep l tokens h).resolve_left hnot) hrest
        exact ⟨l', by rwa [List.append_cons, ← hu], ht⟩

theorem tokensUpTo_channels (l : Lexer rules) (n : Nat) :
    ∀ t ∈ (l.tokensUpTo n).1, t.channels = TokenKind.channels t.kind := by
  induction n generalizing l with
  | zero => exact fun t ht => nomatch ht
  | succ n ih =>
    unfold tokensUpTo
    dsimp only
    split
    · exact List.forall_mem_cons.2 ⟨l.channels_next, fun t ht => nomatch ht⟩
    · exact List.forall_mem_cons.2 ⟨l.channels_next, ih l.next.2⟩

omit [TokenKind K] [DecidableEq K] in
/-- A lexer at the beginning of a text. -/
theorem stream_ofText (rules : LexicalRules K M F) (name text : String) :
    (ofText rules name text).scanner.stream.behind = [] ∧
      (ofText rules name text).scanner.stream.ahead = Text.dropByteOrderMark text.toList := by
  simp [ofText, setInput, reset, Scanner.setInput, Scanner.rewind, CharStream.seek,
    CharStream.chars, CharStream.ofText]

end Lexer

namespace LexicalRules

variable {rules : LexicalRules K M F} (name text : String)

/-- What lexing promises of a text. -/
structure Lossless (rules : LexicalRules K M F) (name text : String) : Prop where
  /-- Whatever calls are made, the tokens up to the end marker tile the text. -/
  tiles : ∀ calls, Tiles (Text.stripByteOrderMark text) 0 0
    (upToEnd ((Lexer.ofText rules name text).run calls))
  tokenize_eq : rules.tokenize name text = upToEnd ((Lexer.ofText rules name text).run
    (.replicate ((Text.stripByteOrderMark text).toList.length + 1) .next))
  /-- Reading all tokens comes to the end marker. -/
  tokenize_ends : ∃ body marker, rules.tokenize name text = body ++ [marker] ∧
    marker.isEnd = true ∧ ∀ t ∈ body, t.isEnd = false
  length_le : (rules.tokenize name text).length ≤
    (Text.stripByteOrderMark text).toList.length + 1

/-- Rules that tell of what is there lose nothing, and get on. -/
theorem Plain.lossless (h : rules.Plain) : rules.Lossless name text := by
  obtain ⟨hbehind, hahead⟩ := Lexer.stream_ofText rules name text
  rw [← Text.toList_stripByteOrderMark] at hahead
  have hfolded : (Lexer.ofText rules name text).scanner.ahead.length =
      (Text.stripByteOrderMark text).toList.length := by
    rw [Scanner.ahead, CharStream.folded_eq, List.length_map, hahead]
  have hchars : (Text.stripByteOrderMark text).toList =
      (Lexer.ofText rules name text).scanner.stream.chars := by
    rw [CharStream.chars, hbehind, hahead, List.reverse_nil, List.nil_append]
  obtain ⟨body, marker, heq, hmarker, hbody, hlength⟩ :=
    (Lexer.ofText rules name text).tokensUpTo_spec h (Nat.lt_succ_self _)
  rw [hahead, ← hfolded] at heq
  refine ⟨fun calls => ?_, ?_, ⟨body, marker, heq, hmarker, hbody⟩, ?_⟩
  · have htiles := (Lexer.ofText rules name text).tiles_run h hchars calls
    rw [hbehind] at htiles
    exact htiles
  · rw [← hfolded]
    exact Lexer.tokensUpTo_eq_run _ _
  · rw [hahead] at hlength
    rw [LexicalRules.tokenize, Lexer.tokenize, heq, List.length_append, List.length_singleton]
    omega

end LexicalRules
end BuiltInScript
