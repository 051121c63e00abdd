import BuiltInScript.Token.Cursor

/-!
# What a cursor shows

A cursor is a place in a token list, but its readers only see the tokens that are still to be shown
(`ahead`) and the end marker after them. Here every operation is described by what it does to
`ahead`, for cursors that rest where cursors of this library do (`Valid`).

**Results.**
* `valid_ofTokens`, `Valid.advance`, `Valid.skip`: every cursor made from a token list is valid, and
  moving forward keeps it so.
* `Valid.peek_eq`, `Valid.ahead_advance`, `Valid.ahead_skip`: the next token is the first of those
  ahead, and moving forward drops it; at the end nothing changes.
* `Valid.seek_position`: a cursor that has moved forward is taken back by its former position.
* `Passes.ahead_eq`, `Passes.trans`: what lies between two places of a cursor.
* `shown_codeOnly_eq_codeOf`: the parser is shown all code of a list.
-/
namespace BuiltInScript

variable {K : Type} [DecidableEq K] [TokenKind K]

namespace Cursor

/-- The tokens of a list that a cursor on some channels shows before the end marker. -/
def shown (channels : Channels) (tokens : List (Token K)) : List (Token K) :=
  (tokens.takeWhile fun t => !t.isEnd).filter (shows channels)

/-- What all cursors made from token lists have in common: the marker is an end marker, and the
cursor rests on a token that it shows, or past the last one. -/
structure Valid (c : Cursor K) : Prop where
  isEnd_marker : c.marker.isEnd = true
  settled : settle c.channels c.tokens c.position = c.position
  inside : c.position ≤ c.tokens.length

theorem ahead_eq (c : Cursor K) : c.ahead = shown c.channels (c.tokens.drop c.position) := rfl

/-! ## Settling -/

theorem drop_settle (channels : Channels) (tokens : List (Token K)) (position : Nat) :
    tokens.drop (settle channels tokens position) =
      (tokens.drop position).dropWhile fun t => !shows channels t := by
  rw [settle, ← List.drop_drop]
  generalize tokens.drop position = rest
  induction rest with
  | nil => rfl
  | cons t ts ih => by_cases ht : shows channels t <;> simp [ht, ih]

/-- Tokens that are not shown are not end markers either, so passing over them loses nothing. -/
theorem shown_dropWhile (channels : Channels) (tokens : List (Token K)) :
    shown channels (tokens.dropWhile fun t => !shows channels t) = shown channels tokens := by
  induction tokens with
  | nil => rfl
  | cons t ts ih =>
    by_cases h : shows channels t
    · simp [h]
    · have he : t.isEnd = false := by
        cases ht : t.isEnd
        · rfl
        · exact absurd (by simp [shows, ht]) h
      simpa [List.dropWhile_cons, h, shown, he] using ih

theorem settle_settle (channels : Channels) (tokens : List (Token K)) (position : Nat) :
    settle channels tokens (settle channels tokens position) =
      settle channels tokens position := by
  have h : ((tokens.drop position).dropWhile fun t => !shows channels t).takeWhile
      (fun t => !shows channels t) = [] := by
    generalize tokens.drop position = rest
    induction rest with
    | nil => rfl
    | cons t ts ih => by_cases ht : shows channels t <;> simp [ht, ih]
  calc settle channels tokens (settle channels tokens position)
      = settle channels tokens position + (((tokens.drop position).dropWhile
          fun t => !shows channels t).takeWhile fun t => !shows channels t).length := by
        rw [← drop_settle]; rfl
    _ = settle channels tokens position := by rw [h, List.length_nil, Nat.add_zero]

theorem settle_le_length (channels : Channels) (tokens : List (Token K)) {position : Nat}
    (h : position ≤ tokens.length) : settle channels tokens position ≤ tokens.length := by
  have : ((tokens.drop position).takeWhile fun t => !shows channels t).length ≤
      (tokens.drop position).length := (List.takeWhile_sublist _).length_le
  rw [List.length_drop] at this
  unfold settle
  omega

/-! ## The next token -/

section
variable {c : Cursor K}

/-- A valid cursor rests on a token that it shows. -/
theorem Valid.shows_of_drop (h : c.Valid) {t : Token K} {rest : List (Token K)}
    (hd : c.tokens.drop c.position = t :: rest) : shows c.channels t = true := by
  have hs := h.settled
  unfold settle at hs
  rw [hd] at hs
  cases ht : shows c.channels t
  · simp [ht] at hs
  · rfl

theorem not_isEnd_of_mem_ahead {t : Token K} (h : t ∈ c.ahead) : t.isEnd = false := by
  rw [ahead_eq, shown, List.mem_filter] at h
  simpa using List.all_eq_true.1 List.all_takeWhile t h.1

/-- The next token is the first of those ahead, or the marker if there is none. -/
theorem Valid.peek_eq (h : c.Valid) : c.peek = c.ahead.headD c.marker := by
  have hget : c.tokens[c.position]? = (c.tokens.drop c.position).head? := by simp
  unfold peek
  rw [hget, ahead_eq]
  cases hd : c.tokens.drop c.position with
  | nil => rfl
  | cons t rest =>
    cases he : t.isEnd
    · simp [shown, he, h.shows_of_drop hd]
    · simp [shown, he]

theorem Valid.peek_of_head? (h : c.Valid) {t : Token K} (ht : t ∈ c.ahead.head?) : c.peek = t := by
  rw [h.peek_eq, List.headD_eq_head?_getD, ht, Option.getD_some]

theorem Valid.atEnd_iff (h : c.Valid) : c.atEnd = true ↔ c.ahead = [] := by
  unfold atEnd
  rw [h.peek_eq]
  cases ha : c.ahead with
  | nil => simp [h.isEnd_marker]
  | cons t rest =>
    have := not_isEnd_of_mem_ahead (c := c) (t := t) (by simp [ha])
    simp [this]

/-- The kind of the next token tells whether the cursor is at its end. -/
theorem Valid.peek_kind_eq_end_iff (h : c.Valid) :
    c.peek.kind = TokenKind.endOfInput ↔ c.ahead = [] := by
  rw [← h.atEnd_iff]
  simp [atEnd, Token.isEnd]

/-! ## Moving -/

theorem Valid.ahead_advance (h : c.Valid) : c.advance.ahead = c.ahead.tail := by
  unfold advance
  split
  · rename_i hend
    rw [h.atEnd_iff.1 hend]
    rfl
  · rename_i hend
    rw [h.atEnd_iff] at hend
    rw [ahead_eq, ahead_eq] at *
    cases hd : c.tokens.drop c.position with
    | nil => simp [hd, shown] at hend
    | cons t rest =>
      have hdrop : c.tokens.drop (c.position + 1) = rest := by
        rw [← List.drop_drop, hd, List.drop_one, List.tail_cons]
      have he : t.isEnd = false := by
        cases he : t.isEnd
        · rfl
        · simp [hd, shown, he] at hend
      dsimp only
      rw [drop_settle, hdrop, shown_dropWhile]
      simp [shown, he, h.shows_of_drop hd]

theorem Valid.advance (h : c.Valid) : c.advance.Valid := by
  unfold Cursor.advance
  split
  · exact h
  · rename_i hend
    refine ⟨h.isEnd_marker, settle_settle .., settle_le_length _ _ ?_⟩
    refine Nat.lt_of_not_le fun hge => hend ?_
    simp [atEnd, peek, List.getElem?_eq_none hge, h.isEnd_marker]

/-- Wherever a cursor is moved to, it settles. -/
theorem valid_seek (hmarker : c.marker.isEnd = true) (n : Nat) : (c.seek n).Valid :=
  ⟨hmarker, settle_settle .., settle_le_length _ _ (Nat.min_le_right ..)⟩

theorem Valid.skip (h : c.Valid) (n : Nat) : (c.skip n).Valid := by
  induction n generalizing c with
  | zero => exact h
  | succ n ih => exact ih h.advance

theorem Valid.ahead_skip (h : c.Valid) (n : Nat) : (c.skip n).ahead = c.ahead.drop n := by
  induction n generalizing c with
  | zero => rfl
  | succ n ih => rw [Cursor.skip, ih h.advance, h.ahead_advance, List.drop_tail]

/-- Looking ahead shows what moving forward comes to. -/
theorem Valid.peekNth_eq (h : c.Valid) (n : Nat) : c.peekNth n = (c.skip n).peek := by
  rw [peekNth, (h.skip n).peek_eq, h.ahead_skip, marker_skip]
  simp

/-- A cursor that has moved forward is taken back by its former position. -/
theorem Valid.seek_position (h : c.Valid) {d : Cursor K} (ht : d.tokens = c.tokens)
    (hc : d.channels = c.channels) (hm : d.marker = c.marker) : d.seek c.position = c := by
  have hs := h.settled
  have hi := Nat.min_eq_left h.inside
  cases c
  cases d
  simp_all [seek]

end

/-! ## Passing tokens -/

/-- From one place to another a cursor passes these tokens. -/
structure Passes (c d : Cursor K) (tokens : List (Token K)) : Prop where
  eq_skip : d = c.skip tokens.length
  isPrefix : tokens <+: c.ahead

namespace Passes

variable {c d e : Cursor K} {tokens others : List (Token K)}

theorem refl (c : Cursor K) : Passes c c [] := ⟨rfl, List.nil_prefix⟩

theorem take (c : Cursor K) {n : Nat} (h : n ≤ c.ahead.length) :
    Passes c (c.skip n) (c.ahead.take n) :=
  ⟨by rw [List.length_take, Nat.min_eq_left h], List.take_prefix ..⟩

theorem valid (h : Passes c d tokens) (hv : c.Valid) : d.Valid := h.eq_skip ▸ hv.skip _

/-- What was ahead is what was passed and what is ahead now. -/
theorem ahead_eq (h : Passes c d tokens) (hv : c.Valid) : c.ahead = tokens ++ d.ahead := by
  obtain ⟨rest, hr⟩ := h.isPrefix
  rw [h.eq_skip, hv.ahead_skip, ← hr, List.drop_left]

theorem trans (h : Passes c d tokens) (h' : Passes d e others) (hv : c.Valid) :
    Passes c e (tokens ++ others) := by
  refine ⟨?_, ?_⟩
  · rw [List.length_append, skip_add, ← h.eq_skip, ← h'.eq_skip]
  · rw [h.ahead_eq hv]
    exact (List.prefix_append_right_inj tokens).2 h'.isPrefix

/-- The next token is passed by moving forward, unless the cursor is at its end. -/
theorem advance (hv : c.Valid) (h : c.ahead ≠ []) : Passes c c.advance [c.peek] := by
  refine ⟨rfl, ?_⟩
  rw [hv.peek_eq]
  cases ha : c.ahead with
  | nil => exact absurd ha h
  | cons t rest => exact ⟨rest, rfl⟩

end Passes

/-! ## Beginning -/

theorem valid_ofTokens (channels : Channels) (tokens : List (Token K)) :
    (ofTokens channels tokens).Valid :=
  ⟨Token.isEnd_endOf tokens, settle_settle .., settle_le_length _ _ (Nat.zero_le _)⟩

theorem ahead_ofTokens (channels : Channels) (tokens : List (Token K)) :
    (ofTokens channels tokens).ahead = shown channels tokens := by
  rw [ahead_eq]
  dsimp only [ofTokens]
  rw [drop_settle, shown_dropWhile, List.drop_zero]

theorem rewind_eq_ofTokens {c : Cursor K} {channels : Channels} {tokens : List (Token K)}
    (ht : c.tokens = tokens) (hc : c.channels = channels) (hm : c.marker = Token.endOf tokens) :
    c.rewind = ofTokens channels tokens := by
  cases c
  simp_all [rewind, seek, ofTokens]

/-- On a longer list more is shown, unless the list ended with a marker. -/
theorem shown_prefix_append (channels : Channels) (tokens more : List (Token K)) :
    shown channels tokens <+: shown channels (tokens ++ more) := by
  unfold shown
  rw [List.takeWhile_append]
  split
  · rename_i hall
    rw [List.filter_append, (List.takeWhile_prefix _).eq_of_length hall]
    exact List.prefix_append _ _
  · exact List.prefix_refl _

/-- On the code channel everything before the end marker is shown that is code. -/
theorem shown_codeOnly (tokens : List (Token K)) :
    shown .codeOnly tokens =
      (tokens.takeWhile fun t => !t.isEnd).filter fun t => t.channels.code := by
  apply List.filter_congr
  intro t ht
  have := List.all_eq_true.1 List.all_takeWhile t ht
  simp_all [shows, Channels.meets, Channels.codeOnly]

end Cursor

/-! ## Code -/

/-- An end marker can only be the last token. -/
def EndsLast (tokens : List (Token K)) : Prop := ∀ t ∈ tokens.dropLast, t.isEnd = false

instance (tokens : List (Token K)) : Decidable (EndsLast tokens) :=
  inferInstanceAs (Decidable (∀ t ∈ tokens.dropLast, t.isEnd = false))

theorem EndsLast.of_append {before after : List (Token K)} (h : EndsLast (before ++ after)) :
    EndsLast after := by
  intro t ht
  have hne : after ≠ [] := fun he => by simp [he] at ht
  exact h t (by rw [List.dropLast_append_of_ne_nil hne]; exact List.mem_append_right _ ht)

theorem EndsLast.tail {t : Token K} {ts : List (Token K)} (h : EndsLast (t :: ts)) :
    EndsLast ts := EndsLast.of_append (show EndsLast ([t] ++ ts) from h)

theorem EndsLast.eq_nil {t : Token K} {ts : List (Token K)} (h : EndsLast (t :: ts))
    (ht : t.isEnd = true) : ts = [] := by
  cases ts with
  | nil => rfl
  | cons u us => exact absurd ht (by simp [h t (by simp)])

/-- Tokens on the code channel, without end markers. -/
def codeOf (tokens : List (Token K)) : List (Token K) :=
  tokens.filter fun t => t.channels.code && !t.isEnd

/-- What a cursor shows before the end marker is all that is on its channels. -/
theorem Cursor.shown_eq_filter {tokens : List (Token K)} (h : EndsLast tokens)
    (channels : Channels) : Cursor.shown channels tokens =
      tokens.filter fun t => channels.meets t.channels && !t.isEnd := by
  unfold Cursor.shown
  rcases List.eq_nil_or_concat tokens with rfl | ⟨initial, last, rfl⟩
  · rfl
  · rw [List.concat_eq_append] at h ⊢
    have hinitial : ∀ t ∈ initial, t.isEnd = false := by simpa [EndsLast] using h
    rw [List.takeWhile_append_of_pos (fun t ht => by simp [hinitial t ht]), List.filter_append,
      List.filter_append]
    congr 1
    · exact List.filter_congr fun t ht => by simp [Cursor.shows, hinitial t ht]
    · cases he : last.isEnd <;> simp [List.filter_cons, Cursor.shows, he]

/-- What a cursor on the code channel shows is all the code of the list. -/
theorem shown_codeOnly_eq_codeOf {tokens : List (Token K)} (h : EndsLast tokens) :
    Cursor.shown .codeOnly tokens = codeOf tokens := by
  rw [Cursor.shown_eq_filter h]
  exact List.filter_congr fun t _ => by simp [Channels.meets, Channels.codeOnly]

end BuiltInScript
