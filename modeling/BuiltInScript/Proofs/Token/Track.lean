import BuiltInScript.Module.Kind
import BuiltInScript.Proofs.Token.Cursor

/-!
# Cursors as indices

Whatever has been asked of a cursor before, it behaves like an index into the list of the tokens
that it shows, with endlessly many copies of the end marker after them: a `Track`. An end marker in
the list is a stop of the track like any other token, but moving forward stays on it.

What carries this is that the stops of a track lie at ascending places. So the place right after
one stop settles on the next, and the place of a stop tells its index.

**Results.**
* `FirstShown.unique`, `firstShown_settle`, `firstShown_stop`: settling comes to the first stop at or
  after a place.
* `resting_seek`, `resting_advance`, `peek_resting`: what moving and looking are on the track.
* `answer_resting`, `answers_resting`: a call, and any run of them.
* `follows_track`: a cursor is an index into the tokens that it shows.
-/
namespace BuiltInScript

variable {K : Type} [DecidableEq K] [TokenKind K]

namespace Cursor

/-! ## Calls -/

/-- What can be asked of a cursor. -/
inductive Call where
  | next | peek | peekNth (n : Nat) | position | seek (position : Nat) | rewind
deriving DecidableEq, Repr

inductive Reply (K : Type) where
  | token (t : Token K)
  | place (position : Nat)
  /-- The cursor is moved, and that is all. -/
  | moved
deriving DecidableEq, Repr

/-- The answer to a call, and the cursor after it. -/
def answer (c : Cursor K) : Call → Reply K × Cursor K
  | .next => (.token c.next.1, c.next.2)
  | .peek => (.token c.peek, c)
  | .peekNth n => (.token (c.peekNth n), c)
  | .position => (.place c.position, c)
  | .seek position => (.moved, c.seek position)
  | .rewind => (.moved, c.rewind)

/-- The cursor after several calls. -/
def after (c : Cursor K) (calls : List Call) : Cursor K :=
  calls.foldl (fun c call => (c.answer call).2) c

/-- The answers to several calls, one after another. -/
def answers (c : Cursor K) : List Call → List (Reply K)
  | [] => []
  | call :: calls => (c.answer call).1 :: (c.answer call).2.answers calls

end Cursor

open Cursor (shows settle)

/-! ## Tracks -/

/-- The tokens that are shown of a list, each with its place, and what comes after all of them. -/
structure Track (K : Type) where
  stops : List (Token K × Nat)
  finish : Token K × Nat
deriving Repr

namespace Track

def ofTokens (channels : Channels) (tokens : List (Token K)) : Track K where
  stops := tokens.zipIdx.filter fun stop => shows channels stop.1
  finish := (Token.endOf tokens, tokens.length)

/-- What an index points to. After the stops there are endlessly many end markers. -/
def stop (t : Track K) (i : Nat) : Token K × Nat := t.stops.getD i t.finish

/-- The index of the first stop at or after a place, or else of the first end marker after them. -/
def indexFrom (t : Track K) (position : Nat) : Nat :=
  t.stops.findIdx fun stop => position ≤ stop.2

/-- The index after moving forward. End markers are not passed. -/
def next (t : Track K) (i : Nat) : Nat := if (t.stop i).1.isEnd then i else i + 1

/-- The answer to a call, and the index after it. -/
def answer (t : Track K) (i : Nat) : Cursor.Call → Cursor.Reply K × Nat
  | .next => (.token (t.stop i).1, t.next i)
  | .peek => (.token (t.stop i).1, i)
  | .peekNth n => (.token (t.stop (i + n)).1, i)
  | .position => (.place (t.stop i).2, i)
  | .seek position => (.moved, t.indexFrom position)
  | .rewind => (.moved, 0)

/-- The index after several calls. -/
def after (t : Track K) (i : Nat) (calls : List Cursor.Call) : Nat :=
  calls.foldl (fun i call => (t.answer i call).2) i

/-- The answers to several calls, one after another. -/
def answers (t : Track K) (i : Nat) : List Cursor.Call → List (Cursor.Reply K)
  | [] => []
  | call :: calls => (t.answer i call).1 :: t.answers (t.answer i call).2 calls

end Track

/-! ## Places where a token is shown -/

namespace Cursor

/-- The first place at or after `n` where a token is shown, or the end of the list if there is no
such place. -/
structure FirstShown (channels : Channels) (tokens : List (Token K)) (n p : Nat) : Prop where
  inside : p ≤ tokens.length
  le : n ≤ p
  shown : ∀ t, tokens[p]? = some t → shows channels t = true
  hidden : ∀ q t, n ≤ q → q < p → tokens[q]? = some t → shows channels t = false

variable {channels : Channels} {tokens : List (Token K)} {n p : Nat}

theorem FirstShown.not_lt (h : FirstShown channels tokens n p) {q : Nat}
    (hq : FirstShown channels tokens n q) : ¬p < q := by
  intro hlt
  have hin : p < tokens.length := Nat.lt_of_lt_of_le hlt hq.inside
  have hget : tokens[p]? = some tokens[p] := List.getElem?_eq_getElem hin
  have hshown := h.shown _ hget
  rw [hq.hidden p _ h.le hlt hget] at hshown
  cases hshown

theorem FirstShown.unique (h : FirstShown channels tokens n p) {q : Nat}
    (hq : FirstShown channels tokens n q) : p = q :=
  Nat.le_antisymm (Nat.le_of_not_lt (hq.not_lt h)) (Nat.le_of_not_lt (h.not_lt hq))

/-- **Settling.** A cursor settles on the first token that it shows. -/
theorem firstShown_settle (channels : Channels) {tokens : List (Token K)} {n : Nat}
    (h : n ≤ tokens.length) : FirstShown channels tokens n (settle channels tokens n) where
  inside := settle_le_length channels tokens h
  le := le_settle channels tokens n
  shown := by
    intro t ht
    have hdrop := drop_settle channels tokens n
    have hhead := List.head?_dropWhile_not (fun t => !shows channels t) (tokens.drop n)
    rw [← hdrop, List.head?_drop, ht] at hhead
    simpa using hhead
  hidden := by
    intro q t hnq hq ht
    let hiddenRun := (tokens.drop n).takeWhile fun t => !shows channels t
    have hstop : settle channels tokens n = n + hiddenRun.length := rfl
    have hlt : q - n < hiddenRun.length := by omega
    have hget : hiddenRun[q - n]? = some t := by
      have hsplit : hiddenRun ++ (tokens.drop n).dropWhile (fun t => !shows channels t) =
          tokens.drop n := List.takeWhile_append_dropWhile
      rw [← List.getElem?_append_left hlt, hsplit, List.getElem?_drop, Nat.add_sub_cancel' hnq, ht]
    simpa using List.all_eq_true.1 List.all_takeWhile t (List.mem_of_getElem? hget)

end Cursor

/-! ## Stops -/

namespace Track

open Cursor (FirstShown)

variable {channels : Channels} {tokens : List (Token K)} {i : Nat}

omit [DecidableEq K] [TokenKind K] in
theorem stop_of_lt {track : Track K} (h : i < track.stops.length) :
    track.stop i = track.stops[i] := by
  simp [stop, h]

omit [DecidableEq K] [TokenKind K] in
theorem stop_of_le {track : Track K} (h : track.stops.length ≤ i) :
    track.stop i = track.finish := by
  simp [stop, h]

/-- A stop is a token of the list that is shown, with its place. -/
theorem mem_stops_iff {t : Token K} {p : Nat} :
    (t, p) ∈ (ofTokens channels tokens).stops ↔ tokens[p]? = some t ∧ shows channels t := by
  simp [ofTokens, List.mem_zipIdx_iff_getElem?]

theorem stops_getElem (h : i < (ofTokens channels tokens).stops.length) :
    tokens[((ofTokens channels tokens).stops[i]).2]? =
        some ((ofTokens channels tokens).stops[i]).1 ∧
      shows channels ((ofTokens channels tokens).stops[i]).1 :=
  mem_stops_iff.1 (List.getElem_mem h)

theorem place_lt (h : i < (ofTokens channels tokens).stops.length) :
    ((ofTokens channels tokens).stops[i]).2 < tokens.length :=
  (List.getElem?_eq_some_iff.1 (stops_getElem h).1).1

/-- The places of the stops ascend. -/
theorem place_lt_place {j : Nat} (hij : i < j) (hj : j < (ofTokens channels tokens).stops.length) :
    ((ofTokens channels tokens).stops[i]).2 < ((ofTokens channels tokens).stops[j]).2 := by
  have hzip : tokens.zipIdx.Pairwise fun a b => a.2 < b.2 := by
    rw [← List.pairwise_map (R := (· < ·)), List.zipIdx_map_snd]
    exact List.pairwise_lt_range'
  exact List.pairwise_iff_getElem.1 (hzip.filter _) i j (Nat.lt_trans hij hj) hj hij

/-- The first stop that is not before a place is where a cursor settles. -/
theorem firstShown_stop {n : Nat} (hn : n ≤ tokens.length)
    (hbefore : ∀ j (hj : j < (ofTokens channels tokens).stops.length), j < i →
      ((ofTokens channels tokens).stops[j]).2 < n)
    (hfrom : ∀ hi : i < (ofTokens channels tokens).stops.length,
      n ≤ ((ofTokens channels tokens).stops[i]).2) :
    FirstShown channels tokens n ((ofTokens channels tokens).stop i).2 := by
  have hhidden {q : Nat} {t : Token K} (hnq : n ≤ q) (ht : tokens[q]? = some t)
      (hlt : ∀ hi : i < (ofTokens channels tokens).stops.length,
        q < ((ofTokens channels tokens).stops[i]).2) : shows channels t = false := by
    refine Bool.eq_false_iff.2 fun hshown => ?_
    -- shown, it would be a stop: one before the index, or the one there, or one after that
    obtain ⟨j, hj, hjq⟩ := List.getElem_of_mem (mem_stops_iff.2 ⟨ht, hshown⟩)
    rcases Nat.lt_or_ge j i with hji | hij
    · have := hbefore j hj hji
      rw [hjq] at this
      omega
    · have hi : i < (ofTokens channels tokens).stops.length := by omega
      have hqi := hlt hi
      rcases Nat.eq_or_lt_of_le hij with rfl | hij
      · rw [hjq] at hqi
        omega
      · have := place_lt_place hij hj
        rw [hjq] at this
        omega
  by_cases hi : i < (ofTokens channels tokens).stops.length
  · rw [stop_of_lt hi]
    obtain ⟨hget, hshown⟩ := stops_getElem hi
    refine ⟨Nat.le_of_lt (place_lt hi), hfrom hi, fun t ht => ?_, fun q t hnq hq ht => ?_⟩
    · rw [hget] at ht
      cases ht
      exact hshown
    · exact hhidden hnq ht fun _ => hq
  · rw [stop_of_le (Nat.le_of_not_lt hi)]
    refine ⟨Nat.le_refl _, hn, fun t ht => ?_, fun q t hnq hq ht => ?_⟩
    · simp [ofTokens] at ht
    · exact hhidden hnq ht fun hi' => absurd hi' hi

/-- A cursor settles on the first stop at or after a place, where places past the end of the list
count as its end. -/
theorem firstShown_indexFrom (n : Nat) : FirstShown channels tokens (min n tokens.length)
    ((ofTokens channels tokens).stop ((ofTokens channels tokens).indexFrom n)).2 := by
  refine firstShown_stop (Nat.min_le_right ..) (fun j hj hlt => ?_) fun hi => ?_
  · have hbefore := List.not_of_lt_findIdx hlt
    have := place_lt hj
    simp only [decide_eq_false_iff_not] at hbefore
    omega
  · have hfound : n ≤ ((ofTokens channels tokens).stops[(ofTokens channels tokens).indexFrom n]).2 :=
      of_decide_eq_true (List.findIdx_getElem (w := hi))
    omega

/-- So does one that begins right after the stop before it. -/
theorem firstShown_succ (hi : i < (ofTokens channels tokens).stops.length) :
    FirstShown channels tokens (((ofTokens channels tokens).stops[i]).2 + 1)
      ((ofTokens channels tokens).stop (i + 1)).2 := by
  refine firstShown_stop (place_lt hi) (fun j hj hlt => ?_) fun hnext => ?_
  · rcases Nat.eq_or_lt_of_le (Nat.le_of_lt_succ hlt) with rfl | hji
    · omega
    · have := place_lt_place hji hi
      omega
  · exact place_lt_place (Nat.lt_succ_self i) hnext

/-- The place of a stop is where a cursor rests. -/
theorem firstShown_self : FirstShown channels tokens ((ofTokens channels tokens).stop i).2
    ((ofTokens channels tokens).stop i).2 := by
  by_cases hi : i < (ofTokens channels tokens).stops.length
  · have hstop := congrArg Prod.snd (stop_of_lt hi)
    refine firstShown_stop ?_ (fun j hj hji => ?_) fun _ => Nat.le_of_eq hstop
    · rw [hstop]
      exact Nat.le_of_lt (place_lt hi)
    · rw [hstop]
      exact place_lt_place hji hi
  · have hstop := congrArg Prod.snd (stop_of_le (Nat.le_of_not_lt hi))
    refine firstShown_stop (Nat.le_of_eq hstop) (fun j hj hji => ?_) (absurd · hi)
    rw [hstop]
    exact place_lt hj

/-! ## End markers -/

/-- An end marker that stands last in a list is the one that a cursor shows. -/
theorem last_of_isEnd (h : EndsLast tokens) {t : Token K} {p : Nat} (ht : tokens[p]? = some t)
    (hend : t.isEnd = true) : p + 1 = tokens.length ∧ Token.endOf tokens = t := by
  obtain ⟨hp, hget⟩ := List.getElem?_eq_some_iff.1 ht
  have hnotBefore : ¬p < tokens.dropLast.length := by
    intro hin
    have hmem : t ∈ tokens.dropLast := by
      rw [← hget, ← List.getElem_dropLast hin]
      exact List.getElem_mem hin
    rw [h t hmem] at hend
    cases hend
  have hlast : p + 1 = tokens.length := by
    rw [List.length_dropLast] at hnotBefore
    omega
  have hgetLast : tokens.getLast? = some t := by
    rw [List.getLast?_eq_getElem?, ← hlast, Nat.add_sub_cancel, ht]
  refine ⟨hlast, ?_⟩
  rw [Token.endOf, hgetLast]
  exact if_pos hend

/-- From an end marker on there are only copies of it. -/
theorem stop_of_isEnd (h : EndsLast tokens)
    (hend : ((ofTokens channels tokens).stop i).1.isEnd = true) {j : Nat} (hij : i ≤ j) :
    ((ofTokens channels tokens).stop j).1 = Token.endOf tokens := by
  by_cases hj : j < (ofTokens channels tokens).stops.length
  · have hi : i < (ofTokens channels tokens).stops.length := by omega
    rw [stop_of_lt hi] at hend
    obtain ⟨hlast, heq⟩ := last_of_isEnd h (stops_getElem hi).1 hend
    rcases Nat.eq_or_lt_of_le hij with rfl | hij
    · rw [stop_of_lt hi, heq]
    · have := place_lt_place hij hj
      have := place_lt hj
      omega
  · rw [stop_of_le (Nat.le_of_not_lt hj)]
    rfl

/-- Moving forward from an index makes no difference to what lies further ahead. -/
theorem stop_next_add (h : EndsLast tokens) (n : Nat) :
    ((ofTokens channels tokens).stop ((ofTokens channels tokens).next i + n)).1 =
      ((ofTokens channels tokens).stop (i + (n + 1))).1 := by
  unfold next
  split
  · rename_i hend
    rw [stop_of_isEnd h hend (by omega), stop_of_isEnd h hend (by omega)]
  · rw [Nat.add_right_comm, Nat.add_assoc]

end Track

/-! ## Cursors on a track -/

namespace Cursor

variable (channels : Channels) (tokens : List (Token K)) (i : Nat)

/-- The cursor that an index stands for. -/
def resting : Cursor K :=
  { ofTokens channels tokens with position := ((Track.ofTokens channels tokens).stop i).2 }

theorem valid_resting : (resting channels tokens i).Valid where
  isEnd_marker := Token.isEnd_endOf tokens
  settled :=
    (firstShown_settle channels Track.firstShown_self.inside).unique Track.firstShown_self
  inside := Track.firstShown_self.inside

variable {channels tokens i}

theorem resting_seek (n : Nat) : (resting channels tokens i).seek n =
    resting channels tokens ((Track.ofTokens channels tokens).indexFrom n) := by
  have hplace : settle channels tokens (min n tokens.length) =
      ((Track.ofTokens channels tokens).stop ((Track.ofTokens channels tokens).indexFrom n)).2 :=
    (firstShown_settle channels (Nat.min_le_right ..)).unique (Track.firstShown_indexFrom n)
  unfold resting
  rw [← hplace]
  rfl

variable (channels tokens) in
theorem ofTokens_eq_resting : ofTokens channels tokens = resting channels tokens 0 := by
  have hplace : settle channels tokens 0 = ((Track.ofTokens channels tokens).stop 0).2 :=
    (firstShown_settle channels (Nat.zero_le _)).unique
      (Track.firstShown_stop (Nat.zero_le _) (fun j _ hj => absurd hj (Nat.not_lt_zero j))
        fun _ => Nat.zero_le _)
  unfold resting
  rw [← hplace]
  rfl

/-- The next token. -/
theorem peek_resting (h : EndsLast tokens) :
    (resting channels tokens i).peek = ((Track.ofTokens channels tokens).stop i).1 := by
  unfold peek resting
  by_cases hi : i < (Track.ofTokens channels tokens).stops.length
  · obtain ⟨hget, -⟩ := Track.stops_getElem hi
    rw [Track.stop_of_lt hi]
    simp only [ofTokens, hget]
    split
    · rename_i hend
      exact (Track.last_of_isEnd h hget hend).2
    · rfl
  · rw [Track.stop_of_le (Nat.le_of_not_lt hi)]
    simp [ofTokens, Track.ofTokens]

/-- Moving forward. -/
theorem resting_advance (h : EndsLast tokens) : (resting channels tokens i).advance =
    resting channels tokens ((Track.ofTokens channels tokens).next i) := by
  unfold advance atEnd Track.next
  rw [peek_resting h]
  split
  · rfl
  · rename_i hend
    have hi : i < (Track.ofTokens channels tokens).stops.length := by
      refine Nat.lt_of_not_le fun hle => hend ?_
      rw [Track.stop_of_le hle]
      exact Token.isEnd_endOf tokens
    have hplace : settle channels tokens (((Track.ofTokens channels tokens).stop i).2 + 1) =
        ((Track.ofTokens channels tokens).stop (i + 1)).2 := by
      rw [Track.stop_of_lt hi]
      exact (firstShown_settle channels (Track.place_lt hi)).unique (Track.firstShown_succ hi)
    show { ofTokens channels tokens with
      position := settle channels tokens (((Track.ofTokens channels tokens).stop i).2 + 1) } = _
    rw [hplace]
    rfl

/-- Looking ahead. -/
theorem peekNth_resting (h : EndsLast tokens) (n : Nat) :
    (resting channels tokens i).peekNth n = ((Track.ofTokens channels tokens).stop (i + n)).1 := by
  rw [(valid_resting channels tokens i).peekNth_eq]
  induction n generalizing i with
  | zero => exact peek_resting h
  | succ n ih => rw [skip, resting_advance h, ih, Track.stop_next_add h]

/-! ## Calls -/

/-- **Step.** A call is answered as on the track, and leaves the cursor at the index that it leaves
there. -/
theorem answer_resting (h : EndsLast tokens) (call : Call) :
    (resting channels tokens i).answer call =
      (((Track.ofTokens channels tokens).answer i call).1,
        resting channels tokens ((Track.ofTokens channels tokens).answer i call).2) := by
  cases call with
  | next => exact Prod.ext (congrArg Reply.token (peek_resting h)) (resting_advance h)
  | peek => exact Prod.ext (congrArg Reply.token (peek_resting h)) rfl
  | peekNth n => exact Prod.ext (congrArg Reply.token (peekNth_resting h n)) rfl
  | position => rfl
  | seek position => exact Prod.ext rfl (resting_seek position)
  | rewind =>
    refine Prod.ext rfl ?_
    show (resting channels tokens i).rewind = resting channels tokens 0
    rw [← ofTokens_eq_resting]
    exact rewind_eq_ofTokens rfl rfl rfl

theorem after_resting (h : EndsLast tokens) (calls : List Call) :
    (resting channels tokens i).after calls =
      resting channels tokens ((Track.ofTokens channels tokens).after i calls) := by
  induction calls generalizing i with
  | nil => rfl
  | cons call calls ih =>
    show ((resting channels tokens i).answer call).2.after calls = _
    rw [answer_resting h, ih]
    rfl

/-- **Run.** -/
theorem answers_resting (h : EndsLast tokens) (calls : List Call) :
    (resting channels tokens i).answers calls =
      (Track.ofTokens channels tokens).answers i calls := by
  induction calls generalizing i with
  | nil => rfl
  | cons call calls ih => rw [answers, Track.answers, answer_resting h, ih]

theorem after_next (c : Cursor K) (n : Nat) : c.after (List.replicate n .next) = c.skip n := by
  induction n generalizing c with
  | zero => rfl
  | succ n ih => exact ih c.advance

/-- Moving forward yields what is ahead, and then end markers. -/
theorem Valid.answers_next {c : Cursor K} (hv : c.Valid) (n : Nat) :
    c.answers (List.replicate (c.ahead.length + n) .next) =
      c.ahead.map .token ++ List.replicate n (.token c.marker) := by
  generalize hahead : c.ahead = ahead
  induction ahead generalizing c with
  | nil =>
    have hpeek : c.peek = c.marker := by rw [hv.peek_eq, hahead, List.headD_nil]
    have hstay : c.advance = c := advance_of_atEnd (hv.atEnd_iff.2 hahead)
    rw [List.length_nil, Nat.zero_add, List.map_nil, List.nil_append]
    induction n with
    | zero => rfl
    | succ n ih =>
      show Reply.token c.peek :: c.advance.answers (List.replicate n .next) = _
      rw [hpeek, hstay, ih, List.replicate_succ]
  | cons t rest ih =>
    have hpeek : c.peek = t := by rw [hv.peek_eq, hahead, List.headD_cons]
    have hrest : c.advance.ahead = rest := by rw [hv.ahead_advance, hahead, List.tail_cons]
    have hanswers := ih hv.advance hrest
    rw [marker_advance] at hanswers
    rw [List.length_cons, Nat.add_right_comm, List.replicate_succ]
    show Reply.token c.peek :: c.advance.answers _ = _
    rw [hpeek, hanswers, List.map_cons, List.cons_append]

/-- What a cursor is like at the beginning of a list and after some calls. -/
structure Follows (channels : Channels) (tokens : List (Token K)) (calls : List Call) : Prop where
  /-- The calls are answered as by an index into the tokens shown, with endlessly many end markers
  after them. -/
  answers_eq : (ofTokens channels tokens).answers calls =
    (Track.ofTokens channels tokens).answers 0 calls
  /-- Looking ahead now shows what moving forward that often would come to. -/
  peekNth_eq : ∀ n, ((ofTokens channels tokens).after calls).peekNth n =
    (((ofTokens channels tokens).after calls).after (List.replicate n .next)).peek
  /-- The position tells all: it brings back this state, whatever is called meanwhile. -/
  seek_position : ∀ later, (((ofTokens channels tokens).after calls).after later).seek
    ((ofTokens channels tokens).after calls).position = (ofTokens channels tokens).after calls
  /-- Going to a place comes to the first token shown there or after it. -/
  firstShown : ∀ n, FirstShown channels tokens (min n tokens.length)
    (((ofTokens channels tokens).after calls).seek n).position

/-- **Cursors.** On a list with an end marker at most in last place, a cursor is an index into the
tokens that it shows, whatever is called. Moving forward from the beginning yields each of them
once, in order, and then the end marker for ever. -/
theorem follows_track {tokens : List (Token K)} (h : EndsLast tokens) (channels : Channels) :
    (∀ calls, Follows channels tokens calls) ∧
      let visible := tokens.filter fun t => channels.meets t.channels && !t.isEnd
      ∀ n, (ofTokens channels tokens).answers (List.replicate (visible.length + n) .next) =
        visible.map .token ++ List.replicate n (.token (Token.endOf tokens)) := by
  constructor
  · intro calls
    have hc : (ofTokens channels tokens).after calls =
        resting channels tokens ((Track.ofTokens channels tokens).after 0 calls) := by
      rw [ofTokens_eq_resting, after_resting h]
    have hv := valid_resting channels tokens ((Track.ofTokens channels tokens).after 0 calls)
    refine ⟨?_, fun n => ?_, fun later => ?_, fun n => ?_⟩
    · rw [ofTokens_eq_resting, answers_resting h]
    · rw [after_next, hc, hv.peekNth_eq]
    · rw [hc, after_resting h]
      exact hv.seek_position rfl rfl rfl
    · rw [hc, resting_seek]
      exact Track.firstShown_indexFrom n
  · intro visible n
    have hahead : (ofTokens channels tokens).ahead = visible :=
      (ahead_ofTokens channels tokens).trans (shown_eq_filter h channels)
    rw [← hahead, (valid_ofTokens channels tokens).answers_next n]
    rfl

/-- A list of a name, a blank, a comma and an end marker on a channel that is not shown. -/
theorem follows_track_hidden :
    let word : Token Module.Kind :=
      { kind := .identifier, channels := .codeOnly, text := "x", position := ⟨1, 0⟩, index := 0,
        span := ⟨0, 1⟩ }
    let blank : Token Module.Kind :=
      { kind := .whiteSpace, channels := .hiddenOnly, text := " ", position := ⟨1, 1⟩, index := 1,
        span := ⟨1, 2⟩ }
    let comma : Token Module.Kind :=
      { kind := .comma, channels := .codeOnly, text := ",", position := ⟨1, 2⟩, index := 2,
        span := ⟨2, 3⟩ }
    let tokens := [word, blank, comma, comma.endAfter]
    EndsLast tokens ∧
      Follows .codeOnly tokens [.next, .position, .peekNth 1, .seek 1, .next, .next, .seek 9] ∧
      (ofTokens .codeOnly tokens).answers (List.replicate 3 .next) =
        [.token word, .token comma, .token comma.endAfter] := by
  intro word blank comma tokens
  have hends : EndsLast tokens := by decide
  exact ⟨hends, (follows_track hends .codeOnly).1 _, (follows_track hends .codeOnly).2 1⟩

end Cursor
end BuiltInScript
