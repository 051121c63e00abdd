import BuiltInScript.Module.Grammar
import BuiltInScript.Proofs.Parsing.Action
import BuiltInScript.Proofs.Token.Track

/-!
# How far recovery skips

A rule that fails may have left the cursor anywhere. Recovery goes back to where the rule began and
takes tokens from there: at least the first one, even if parsing could go on before it, and then
all up to the first one that says where to stop, or up to the end. So what it leaves out is never
more than what it keeps, and every loop around it gets on.

What recovery does is told twice: over the tokens ahead, where the loop is an induction, and over
places in the token list, where hidden tokens lie between those that it takes.

**Results.**
* `Recovery.exists_takes`: the leaves that recovery makes, over the tokens ahead.
* `Cursor.Valid.exists_passed`: what lies between two places of a cursor.
* `Recovery.StopsAt.unique`: recovery from a place stops at one place only.
* `recover_stops`: what recovery makes of a failed rule.
-/
namespace BuiltInScript

variable {K R α : Type}

/-! ## Over the tokens ahead -/

namespace Recovery

/-- What is kept of a token: an error leaf, unless recovery stops after the token. -/
def leaf (sync : K → RecoveryPoint) (t : Token K) : Tree R K :=
  if sync t.kind = .stopAfter then .token t else .error t

/-- Tokens that recovery takes, and the ones that it leaves: it stops before or after the first
token that says so, but not before the very first if that is `held`. -/
structure Takes (sync : K → RecoveryPoint) (held : Bool) (taken left : List (Token K)) : Prop where
  before : ∀ a t b, taken = a ++ t :: b → sync t.kind = .stopBefore → held = true ∧ a = []
  after : ∀ a t b, taken = a ++ t :: b → sync t.kind = .stopAfter → b = []
  halts : (∃ t, taken.getLast? = some t ∧ sync t.kind = .stopAfter) ∨
    (∃ t, left.head? = some t ∧ sync t.kind = .stopBefore) ∨ left = []

variable {sync : K → RecoveryPoint} {held : Bool} {t : Token K} {taken left : List (Token K)}

/-- One token more at the beginning. -/
theorem Takes.cons (h : Takes sync false taken left) (hafter : sync t.kind ≠ .stopAfter)
    (hbefore : sync t.kind = .stopBefore → held = true) : Takes sync held (t :: taken) left where
  before := by
    intro a u b heq hu
    rcases List.cons_eq_append_iff.1 heq with ⟨rfl, h₁⟩ | ⟨a', rfl, h₁⟩
    · obtain ⟨rfl, -⟩ := List.cons.inj h₁
      exact ⟨hbefore hu, rfl⟩
    · exact absurd (h.before a' u b h₁ hu).1 Bool.false_ne_true
  after := by
    intro a u b heq hu
    rcases List.cons_eq_append_iff.1 heq with ⟨rfl, h₁⟩ | ⟨a', rfl, h₁⟩
    · obtain ⟨rfl, -⟩ := List.cons.inj h₁
      exact absurd hu hafter
    · exact h.after a' u b h₁ hu
  halts := by
    rcases h.halts with ⟨u, hlast, hu⟩ | hrest
    · exact .inl ⟨u, by rw [List.getLast?_cons, hlast, Option.getD_some], hu⟩
    · exact .inr hrest

/-- Recovery stops after a token that says so. -/
theorem Takes.single (h : sync t.kind = .stopAfter) (left : List (Token K)) :
    Takes sync held [t] left where
  before := by
    rintro (_ | ⟨_, a⟩) u b heq hu
    · cases heq
      rw [h] at hu
      cases hu
    · simp at heq
  after := by
    rintro (_ | ⟨_, a⟩) u b heq _
    · exact (List.cons.inj heq).2.symm
    · simp at heq
  halts := .inl ⟨t, rfl, h⟩

/-- Where nothing is held, recovery may take nothing. -/
theorem Takes.nothing (h : (∃ t, left.head? = some t ∧ sync t.kind = .stopBefore) ∨ left = []) :
    Takes sync held [] left :=
  ⟨by simp, by simp, .inr h⟩

/-- The leaves are what is kept of the tokens that recovery takes. -/
theorem exists_takes (sync : K → RecoveryPoint) (held : Bool) (tokens : List (Token K)) :
    ∃ taken left, tokens = taken ++ left ∧
      leaves (R := R) sync held tokens = taken.map (leaf sync) ∧ Takes sync held taken left := by
  induction tokens generalizing held with
  | nil => exact ⟨[], [], rfl, rfl, .nothing (.inr rfl)⟩
  | cons t ts ih =>
    obtain ⟨taken, left, rfl, hleaves, htakes⟩ := ih false
    rw [leaves]
    cases hsync : sync t.kind with
    | skip =>
      refine ⟨t :: taken, left, rfl, ?_, htakes.cons (by simp [hsync]) (by simp [hsync])⟩
      simp [hleaves, leaf, hsync]
    | stopBefore =>
      cases held with
      | true =>
        refine ⟨t :: taken, left, rfl, ?_, htakes.cons (by simp [hsync]) fun _ => rfl⟩
        simp [hleaves, leaf, hsync]
      | false => exact ⟨[], t :: (taken ++ left), rfl, rfl, .nothing (.inl ⟨t, rfl, hsync⟩)⟩
    | stopAfter => exact ⟨[t], taken ++ left, rfl, by simp [leaf, hsync], .single hsync _⟩

end Recovery

/-! ## Over places in the token list -/

variable [DecidableEq K] [TokenKind K]

namespace Cursor

/-- The tokens shown between two places of a list. -/
def between (channels : Channels) (tokens : List (Token K)) (start stop : Nat) : List (Token K) :=
  (tokens.extract start stop).filter (shows channels)

theorem mem_between_iff {channels : Channels} {tokens : List (Token K)} {start stop : Nat}
    {t : Token K} : t ∈ between channels tokens start stop ↔
      ∃ q, start ≤ q ∧ q < stop ∧ tokens[q]? = some t ∧ shows channels t = true := by
  rw [between, List.mem_filter, List.extract_eq_take_drop, List.mem_iff_getElem?]
  constructor
  · rintro ⟨⟨i, hi⟩, hshown⟩
    rw [List.getElem?_take, List.getElem?_drop] at hi
    split at hi
    · exact ⟨start + i, Nat.le_add_right .., by omega, hi, hshown⟩
    · cases hi
  · rintro ⟨q, hstart, hstop, ht, hshown⟩
    refine ⟨⟨q - start, ?_⟩, hshown⟩
    rw [List.getElem?_take_of_lt (by omega), List.getElem?_drop, Nat.add_sub_cancel' hstart, ht]

/-- A token shown on the way parts what is shown. -/
theorem between_eq_append {channels : Channels} {tokens : List (Token K)} {start q stop : Nat}
    {t : Token K} (hstart : start ≤ q) (hstop : q < stop) (ht : tokens[q]? = some t)
    (hshown : shows channels t = true) : between channels tokens start stop =
      between channels tokens start q ++ t :: between channels tokens (q + 1) stop := by
  obtain ⟨hq, hget⟩ := List.getElem?_eq_some_iff.1 ht
  have hdrop : tokens.drop q = t :: tokens.drop (q + 1) := by
    rw [List.drop_eq_getElem_cons hq, hget]
  have hcut : (tokens.drop start).take (stop - start) =
      (tokens.drop start).take (q - start) ++
        t :: (tokens.drop (q + 1)).take (stop - (q + 1)) := by
    have hlength : stop - start = q - start + (stop - (q + 1) + 1) := by omega
    rw [hlength, List.take_add, List.drop_drop, Nat.add_sub_cancel' hstart, hdrop,
      List.take_succ_cons]
  simp only [between, List.extract_eq_take_drop]
  rw [hcut, List.filter_append, List.filter_cons_of_pos hshown]

variable {c : Cursor K}

/-- A valid cursor rests on the first token shown from its place on. -/
theorem Valid.firstShown (h : c.Valid) : FirstShown c.channels c.tokens c.position c.position := by
  have hfirst := firstShown_settle c.channels h.inside
  rwa [h.settled] at hfirst

/-- A cursor whose position is where a token is shown rests there. -/
theorem seek_of_shows {n : Nat} {t : Token K} (ht : c.tokens[n]? = some t)
    (hshown : shows c.channels t = true) : (c.seek n).position = n := by
  obtain ⟨hn, hget⟩ := List.getElem?_eq_some_iff.1 ht
  have hdrop : c.tokens.drop n = t :: c.tokens.drop (n + 1) := by
    rw [List.drop_eq_getElem_cons hn, hget]
  simp [Cursor.seek, settle, Nat.min_eq_left (Nat.le_of_lt hn), hdrop, hshown]

/-- Passing tokens moves only the position. -/
theorem skip_eq (c : Cursor K) (n : Nat) :
    c.skip n = { c with position := (c.skip n).position } := by
  rw [← tokens_skip c n, ← channels_skip c n, ← marker_skip c n]

/-- A cursor rests on the first token ahead. -/
theorem Valid.getElem?_of_head? (h : c.Valid) {t : Token K} (ht : c.ahead.head? = some t) :
    c.tokens[c.position]? = some t := by
  have hpeek : c.peek = t := h.peek_of_head? ht
  have hnot : t.isEnd = false := not_isEnd_of_mem_ahead (List.mem_of_head? ht)
  unfold peek at hpeek
  split at hpeek
  · split at hpeek
    · rw [← hpeek, h.isEnd_marker] at hnot
      cases hnot
    · rwa [← hpeek]
  · rw [← hpeek, h.isEnd_marker] at hnot
    cases hnot

/-- Where nothing is ahead, a cursor rests on an end marker or past the list. -/
theorem Valid.isEnd_of_ahead_eq_nil (h : c.Valid) (hahead : c.ahead = []) {t : Token K}
    (ht : c.tokens[c.position]? = some t) : t.isEnd = true := by
  have hat := h.atEnd_iff.2 hahead
  cases hend : t.isEnd with
  | true => rfl
  | false => simp [atEnd, peek, ht, hend] at hat

/-- What is passed with one token: the token and hidden ones. -/
theorem Valid.exists_passed_advance (h : c.Valid) {t : Token K} {rest : List (Token K)}
    (hahead : c.ahead = t :: rest) :
    ∃ hidden, c.tokens.drop c.position = t :: (hidden ++ c.tokens.drop c.advance.position) ∧
      c.advance.position = c.position + (t :: hidden).length ∧
      (t :: hidden).filter (shows c.channels) = [t] := by
  have hget : c.tokens[c.position]? = some t :=
    h.getElem?_of_head? (by rw [hahead, List.head?_cons])
  obtain ⟨hlt, hget⟩ := List.getElem?_eq_some_iff.1 hget
  have hdrop : c.tokens.drop c.position = t :: c.tokens.drop (c.position + 1) := by
    rw [List.drop_eq_getElem_cons hlt, hget]
  have hadvance : c.advance.position = settle c.channels c.tokens (c.position + 1) := by
    have hat : c.atEnd = false := Bool.eq_false_iff.2 fun he => by
      rw [h.atEnd_iff.1 he] at hahead
      cases hahead
    simp [Cursor.advance, hat]
  refine ⟨(c.tokens.drop (c.position + 1)).takeWhile fun t => !shows c.channels t, ?_, ?_, ?_⟩
  · rw [hadvance, drop_settle, List.takeWhile_append_dropWhile, hdrop]
  · rw [hadvance, settle, List.length_cons]
    omega
  · have hhidden : ∀ u ∈ (c.tokens.drop (c.position + 1)).takeWhile fun t => !shows c.channels t,
        shows c.channels u = false := fun u hu => by
      simpa using List.all_eq_true.1 List.all_takeWhile u hu
    rw [List.filter_cons_of_pos (h.shows_of_drop hdrop), List.filter_eq_nil_iff.2]
    exact fun u hu => by simp [hhidden u hu]

/-- What is passed with several tokens: these tokens, with hidden ones after each. -/
theorem Valid.exists_passed (h : c.Valid) {taken left : List (Token K)}
    (hahead : c.ahead = taken ++ left) :
    ∃ passed, c.tokens.drop c.position =
        passed ++ c.tokens.drop (c.skip taken.length).position ∧
      (c.skip taken.length).position = c.position + passed.length ∧
      passed.filter (shows c.channels) = taken := by
  induction taken generalizing c with
  | nil => exact ⟨[], rfl, rfl, rfl⟩
  | cons t taken ih =>
    obtain ⟨hidden, hdrop, hposition, hshown⟩ := h.exists_passed_advance hahead
    have hrest : c.advance.ahead = taken ++ left := by rw [h.ahead_advance, hahead]; rfl
    obtain ⟨passed, hdrop', hposition', hshown'⟩ := ih h.advance hrest
    rw [tokens_advance] at hdrop'
    rw [channels_advance] at hshown'
    refine ⟨t :: hidden ++ passed, ?_, ?_, ?_⟩
    · rw [hdrop, hdrop', List.length_cons, Cursor.skip]
      simp
    · rw [List.length_cons, Cursor.skip, hposition', hposition, List.length_append]
      omega
    · rw [List.filter_append, hshown, hshown', List.singleton_append]

end Cursor

namespace Recovery

open Cursor (FirstShown between shows)

/-- Where recovery stops that began at a place: on a token that is shown or past the list, further
on, and at the first place where anything says so. -/
structure StopsAt (sync : K → RecoveryPoint) (channels : Channels) (tokens : List (Token K))
    (start stop : Nat) : Prop where
  advances : start < stop
  rests : FirstShown channels tokens stop stop
  /-- No end marker is taken. -/
  isEnd : ∀ q t, start ≤ q → q < stop → tokens[q]? = some t → shows channels t = true →
    t.isEnd = false
  /-- What parsing could go on before is not taken, unless recovery began there. -/
  before : ∀ q t, start ≤ q → q < stop → tokens[q]? = some t → shows channels t = true →
    sync t.kind = .stopBefore → q = start
  /-- Nothing is taken behind what recovery stops after. -/
  after : ∀ q t, start ≤ q → q < stop → tokens[q]? = some t → shows channels t = true →
    sync t.kind = .stopAfter → between channels tokens (q + 1) stop = []
  /-- It stops after the last token taken, before the next one, or at an end. -/
  halts : (∃ t, (between channels tokens start stop).getLast? = some t ∧
      sync t.kind = .stopAfter) ∨
    (∃ t, tokens[stop]? = some t ∧ t.isEnd = false ∧ sync t.kind = .stopBefore) ∨
    ∀ t, tokens[stop]? = some t → t.isEnd = true

variable {sync : K → RecoveryPoint} {channels : Channels} {tokens : List (Token K)}
  {start stop other : Nat}

/-- Of two places where recovery could stop, the first would be passed on the way to the second. -/
theorem StopsAt.not_lt (h : StopsAt sync channels tokens start stop)
    (ho : StopsAt sync channels tokens start other) : ¬stop < other := by
  intro hlt
  have hin : stop < tokens.length := Nat.lt_of_lt_of_le hlt ho.rests.inside
  have hget : tokens[stop]? = some tokens[stop] := List.getElem?_eq_getElem hin
  have hshown := h.rests.shown _ hget
  have hstart := Nat.le_of_lt h.advances
  rcases h.halts with ⟨t, hlast, ht⟩ | ⟨t, hget', -, ht⟩ | hend
  · obtain ⟨q, hle, hqlt, hq, hshown'⟩ := Cursor.mem_between_iff.1 (List.mem_of_getLast? hlast)
    have hnone := ho.after q t hle (by omega) hq hshown' ht
    have hmem : tokens[stop] ∈ between channels tokens (q + 1) other :=
      Cursor.mem_between_iff.2 ⟨stop, by omega, hlt, hget, hshown⟩
    rw [hnone] at hmem
    cases hmem
  · have := ho.before stop t hstart hlt hget' (h.rests.shown _ hget') ht
    exact absurd this (Nat.ne_of_gt h.advances)
  · have := ho.isEnd stop _ hstart hlt hget hshown
    rw [hend _ hget] at this
    cases this

theorem StopsAt.unique (h : StopsAt sync channels tokens start stop)
    (ho : StopsAt sync channels tokens start other) : other = stop :=
  Nat.le_antisymm (Nat.le_of_not_lt (h.not_lt ho)) (Nat.le_of_not_lt (ho.not_lt h))

/-- What recovery takes of the tokens ahead, told by the place that the cursor comes to. -/
theorem Takes.stopsAt {c : Cursor K} (hv : c.Valid) {taken left : List (Token K)}
    (h : Takes sync true taken left) (hahead : c.ahead = taken ++ left) (hne : taken ≠ [])
    (hstop : (c.skip taken.length).position = stop) :
    between c.channels c.tokens c.position stop = taken ∧
      StopsAt sync c.channels c.tokens c.position stop := by
  obtain ⟨passed, hdrop, hposition, hshown⟩ := hv.exists_passed hahead
  rw [hstop] at hdrop hposition
  have htaken : between c.channels c.tokens c.position stop = taken := by
    rw [between, List.extract_eq_take_drop, hposition, Nat.add_sub_cancel_left, hdrop,
      List.take_left, hshown]
  have hpassed : 0 < passed.length :=
    List.length_pos_iff.2 fun he => hne (by rw [← hshown, he]; rfl)
  have hcut {q : Nat} {t : Token K} (hle : c.position ≤ q) (hlt : q < stop)
      (ht : c.tokens[q]? = some t) (hst : shows c.channels t = true) :
      taken = between c.channels c.tokens c.position q ++
        t :: between c.channels c.tokens (q + 1) stop :=
    htaken.symm.trans (Cursor.between_eq_append hle hlt ht hst)
  have hvalid : (c.skip taken.length).Valid := hv.skip _
  have hleft : (c.skip taken.length).ahead = left := by
    rw [hv.ahead_skip, hahead, List.drop_left]
  refine ⟨htaken, by omega, ?_, fun q t hle hlt ht hst => ?_, fun q t hle hlt ht hst hsync => ?_,
    fun q t hle hlt ht hst hsync => h.after _ t _ (hcut hle hlt ht hst) hsync, ?_⟩
  · have hfirst := hvalid.firstShown
    rwa [Cursor.channels_skip, Cursor.tokens_skip, hstop] at hfirst
  · refine Cursor.not_isEnd_of_mem_ahead (c := c) ?_
    rw [hahead, hcut hle hlt ht hst]
    simp
  · have hnone := (h.before _ t _ (hcut hle hlt ht hst) hsync).2
    rcases Nat.eq_or_lt_of_le hle with heq | hstart
    · exact heq.symm
    · -- the first token would stand before it
      obtain ⟨u, more, rfl⟩ := List.exists_cons_of_ne_nil hne
      have hfirst := hv.getElem?_of_head? (t := u) (by rw [hahead]; rfl)
      have hmem : u ∈ between c.channels c.tokens c.position q :=
        Cursor.mem_between_iff.2
          ⟨c.position, Nat.le_refl _, hstart, hfirst, hv.firstShown.shown u hfirst⟩
      rw [hnone] at hmem
      cases hmem
  · rcases h.halts with hlast | ⟨t, hhead, ht⟩ | rfl
    · exact .inl (htaken ▸ hlast)
    · rw [← hleft] at hhead
      have hget := hvalid.getElem?_of_head? hhead
      rw [Cursor.tokens_skip, hstop] at hget
      exact .inr (.inl ⟨t, hget, Cursor.not_isEnd_of_mem_ahead (List.mem_of_head? hhead), ht⟩)
    · refine .inr (.inr fun t ht => hvalid.isEnd_of_ahead_eq_nil hleft ?_)
      rwa [Cursor.tokens_skip, hstop]

end Recovery

/-! ## What recovery makes of a failed rule -/

omit [DecidableEq K] [TokenKind K] in
/-- Leaves are added to a node one by one, and nothing of its views is left. -/
theorem Node.foldl_addTree (node : Node R K) {leaves : Trees R K} (h : leaves ≠ []) :
    leaves.foldl Node.addTree node =
      { node with children := node.children ++ leaves, views := {} } := by
  induction leaves generalizing node with
  | nil => exact absurd rfl h
  | cons leaf leaves ih =>
    cases leaves with
    | nil => rfl
    | cons next leaves =>
      rw [List.foldl_cons, ih _ (List.cons_ne_nil _ _)]
      simp [Node.addTree]

namespace Parse

open Recovery (StopsAt)
open Cursor (between shows)

variable {channels : Channels} {tokens : List (Token K)} {start : Nat} {first : Token K}

/-- Skipping from a token takes what lies up to the place where recovery stops. -/
theorem skipFrom_stopsAt {p : Parser K} (hend : p.cursor.marker.isEnd = true)
    (hfirst : p.cursor.tokens[start]? = some first) (hshown : shows p.cursor.channels first = true)
    (hnot : first.isEnd = false) (sync : K → RecoveryPoint) :
    ∃ stop, StopsAt sync p.cursor.channels p.cursor.tokens start stop ∧
      (skipFrom start sync : Parse K (Trees R K)) p =
        .ok ((between p.cursor.channels p.cursor.tokens start stop).map (Recovery.leaf sync))
          { p with cursor := { p.cursor with position := stop } } := by
  have hv : (p.cursor.seek start).Valid := Cursor.valid_seek hend start
  have hposition : (p.cursor.seek start).position = start := Cursor.seek_of_shows hfirst hshown
  have hne : (p.cursor.seek start).ahead ≠ [] := by
    intro he
    have := hv.isEnd_of_ahead_eq_nil he (hposition ▸ hfirst)
    rw [hnot] at this
    cases this
  obtain ⟨taken, left, hahead, hleaves, htakes⟩ :=
    Recovery.exists_takes (R := R) sync true (p.cursor.seek start).ahead
  have hsome : taken ≠ [] := by
    rintro rfl
    exact Recovery.leaves_ne_nil sync hne hleaves
  obtain ⟨hbetween, hstops⟩ := htakes.stopsAt hv hahead hsome rfl
  rw [hposition] at hbetween hstops
  refine ⟨_, hstops, ?_⟩
  have hkept : taken.map (Recovery.leaf (R := R) sync) =
      (between p.cursor.channels p.cursor.tokens start
        ((p.cursor.seek start).skip taken.length).position).map (Recovery.leaf sync) :=
    congrArg (List.map _) hbetween.symm
  simp only [skipFrom, hposition, decide_true, hleaves, List.length_map]
  rw [hkept, Cursor.skip_eq (p.cursor.seek start) taken.length]
  rfl

end Parse

/-- **Recovery.** Where a rule began at a token and failed, general prediction takes the tokens from
there up to the place where recovery stops, which is one place only and further on. They become
leaves of the node, in order, and error leaves all but the one that recovery stops after; nothing
else of the parser changes, wherever the rule left it. Optimistic prediction passes the error on,
and changes nothing. -/
theorem recover_stops {tokens : List (Token K)} {channels : Channels} {start : Nat}
    {first : Token K} (hfirst : tokens[start]? = some first)
    (hshown : Cursor.shows channels first = true) (hnot : first.isEnd = false) (place : Nat)
    (report : Report) (scopes : List String) (e : ParseError) (sync : K → RecoveryPoint)
    (node : Node R K) :
    let p : Parser K :=
      { cursor := { Cursor.ofTokens channels tokens with position := place }, report, scopes }
    (report.mode = .general → ∃ stop,
      (∀ other, Recovery.StopsAt sync channels tokens start other ↔ other = stop) ∧
      first ∈ Cursor.between channels tokens start stop ∧
      Parse.recoverInto (α := α) node (.error e) start sync p =
        .ok (.ok none,
            { node with
              children := node.children ++
                (Cursor.between channels tokens start stop).map (Recovery.leaf sync)
              views := {} })
          { p with cursor := { p.cursor with position := stop } }) ∧
      (report.mode = .optimistic →
        Parse.recoverInto (α := α) node (.error e) start sync p = .ok (.error e, node) p) := by
  intro p
  refine ⟨fun hmode => ?_, fun hmode => ?_⟩
  · obtain ⟨stop, hstops, hskip⟩ : ∃ stop, Recovery.StopsAt sync channels tokens start stop ∧
        Parse.skipFrom (R := R) start sync p =
          .ok ((Cursor.between channels tokens start stop).map (Recovery.leaf sync))
            { p with cursor := { p.cursor with position := stop } } :=
      Parse.skipFrom_stopsAt (p := p) (Token.isEnd_endOf tokens) hfirst hshown hnot sync
    have hmem : first ∈ Cursor.between channels tokens start stop :=
      Cursor.mem_between_iff.2 ⟨start, Nat.le_refl _, hstops.advances, hfirst, hshown⟩
    refine ⟨stop, fun other => ⟨hstops.unique, fun h => h ▸ hstops⟩, hmem, ?_⟩
    have hne : (Cursor.between channels tokens start stop).map (Recovery.leaf (R := R) sync) ≠ [] :=
      fun he => List.ne_nil_of_mem hmem (List.map_eq_nil_iff.1 he)
    have hgeneral : ¬p.report.mode = .optimistic := by simp [p, hmode]
    rw [Parse.recoverInto, Parse.bind_apply, Parse.attempt, Parse.recover, if_neg hgeneral, hskip]
    dsimp only
    rw [Node.foldl_addTree node hne]
    rfl
  · rw [Parse.recoverInto, Parse.bind_apply, Parse.attempt, Parse.recover,
      if_pos (show p.report.mode = .optimistic from hmode)]
    rfl

/-- A closer that no block awaits is skipped though statements may begin before one, with what
follows up to the `;` after it; hidden tokens in between are not kept. -/
theorem recover_stops_closer :
    let token (kind : Module.Kind) (index : Nat) : Token Module.Kind :=
      { kind, channels := kind.channels, text := "", position := {}, index, span := {} }
    let closer := token .kwEndIf 0
    let word := token .identifier 2
    let semicolon := token .semicolon 4
    let tokens := [closer, token .whiteSpace 1, word, token .lineComment 3, semicolon,
      token .whiteSpace 5, token .kwEndIf 6]
    let leftBehind : Parser Module.Kind := { cursor := { Cursor.onCode tokens with position := 7 } }
    tokens[0]? = some closer ∧ Cursor.shows .codeOnly closer = true ∧ closer.isEnd = false ∧
      Recovery.StopsAt Module.statementSync .codeOnly tokens 0 6 ∧
      Parse.recoverInto (α := Unit) (Node.ofRule Module.Rule.file) (.error ⟨{}, []⟩) 0
          Module.statementSync leftBehind =
        .ok (.ok none,
          { rule := .file, children := [.error closer, .error word, .token semicolon] })
          { cursor := { Cursor.onCode tokens with position := 6 } } := by
  intro token closer word semicolon tokens leftBehind
  have hfirst : tokens[0]? = some closer := rfl
  have hshown : Cursor.shows .codeOnly closer = true := by decide
  have hnot : closer.isEnd = false := by decide
  have hplace : (Parse.after (Parse.recoverInto (α := Unit) (Node.ofRule Module.Rule.file)
      (.error ⟨{}, []⟩) 0 Module.statementSync) leftBehind).cursor.position = 6 := by decide +kernel
  have htaken : Cursor.between .codeOnly tokens 0 6 = [closer, word, semicolon] := by decide +kernel
  obtain ⟨stop, hstops, -, hrun⟩ := (recover_stops (α := Unit) hfirst hshown hnot 7 {} [] ⟨{}, []⟩
    Module.statementSync (Node.ofRule Module.Rule.file)).1 rfl
  have hstop : stop = 6 :=
    (congrArg (fun q => q.cursor.position) (Parse.after_of_ok hrun)).symm.trans hplace
  subst hstop
  rw [htaken] at hrun
  exact ⟨hfirst, hshown, hnot, (hstops 6).2 rfl, hrun⟩

end BuiltInScript
