import BuiltInScript.Proofs.Compilation.Selection
import Mathlib.Data.List.Nodup
import Mathlib.Data.List.Pairwise

/-!
# Matching of regions

Directives that begin and end regions match like brackets. Each `#КонецОбласти` is told its
`#Область` by what stands before it alone: the nearest one that is not paired there yet. Pairs that
come from this rule nest, however the directives follow each other.

**Results.**
* `piecesFrom_sequential`: the directives of a module stand one after another.
* `Matching.start`, `Matching.stop`: what the next directive does to the pairs.
* `Matching.nests`: of two pairs one ends before the other begins, or lies within it.
-/
namespace BuiltInScript.Compilation

open BuiltInScript.Module

/-! ## Directives one after another -/

/-- Where a directive stands. -/
def Event.range? : Event → Option TokenRange
  | .directive _ _ _ range => some range
  | .other _ => none

/-- Ends before another range begins. -/
def TokenRange.Before (a b : TokenRange) : Prop := a.next ≤ b.first

/-- Directives of at least one token that follow each other. -/
structure Sequential (events : List Event) : Prop where
  nonempty : ∀ event ∈ events, ∀ range ∈ event.range?, range.first < range.next
  ordered : events.Pairwise fun a b =>
    ∀ range ∈ a.range?, ∀ range' ∈ b.range?, range.Before range'

theorem Sequential.left {events more : List Event} (h : Sequential (events ++ more)) :
    Sequential events where
  nonempty event he := h.nonempty event (List.mem_append_left more he)
  ordered := (List.pairwise_append.1 h.ordered).1

/-- A directive after others, which do not reach to where the later ones begin. -/
theorem Sequential.cons {events : List Event} {event : Event} {range : TokenRange}
    (hrange : event.range? = some range) (hnonempty : range.first < range.next)
    (hafter : ∀ other ∈ events, ∀ range' ∈ other.range?, range.next ≤ range'.first)
    (h : Sequential events) : Sequential (event :: events) where
  nonempty := List.forall_mem_cons.2
    ⟨fun _ hfound => Option.some.inj (hrange.symm.trans hfound) ▸ hnonempty, h.nonempty⟩
  ordered := List.pairwise_cons.2
    ⟨fun other ho _ hfound range' hrange' =>
      Option.some.inj (hrange.symm.trans hfound) ▸ hafter other ho range' hrange', h.ordered⟩

theorem Sequential.cons_other {events : List Event} (t : Token Kind) (h : Sequential events) :
    Sequential (.other t :: events) where
  nonempty := List.forall_mem_cons.2 ⟨nofun, h.nonempty⟩
  ordered := List.pairwise_cons.2 ⟨fun _ _ => nofun, h.ordered⟩

/-- One of two directives stands before the other. -/
def Event.Apart (a b : Event) : Prop :=
  ∀ range ∈ a.range?, ∀ range' ∈ b.range?, range.Before range' ∨ range'.Before range

instance : Std.Symm Event.Apart :=
  ⟨fun _ _ h range hrange range' hrange' => (h range' hrange' range hrange).symm⟩

theorem Sequential.apart {events : List Event} (h : Sequential events) {a b : Event}
    (ha : a ∈ events) (hb : b ∈ events) (hne : a ≠ b) : a.Apart b := by
  have hapart : events.Pairwise Event.Apart :=
    h.ordered.imp fun hbefore range hrange range' hrange' =>
      .inl (hbefore range hrange range' hrange')
  exact hapart.forall ha hb hne

/-- The directives of a module stand one after another, from a place on. -/
theorem piecesFrom_sequential (position : Nat) (tokens : List (Token Kind)) :
    Sequential ((piecesFrom position tokens).map Piece.event) ∧
      ∀ event ∈ (piecesFrom position tokens).map Piece.event, ∀ range ∈ event.range?,
        position ≤ range.first := by
  fun_induction piecesFrom position tokens with
  | case1 position => exact ⟨⟨List.forall_mem_nil _, List.Pairwise.nil⟩, List.forall_mem_nil _⟩
  | case2 position t ts directive hmarker ih =>
    obtain ⟨hrest, hfrom⟩ := ih
    refine ⟨.cons rfl (Nat.lt_succ_self _) hfrom hrest, List.forall_mem_cons.2 ⟨?_, ?_⟩⟩
    · exact fun range hrange => Option.some.inj hrange ▸ Nat.le_refl _
    · exact fun event he range hrange => Nat.le_of_succ_le (hfrom event he range hrange)
  | case3 position t ts hmarker hend =>
    exact ⟨⟨List.forall_mem_nil _, List.Pairwise.nil⟩, List.forall_mem_nil _⟩
  | case4 position t ts hmarker hend hhash line n hline ih =>
    obtain ⟨hrest, hfrom⟩ := ih
    refine ⟨.cons rfl (by dsimp only; omega) hfrom hrest, List.forall_mem_cons.2 ⟨?_, ?_⟩⟩
    · exact fun range hrange => Option.some.inj hrange ▸ Nat.le_refl _
    · intro event he range hrange
      have := hfrom event he range hrange
      omega
  | case5 position t ts hmarker hend hhash ih =>
    obtain ⟨hrest, hfrom⟩ := ih
    refine ⟨hrest.cons_other t, List.forall_mem_cons.2 ⟨?_, ?_⟩⟩
    · exact fun range hrange => absurd hrange (Option.not_mem_none range)
    · exact fun event he range hrange => Nat.le_of_succ_le (hfrom event he range hrange)

/-! ## Beginnings and ends of regions -/

/-- A `#Область` that can be read. -/
structure RegionStart where
  name : String
  span : Span
  range : TokenRange
deriving DecidableEq

/-- A `#КонецОбласти`. -/
structure RegionEnd where
  span : Span
  range : TokenRange
deriving DecidableEq

def Event.regionStart? : Event → Option RegionStart
  | .directive _ (some (.region name)) span range => some ⟨name, span, range⟩
  | _ => none

def Event.regionEnd? : Event → Option RegionEnd
  | .directive _ (some .endRegion) span range => some ⟨span, range⟩
  | _ => none

def regionStarts (events : List Event) : List RegionStart := events.filterMap Event.regionStart?

def regionEnds (events : List Event) : List RegionEnd := events.filterMap Event.regionEnd?

theorem regionStarts_append (events more : List Event) :
    regionStarts (events ++ more) = regionStarts events ++ regionStarts more :=
  List.filterMap_append

theorem regionEnds_append (events more : List Event) :
    regionEnds (events ++ more) = regionEnds events ++ regionEnds more :=
  List.filterMap_append

section
variable {event : Event} {o : RegionStart} {c : RegionEnd}

theorem Event.range_regionStart (h : event.regionStart? = some o) :
    event.range? = some o.range := by
  unfold regionStart? at h
  split at h <;> cases h
  rfl

theorem Event.range_regionEnd (h : event.regionEnd? = some c) : event.range? = some c.range := by
  unfold regionEnd? at h
  split at h <;> cases h
  rfl

/-- No directive is both. -/
theorem Event.regionEnd_of_regionStart (h : event.regionStart? = some o) :
    event.regionEnd? = none := by
  unfold regionStart? at h
  split at h <;> cases h
  rfl

end

namespace Sequential

variable {events : List Event} {o : RegionStart} {c : RegionEnd}

theorem start_nonempty (h : Sequential events) (ho : o ∈ regionStarts events) :
    o.range.first < o.range.next := by
  obtain ⟨event, he, hstart⟩ := List.mem_filterMap.1 ho
  exact h.nonempty event he _ (Event.range_regionStart hstart)

theorem end_nonempty (h : Sequential events) (hc : c ∈ regionEnds events) :
    c.range.first < c.range.next := by
  obtain ⟨event, he, hend⟩ := List.mem_filterMap.1 hc
  exact h.nonempty event he _ (Event.range_regionEnd hend)

theorem starts_ordered (h : Sequential events) :
    (regionStarts events).Pairwise fun a b => a.range.Before b.range := by
  refine List.pairwise_filterMap.2 (h.ordered.imp fun hbefore o ho o' ho' => ?_)
  exact hbefore _ (Event.range_regionStart ho) _ (Event.range_regionStart ho')

theorem starts_nodup (h : Sequential events) : (regionStarts events).Nodup := by
  refine h.starts_ordered.imp_of_mem fun {a b} ha hb hbefore heq => ?_
  have := h.start_nonempty ha
  have : a.range.next ≤ b.range.first := hbefore
  rw [← heq] at this
  omega

theorem ends_nodup (h : Sequential events) : (regionEnds events).Nodup := by
  refine (List.pairwise_filterMap.2 (h.ordered.imp fun hbefore c hc c' hc' => ?_)).imp_of_mem
    (R := fun a b => a.range.Before b.range) fun {a b} ha hb hbefore heq => ?_
  · exact hbefore _ (Event.range_regionEnd hc) _ (Event.range_regionEnd hc')
  have := h.end_nonempty ha
  have : a.range.next ≤ b.range.first := hbefore
  rw [← heq] at this
  omega

theorem starts_apart (h : Sequential events) {o' : RegionStart} (ho : o ∈ regionStarts events)
    (ho' : o' ∈ regionStarts events) (hne : o ≠ o') :
    o.range.Before o'.range ∨ o'.range.Before o.range := by
  obtain ⟨a, ha, hstart⟩ := List.mem_filterMap.1 ho
  obtain ⟨b, hb, hstart'⟩ := List.mem_filterMap.1 ho'
  have hab : a ≠ b := by
    rintro rfl
    exact hne (Option.some.inj (hstart.symm.trans hstart'))
  exact h.apart ha hb hab _ (Event.range_regionStart hstart) _ (Event.range_regionStart hstart')

/-- A beginning and an end are different directives, so one stands before the other. -/
theorem before_or_after (h : Sequential events) (ho : o ∈ regionStarts events)
    (hc : c ∈ regionEnds events) : o.range.Before c.range ∨ c.range.Before o.range := by
  obtain ⟨a, ha, hstart⟩ := List.mem_filterMap.1 ho
  obtain ⟨b, hb, hend⟩ := List.mem_filterMap.1 hc
  have hab : a ≠ b := by
    rintro rfl
    rw [Event.regionEnd_of_regionStart hstart] at hend
    cases hend
  exact h.apart ha hb hab _ (Event.range_regionStart hstart) _ (Event.range_regionEnd hend)

/-- The last directive stands after all others. -/
theorem before_last {event : Event} (h : Sequential (events ++ [event])) {range : TokenRange}
    (hrange : event.range? = some range) :
    (∀ o ∈ regionStarts events, o.range.Before range) ∧
      ∀ c ∈ regionEnds events, c.range.Before range := by
  obtain ⟨-, -, hlast⟩ := List.pairwise_append.1 h.ordered
  refine ⟨fun o ho => ?_, fun c hc => ?_⟩
  · obtain ⟨other, he, hstart⟩ := List.mem_filterMap.1 ho
    exact hlast other he event (List.mem_singleton_self _) _ (Event.range_regionStart hstart) _
      hrange
  · obtain ⟨other, he, hend⟩ := List.mem_filterMap.1 hc
    exact hlast other he event (List.mem_singleton_self _) _ (Event.range_regionEnd hend) _ hrange

end Sequential

/-! ## Pairs -/

/-- A `#Область` and the `#КонецОбласти` that ends its region. -/
abbrev RegionPair := RegionStart × RegionEnd

/-- It has its `#КонецОбласти` before a place. -/
def PairedBefore (pairs : List RegionPair) (place : Nat) (o : RegionStart) : Prop :=
  ∃ c, (o, c) ∈ pairs ∧ c.range.next ≤ place

/-- The nearest `#Область` before a place that is not paired there yet. -/
structure Nearest (starts : List RegionStart) (pairs : List RegionPair) (place : Nat)
    (o : RegionStart) : Prop where
  mem : o ∈ starts
  before : o.range.next ≤ place
  free : ¬PairedBefore pairs place o
  nearest : ∀ other ∈ starts, other.range.next ≤ place → ¬PairedBefore pairs place other →
    other.range.first ≤ o.range.first

/-- Pairs as brackets make them, in the order in which they end: each end has the nearest beginning
before it that is not paired there yet, if there is one. -/
structure Matching (starts : List RegionStart) (ends : List RegionEnd)
    (pairs : List RegionPair) : Prop where
  ends_mem : ∀ pair ∈ pairs, pair.2 ∈ ends
  paired_iff : ∀ c ∈ ends, ∀ o, (o, c) ∈ pairs ↔ Nearest starts pairs c.range.first o
  ordered : pairs.Pairwise fun p q => p.2.range.Before q.2.range
  once : (pairs.map Prod.fst).Nodup

/-- The beginnings or ends that are on that side of no pair. -/
def unpaired {α : Type} [DecidableEq α] (side : RegionPair → α) (all : List α)
    (pairs : List RegionPair) : List α :=
  all.filter fun a => a ∉ pairs.map side

section
variable {α : Type} [DecidableEq α] {starts inner : List RegionStart} {ends : List RegionEnd}
  {pairs : List RegionPair} {o : RegionStart} {c : RegionEnd}

theorem unpaired_concat {side : RegionPair → α} {all : List α} {a : α} (h : a ∉ pairs.map side) :
    unpaired side (all ++ [a]) pairs = unpaired side all pairs ++ [a] := by
  have hself : [a].filter (fun a => a ∉ pairs.map side) = [a] :=
    List.filter_cons_of_pos (by simpa using h)
  rw [unpaired, List.filter_append, hself]
  rfl

/-- Of the beginnings or ends none is lost, and none is there twice. -/
theorem perm_unpaired {side : RegionPair → α} {all : List α} (hall : all.Nodup)
    (honce : (pairs.map side).Nodup) (hpairs : ∀ pair ∈ pairs, side pair ∈ all) :
    (pairs.map side ++ unpaired side all pairs).Perm all := by
  have hsome : ∀ a ∈ pairs.map side, a ∈ all := List.forall_mem_map.2 hpairs
  have hnodup : (pairs.map side ++ unpaired side all pairs).Nodup := by
    refine List.nodup_append.2 ⟨honce, hall.filter _, fun a ha b hb heq => ?_⟩
    exact of_decide_eq_true (List.mem_filter.1 hb).2 (heq ▸ ha)
  refine (List.perm_ext_iff_of_nodup hnodup hall).2 fun a => ?_
  rw [List.mem_append, unpaired, List.mem_filter]
  by_cases ha : a ∈ pairs.map side
  · simp only [ha, hsome a ha, true_or]
  · simp only [ha, false_or, not_false_eq_true, decide_true, and_true]

/-- The last beginning without an end has one now. -/
theorem unpaired_fst_pair (h : unpaired Prod.fst starts pairs = inner ++ [o]) (ho : o ∉ inner) :
    unpaired Prod.fst starts (pairs ++ [(o, c)]) = inner := by
  have hfilter : unpaired Prod.fst starts (pairs ++ [(o, c)]) =
      (unpaired Prod.fst starts pairs).filter fun other => other ≠ o := by
    rw [unpaired, unpaired, List.filter_filter]
    refine List.filter_congr fun other _ => ?_
    by_cases heq : other = o <;> simp [heq]
  rw [hfilter, h, List.filter_append, List.filter_eq_self.2, List.filter_eq_nil_iff.2,
    List.append_nil]
  · simp
  · exact fun other hin => decide_eq_true fun heq => ho (heq ▸ hin)

/-- A new end that is paired changes nothing for the others. -/
theorem unpaired_snd_pair (h : c ∉ ends) :
    unpaired Prod.snd (ends ++ [c]) (pairs ++ [(o, c)]) = unpaired Prod.snd ends pairs := by
  rw [unpaired, List.filter_append, List.filter_cons_of_neg (by simp), List.filter_nil,
    List.append_nil]
  refine List.filter_congr fun other ho => ?_
  have hne : other ≠ c := fun heq => h (heq ▸ ho)
  simp [hne]

end

theorem pairedBefore_append {pairs more : List RegionPair} {place : Nat} {o : RegionStart}
    (h : ∀ pair ∈ more, place < pair.2.range.next) :
    PairedBefore (pairs ++ more) place o ↔ PairedBefore pairs place o := by
  refine ⟨fun ⟨c, hc, hle⟩ => ?_, fun ⟨c, hc, hle⟩ => ⟨c, List.mem_append_left more hc, hle⟩⟩
  rcases List.mem_append.1 hc with hc | hc
  · exact ⟨c, hc, hle⟩
  · exact absurd (h _ hc) (Nat.not_lt.2 hle)

/-- Later pairs change nothing. -/
theorem nearest_append {starts : List RegionStart} {pairs more : List RegionPair} {place : Nat}
    {o : RegionStart} (h : ∀ pair ∈ more, place < pair.2.range.next) :
    Nearest starts (pairs ++ more) place o ↔ Nearest starts pairs place o := by
  have hfree (o : RegionStart) :
      ¬PairedBefore (pairs ++ more) place o ↔ ¬PairedBefore pairs place o :=
    (pairedBefore_append h).not
  constructor
  · rintro ⟨hmem, hbefore, hnot, hnearest⟩
    exact ⟨hmem, hbefore, (hfree o).1 hnot,
      fun other ho hle hother => hnearest other ho hle ((hfree other).2 hother)⟩
  · rintro ⟨hmem, hbefore, hnot, hnearest⟩
    exact ⟨hmem, hbefore, (hfree o).2 hnot,
      fun other ho hle hother => hnearest other ho hle ((hfree other).1 hother)⟩

namespace Matching

variable {starts : List RegionStart} {ends : List RegionEnd} {pairs : List RegionPair}
  {o : RegionStart} {c : RegionEnd}

theorem empty : Matching [] [] [] where
  ends_mem := List.forall_mem_nil _
  paired_iff := List.forall_mem_nil _
  ordered := List.Pairwise.nil
  once := List.nodup_nil

theorem nearest (h : Matching starts ends pairs) {pair : RegionPair} (hp : pair ∈ pairs) :
    Nearest starts pairs pair.2.range.first pair.1 :=
  (h.paired_iff pair.2 (h.ends_mem pair hp) pair.1).1 hp

/-- No beginning has two ends. -/
theorem end_unique (h : Matching starts ends pairs) {c' : RegionEnd} (hc : (o, c) ∈ pairs)
    (hc' : (o, c') ∈ pairs) : c = c' :=
  congrArg Prod.snd (List.inj_on_of_nodup_map h.once hc hc' rfl)

/-- A `#Область` after everything else. -/
theorem start (h : Matching starts ends pairs) (hnonempty : o.range.first < o.range.next)
    (hlast : ∀ c ∈ ends, c.range.first < c.range.next ∧ c.range.Before o.range) :
    Matching (starts ++ [o]) ends pairs where
  ends_mem := h.ends_mem
  paired_iff c hc other := by
    obtain ⟨hc₁, hc₂⟩ := hlast c hc
    have hout : ¬o.range.next ≤ c.range.first := by
      have := Nat.le_trans (Nat.le_of_lt hc₁) hc₂
      omega
    rw [h.paired_iff c hc]
    constructor
    · rintro ⟨hmem, hbefore, hfree, hnearest⟩
      refine ⟨List.mem_append_left _ hmem, hbefore, hfree, List.forall_mem_append.2 ⟨hnearest, ?_⟩⟩
      exact List.forall_mem_singleton.2 fun hle => absurd hle hout
    · rintro ⟨hmem, hbefore, hfree, hnearest⟩
      refine ⟨(List.mem_append.1 hmem).resolve_right fun hm => ?_, hbefore, hfree,
        (List.forall_mem_append.1 hnearest).1⟩
      exact hout (List.mem_singleton.1 hm ▸ hbefore)
  ordered := h.ordered
  once := h.once

/-- Where all pairs have ended, what is paired is paired there. -/
theorem pairedBefore_iff {place : Nat} (hpairs : ∀ pair ∈ pairs, pair.2.range.next ≤ place) :
    PairedBefore pairs place o ↔ o ∈ pairs.map Prod.fst := by
  rw [List.mem_map]
  exact ⟨fun ⟨c, hc, _⟩ => ⟨(o, c), hc, rfl⟩, fun ⟨⟨_, c⟩, hc, heq⟩ => ⟨c, heq ▸ hc, hpairs _ hc⟩⟩

/-- The nearest beginning is the last one without an end. -/
theorem nearest_iff {place : Nat}
    (hordered : starts.Pairwise fun a b => a.range.Before b.range)
    (hstarts : ∀ o ∈ starts, o.range.first < o.range.next ∧ o.range.next ≤ place)
    (hpairs : ∀ pair ∈ pairs, pair.2.range.next ≤ place) :
    Nearest starts pairs place o ↔ (unpaired Prod.fst starts pairs).getLast? = some o := by
  have hfree (o : RegionStart) :
      o ∈ unpaired Prod.fst starts pairs ↔ o ∈ starts ∧ ¬PairedBefore pairs place o := by
    simp [unpaired, pairedBefore_iff hpairs]
  have hsorted : (unpaired Prod.fst starts pairs).Pairwise fun a b => a.range.Before b.range :=
    hordered.filter _
  rcases List.eq_nil_or_concat' (unpaired Prod.fst starts pairs) with hnil | ⟨inner, last, hlast⟩
  · rw [hnil]
    refine ⟨fun h => ?_, nofun⟩
    have := (hfree o).2 ⟨h.mem, h.free⟩
    rw [hnil] at this
    cases this
  · rw [hlast] at hfree hsorted ⊢
    obtain ⟨-, -, hinner⟩ := List.pairwise_append.1 hsorted
    rw [List.getLast?_concat, Option.some_inj]
    constructor
    · intro h
      obtain ⟨hmem, hnot⟩ := (hfree last).1 (List.mem_append_right _ (List.mem_singleton_self _))
      have hle := h.nearest last hmem (hstarts last hmem).2 hnot
      rcases List.mem_append.1 ((hfree o).2 ⟨h.mem, h.free⟩) with ho | ho
      · have hbefore : o.range.next ≤ last.range.first :=
          hinner o ho last (List.mem_singleton_self _)
        have := (hstarts o h.mem).1
        omega
      · exact (List.mem_singleton.1 ho).symm
    · rintro rfl
      obtain ⟨hmem, hnot⟩ := (hfree last).1 (List.mem_append_right _ (List.mem_singleton_self _))
      refine ⟨hmem, (hstarts last hmem).2, hnot, fun other ho _ hother => ?_⟩
      rcases List.mem_append.1 ((hfree other).2 ⟨ho, hother⟩) with hin | hin
      · have hbefore : other.range.next ≤ last.range.first :=
          hinner other hin last (List.mem_singleton_self _)
        have := (hstarts other ho).1
        omega
      · exact Nat.le_of_eq (congrArg (·.range.first) (List.mem_singleton.1 hin))

/-- A `#КонецОбласти` after everything else is paired with the last `#Область` without an end. -/
theorem stop (h : Matching starts ends pairs)
    (hordered : starts.Pairwise fun a b => a.range.Before b.range)
    (hstarts : ∀ o ∈ starts, o.range.first < o.range.next ∧ o.range.Before c.range)
    (hends : ∀ c' ∈ ends, c'.range.first < c'.range.next ∧ c'.range.Before c.range)
    (hc : c.range.first < c.range.next) :
    Matching starts (ends ++ [c])
      (pairs ++ (unpaired Prod.fst starts pairs).getLast?.toList.map fun o => (o, c)) := by
  have hpairs : ∀ pair ∈ pairs, pair.2.range.Before c.range :=
    fun pair hp => (hends _ (h.ends_mem pair hp)).2
  have hnearest (o : RegionStart) := nearest_iff (o := o) hordered hstarts hpairs
  generalize (unpaired Prod.fst starts pairs).getLast? = found at hnearest
  have hmore : ∀ pair ∈ found.toList.map fun o => (o, c), pair.2 = c :=
    List.forall_mem_map.2 fun _ _ => rfl
  have hnew : c ∉ ends := fun hm => by
    have : c.range.next ≤ c.range.first := (hends c hm).2
    omega
  refine ⟨List.forall_mem_append.2 ⟨fun pair hp => List.mem_append_left _ (h.ends_mem pair hp), ?_⟩,
    List.forall_mem_append.2 ⟨fun c' hc' o => ?_, List.forall_mem_singleton.2 fun o => ?_⟩, ?_, ?_⟩
  · exact fun pair hp => hmore pair hp ▸ List.mem_append_right _ (List.mem_singleton_self _)
  · -- An earlier end is paired before the new one comes.
    obtain ⟨hfirst, hbefore⟩ := hends c' hc'
    have hlater : ∀ pair ∈ found.toList.map fun o => (o, c),
        c'.range.first < pair.2.range.next := by
      intro pair hp
      rw [hmore pair hp]
      have := Nat.lt_of_lt_of_le hfirst hbefore
      omega
    rw [nearest_append hlater, ← h.paired_iff c' hc', List.mem_append]
    exact or_iff_left fun hp => hnew (hmore _ hp ▸ hc')
  · have hlater : ∀ pair ∈ found.toList.map fun o => (o, c), c.range.first < pair.2.range.next :=
      fun pair hp => hmore pair hp ▸ hc
    rw [nearest_append hlater, hnearest, List.mem_append,
      or_iff_right fun hp => hnew (h.ends_mem _ hp)]
    simp
  · refine List.pairwise_append.2 ⟨h.ordered, ?_, fun p hp q hq => hmore q hq ▸ hpairs p hp⟩
    cases found <;> simp
  · cases hfound : found with
    | none => simpa using h.once
    | some o =>
      have hfree := ((hnearest o).2 hfound).free
      rw [pairedBefore_iff hpairs] at hfree
      rw [List.map_append]
      refine List.nodup_append.2 ⟨h.once, List.nodup_singleton _, fun other hother o' ho' heq => ?_⟩
      have ho : o' = o := List.mem_singleton.1 ho'
      exact hfree (ho ▸ heq ▸ hother)

/-- No two pairs end in one place. -/
theorem increases {events : List Event} (hevents : Sequential events)
    (h : Matching starts (regionEnds events) pairs) :
    pairs.Pairwise fun p q => p.2.range.next < q.2.range.next :=
  h.ordered.imp_of_mem fun _ hq hbefore =>
    Nat.lt_of_le_of_lt hbefore (hevents.end_nonempty (h.ends_mem _ hq))

/-- **Nesting.** Of two pairs the one that ends first ends before the other begins, or lies within
it. -/
theorem nests {events : List Event} (hevents : Sequential events)
    (h : Matching (regionStarts events) (regionEnds events) pairs) :
    pairs.Pairwise fun p q => p.2.range.Before q.1.range ∨
      q.1.range.first < p.1.range.first ∧ p.2.range.next < q.2.range.next := by
  refine ((h.increases hevents).and (List.pairwise_map.1 h.once)).imp_of_mem
    fun {p q} hp hq hpq => ?_
  obtain ⟨hends, hne⟩ := hpq
  have hp' := h.nearest hp
  have hq' := h.nearest hq
  refine (hevents.before_or_after hq'.mem (h.ends_mem p hp)).symm.imp_right fun hinner =>
    ⟨?_, hends⟩
  -- Where the first pair ends, the other beginning has no end yet.
  have hfree : ¬PairedBefore pairs p.2.range.first q.1 := by
    rintro ⟨c, hc, hle⟩
    rw [← h.end_unique hq hc] at hle
    have := hevents.end_nonempty (h.ends_mem p hp)
    omega
  have hle := hp'.nearest q.1 hq'.mem hinner hfree
  have hp_nonempty := hevents.start_nonempty hp'.mem
  have hq_nonempty := hevents.start_nonempty hq'.mem
  have hapart := hevents.starts_apart hp'.mem hq'.mem hne
  unfold TokenRange.Before at hapart
  omega

end Matching
end BuiltInScript.Compilation
