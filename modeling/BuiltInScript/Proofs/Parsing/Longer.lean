import BuiltInScript.Proofs.Parsing.Action

/-!
# When more tokens follow

An action that stops before its tokens end has not seen where they end, so it does the same when
more tokens follow. `Carries` says so of two actions at a time, because the actions that bound
their own depth or length by the number of tokens ahead have another bound on the longer list. Both
bounds are told as lengths that the lists must not exceed.

**Results.**
* `Steady.bind`: moving forward and reporting every failure is kept when actions are put together.
* `Carries.bind`, `carries_next_bind`, `carries_eat_bind`: so is what carries over to longer lists;
  an action after a token need carry over from lists shorter by that token only.
* `carries_zero_left`, `carries_zero_right`: where no token is left there is nothing to show.
* `Lasts.map`, `lasts_next_bind`, `lasts_expectOr_bind`: what succeeds without complaint does so on
  longer lists, if it is put together of what does.
-/
namespace BuiltInScript

variable {K α β : Type} [DecidableEq K] [TokenKind K]

/-! ## Moving forward -/

/-- A place further on, where nothing of what was reported is lost. -/
structure Parser.Onward (p q : Parser K) : Prop where
  valid : q.cursor.Valid
  length_le : q.cursor.ahead.length ≤ p.cursor.ahead.length
  reported : p.report.diagnostics <+: q.report.diagnostics

theorem Parser.Onward.refl {p : Parser K} (h : p.cursor.Valid) : Onward p p :=
  ⟨h, Nat.le_refl _, List.prefix_refl _⟩

theorem Parser.Onward.trans {p q r : Parser K} (h : Onward p q) (h' : Onward q r) : Onward p r :=
  ⟨h'.valid, Nat.le_trans h'.length_le h.length_le, h.reported.trans h'.reported⟩

theorem Parser.Onward.advance {p : Parser K} (h : p.cursor.Valid) :
    Onward p { p with cursor := p.cursor.advance } := by
  refine ⟨h.advance, ?_, List.prefix_refl _⟩
  dsimp only
  rw [h.ahead_advance, List.length_tail]
  omega

namespace Parse

open BuiltInScript.Parser (Onward)

/-- An action that moves forward and reports whatever makes it fail. -/
structure Steady (action : Parse K α) : Prop where
  onward : ∀ ⦃p⦄, p.cursor.Valid → Onward p (after action p)
  error : ∀ ⦃p q e⦄, action p = .error e q → q.report.diagnostics ≠ []

namespace Steady

variable {action : Parse K α}

theorem of_ok (h : Steady action) {p q : Parser K} {a : α} (hv : p.cursor.Valid)
    (hr : action p = .ok a q) : Onward p q := after_of_ok hr ▸ h.onward hv

theorem pure (a : α) : Steady (Pure.pure a : Parse K α) :=
  ⟨fun _ hv => .refl hv, fun _ _ _ hr => nomatch hr⟩

theorem bind {next : α → Parse K β} (h : Steady action) (hn : ∀ a, Steady (next a)) :
    Steady (action >>= next) := by
  refine ⟨fun p hv => ?_, fun p r e hr => ?_⟩
  · have hp := h.onward hv
    unfold after at hp ⊢
    rw [bind_apply]
    cases ha : action p with
    | error e q => simpa only [ha] using hp
    | ok a q =>
      rw [ha] at hp
      exact hp.trans ((hn a).onward hp.valid)
  · rw [bind_apply] at hr
    cases ha : action p with
    | error e' q =>
      rw [ha] at hr
      cases hr
      exact h.error ha
    | ok a q =>
      rw [ha] at hr
      exact (hn a).error hr

theorem within {name : String} (h : Steady action) : Steady (within name action) := by
  refine ⟨fun p hv => ?_, fun p r e hr => ?_⟩
  · have hp := h.onward (p := { p with scopes := p.scopes ++ [name] }) hv
    unfold after at hp ⊢
    unfold Parse.within
    cases ha : action { p with scopes := p.scopes ++ [name] } <;> rw [ha] at hp <;>
      exact ⟨hp.valid, hp.length_le, hp.reported⟩
  · obtain ⟨q, ha, rfl⟩ := within_eq_error.1 hr
    exact h.error (q := q) ha

theorem remaining : Steady (Parse.remaining : Parse K Nat) :=
  ⟨fun _ hv => .refl hv, fun _ _ _ hr => nomatch hr⟩

theorem next : Steady (Parse.next : Parse K (Token K)) :=
  ⟨fun _ hv => .advance hv, fun _ _ _ hr => nomatch hr⟩

theorem fail (fault : Fault K) : Steady (fail fault : Parse K α) := by
  refine ⟨fun p hv => ⟨hv, Nat.le_refl _, List.prefix_append _ _⟩, fun p q e hr => ?_⟩
  cases hr
  simp

theorem failHere (fault : Token K → Fault K) : Steady (failHere fault : Parse K α) := by
  refine ⟨fun p hv => ?_, fun p q e hr => ?_⟩
  · exact (fail (α := α) (fault p.cursor.peek)).onward hv
  · exact (fail (α := α) (fault p.cursor.peek)).error hr

theorem eat (kind : K) : Steady (eat kind) := by
  refine ⟨fun p hv => ?_, fun p q e hr => ?_⟩
  · by_cases hk : p.cursor.peek.kind = kind
    · simpa only [after, Parse.eat, hk, if_true] using Onward.advance hv
    · simpa only [after, Parse.eat, hk, if_false] using Onward.refl hv
  · exact absurd hr eat_ne_error

theorem expectOr (kind : K) (fault : Token K → Fault K) : Steady (expectOr kind fault) := by
  refine ⟨fun p hv => ?_, fun p q e hr => ?_⟩
  · by_cases hk : p.cursor.peek.kind = kind
    · simpa only [after, Parse.expectOr, hk, if_true] using Onward.advance hv
    · simpa only [after, Parse.expectOr, hk, if_false] using
        (failHere (α := Token K) fault).onward hv
  · exact (failHere (α := Token K) fault).error (expectOr_eq_error hr).2

end Steady

end Parse

/-! ## Longer lists -/

/-- The same place on a list that goes on with more tokens. -/
structure Parser.Longer (more : List (Token K)) (p p' : Parser K) : Prop where
  valid : p.cursor.Valid
  valid' : p'.cursor.Valid
  ahead : p'.cursor.ahead = p.cursor.ahead ++ more

namespace Parser.Longer

variable {more : List (Token K)} {p p' : Parser K}

theorem length_le (h : Longer more p p') : p.cursor.ahead.length ≤ p'.cursor.ahead.length := by
  rw [h.ahead, List.length_append]
  omega

theorem peek (h : Longer more p p') (hne : p.cursor.ahead ≠ []) :
    p'.cursor.peek = p.cursor.peek := by
  rw [h.valid.peek_eq, h.valid'.peek_eq, h.ahead]
  cases ha : p.cursor.ahead with
  | nil => exact absurd ha hne
  | cons t ts => rfl

theorem advance (h : Longer more p p') (hne : p.cursor.ahead ≠ []) :
    Longer more { p with cursor := p.cursor.advance } { p' with cursor := p'.cursor.advance } := by
  refine ⟨h.valid.advance, h.valid'.advance, ?_⟩
  dsimp only
  rw [h.valid.ahead_advance, h.valid'.ahead_advance, h.ahead, List.tail_append_of_ne_nil hne]

/-- Rules may be opened on both. -/
theorem within (h : Longer more p p') (name : String) :
    Longer more { p with scopes := p.scopes ++ [name] }
      { p' with scopes := p'.scopes ++ [name] } := ⟨h.valid, h.valid', h.ahead⟩

theorem length_advance (h : Longer more p p') {n n' : Nat} (hp : p.cursor.ahead.length ≤ n + 1)
    (hp' : p'.cursor.ahead.length ≤ n' + 1) :
    p.cursor.advance.ahead.length ≤ n ∧ p'.cursor.advance.ahead.length ≤ n' := by
  rw [h.valid.ahead_advance, h.valid'.ahead_advance, List.length_tail, List.length_tail]
  omega

end Parser.Longer

theorem Parser.ahead_ne_nil {p : Parser K} (h : p.cursor.Valid) {kind : K}
    (hk : p.cursor.peek.kind = kind) (hne : kind ≠ TokenKind.endOfInput) :
    p.cursor.ahead ≠ [] :=
  fun ha => hne (hk ▸ h.peek_kind_eq_end_iff.2 ha)

/-- Nothing is ahead after moving forward from where nothing is. -/
theorem Parser.Onward.ahead_ne_nil {p q : Parser K} (h : Onward p q) (hq : q.cursor.ahead ≠ []) :
    p.cursor.ahead ≠ [] := by
  have hlength := h.length_le
  have hpos := List.length_pos_iff.2 hq
  exact List.length_pos_iff.1 (by omega)

namespace Parse

open BuiltInScript.Parser (Longer Onward)

/-- Where the first action succeeds and stops before its tokens end, the other does the same on a
longer list. The lists have at most `n` and `n'` tokens ahead. -/
def Carries (n n' : Nat) (action action' : Parse K α) : Prop :=
  ∀ ⦃more p p' q a⦄, Longer more p p' → p.cursor.ahead.length ≤ n → p'.cursor.ahead.length ≤ n' →
    action p = .ok a q → q.cursor.ahead ≠ [] → ∃ q', action' p' = .ok a q' ∧ Longer more q q'

section
variable {n n' m m' : Nat} {action action' : Parse K α} {next next' : α → Parse K β}

theorem Carries.mono (h : Carries n n' action action') (hm : m ≤ n) (hm' : m' ≤ n') :
    Carries m m' action action' :=
  fun _ _ _ _ _ hl hp hp' => h hl (Nat.le_trans hp hm) (Nat.le_trans hp' hm')

/-- Nothing is ahead, so an action that moves forward stops where its tokens end. -/
theorem carries_zero_left (h : Steady action) : Carries 0 n' action action' := by
  intro more p p' q a hl hp _ hr hq
  exact absurd (List.eq_nil_of_length_eq_zero (Nat.le_zero.1 hp))
    ((h.of_ok hl.valid hr).ahead_ne_nil hq)

theorem carries_zero_right (h : Steady action) : Carries n 0 action action' := by
  intro more p p' q a hl _ hp'
  have hzero : Carries 0 0 action action' := carries_zero_left h
  exact hzero hl (Nat.le_trans hl.length_le hp') hp'

theorem Carries.pure (a : α) : Carries n n' (Pure.pure a : Parse K α) (Pure.pure a) := by
  intro more p p' q b hl _ _ hr _
  cases hr
  exact ⟨p', rfl, hl⟩

/-- What always fails has nothing to carry over. -/
theorem carries_fail (fault : Fault K) : Carries n n' (fail fault : Parse K α) action' :=
  fun _ _ _ _ _ _ _ _ hr => nomatch hr

theorem Carries.bind (h : Carries n n' action action') (hs : Steady action)
    (hn : ∀ a, Carries n n' (next a) (next' a)) (hns : ∀ a, Steady (next a)) :
    Carries n n' (action >>= next) (action' >>= next') := by
  intro more p p' r b hl hp hp' hr hne
  obtain ⟨a, q, ha, hb⟩ := bind_eq_ok.1 hr
  have hpq := hs.of_ok hl.valid ha
  have hlength := hpq.length_le
  have hqr := (hns a).of_ok hpq.valid hb
  obtain ⟨q', ha', hl'⟩ := h hl hp hp' ha (hqr.ahead_ne_nil hne)
  have hbound : q'.cursor.ahead.length ≤ n' := by
    rw [hl.ahead, List.length_append] at hp'
    rw [hl'.ahead, List.length_append]
    omega
  obtain ⟨r', hb', hlr⟩ := hn a hl' (by omega) hbound hb hne
  exact ⟨r', bind_eq_ok.2 ⟨a, q', ha', hb'⟩, hlr⟩

theorem carries_expectOr (kind : K) (fault : Token K → Fault K) :
    Carries n n' (expectOr kind fault) (expectOr kind fault) := by
  intro more p p' q t hl _ _ hr hne
  have hahead := ((Steady.expectOr kind fault).of_ok hl.valid hr).ahead_ne_nil hne
  obtain ⟨hk, rfl, rfl⟩ := expectOr_eq_ok.1 hr
  rw [← hl.peek hahead] at hk ⊢
  exact ⟨_, expectOr_eq_ok.2 ⟨hk, rfl, rfl⟩, hl.advance hahead⟩

/-- The number of tokens ahead bounds the lists that are read with it. -/
theorem carries_remaining_bind {next next' : Nat → Parse K β}
    (h : ∀ m m', m ≤ n → m' ≤ n' → Carries m m' (next m) (next' m')) :
    Carries n n' (remaining >>= next) (remaining >>= next') := by
  intro more p p' r b hl hp hp' hr hne
  exact h _ _ hp hp' hl (Nat.le_refl _) (Nat.le_refl _) hr hne

/-- What follows a token need carry over from shorter lists only. -/
theorem carries_next_bind {next next' : Token K → Parse K β}
    (h : ∀ t : Token K, t.kind ≠ TokenKind.endOfInput → Carries n n' (next t) (next' t))
    (hs : Steady (Parse.next >>= next)) :
    Carries (n + 1) (n' + 1) (Parse.next >>= next) (Parse.next >>= next') := by
  intro more p p' r b hl hp hp' hr hne
  have hne' := (hs.of_ok hl.valid hr).ahead_ne_nil hne
  obtain ⟨hlength, hlength'⟩ := hl.length_advance hp hp'
  have hkind : p.cursor.peek.kind ≠ TokenKind.endOfInput :=
    fun hk => hne' (hl.valid.peek_kind_eq_end_iff.1 hk)
  obtain ⟨r', hr', hlr⟩ := h _ hkind (hl.advance hne') hlength hlength' hr hne
  rw [← hl.peek hne'] at hr'
  exact ⟨r', hr', hlr⟩

theorem carries_eat_bind {kind : K} {next next' : Option (Token K) → Parse K β}
    (hsome : ∀ t, Carries n n' (next (some t)) (next' (some t)))
    (hnone : Carries (n + 1) (n' + 1) (next none) (next' none))
    (hs : Steady (eat kind >>= next)) :
    Carries (n + 1) (n' + 1) (eat kind >>= next) (eat kind >>= next') := by
  intro more p p' r b hl hp hp' hr hne
  have hne' := (hs.of_ok hl.valid hr).ahead_ne_nil hne
  obtain ⟨hlength, hlength'⟩ := hl.length_advance hp hp'
  rw [bind_apply, eat] at hr ⊢
  rw [hl.peek hne']
  by_cases hk : p.cursor.peek.kind = kind
  · simp only [hk, if_true] at hr ⊢
    exact hsome _ (hl.advance hne') hlength hlength' hr hne
  · simp only [hk, if_false] at hr ⊢
    exact hnone hl hp hp' hr hne

end

/-! ## Without complaint -/

/-- What succeeds without complaint succeeds with the same result on a longer list. Nothing is said
of where it ends there, since it may pass all tokens. -/
def Lasts (action : Parse K α) : Prop :=
  ∀ ⦃more p p' q a⦄, Longer more p p' → action p = .ok a q → q.report.diagnostics = [] →
    ∃ q', action p' = .ok a q'

theorem Lasts.pure (a : α) : Lasts (Pure.pure a : Parse K α) := by
  intro more p p' q b _ hr _
  cases hr
  exact ⟨p', rfl⟩

theorem lasts_fail (fault : Fault K) : Lasts (fail fault : Parse K α) := by
  intro more p p' q a _ hr
  cases hr

theorem Lasts.map {action : Parse K α} (h : Lasts action) (f : α → β) :
    Lasts (action >>= fun a => Pure.pure (f a)) := by
  intro more p p' r b hl hr hq
  obtain ⟨a, q, ha, hr⟩ := bind_eq_ok.1 hr
  cases hr
  obtain ⟨q', ha'⟩ := h hl ha hq
  exact ⟨q', bind_eq_ok.2 ⟨a, q', ha', rfl⟩⟩

theorem Lasts.within {name : String} {action : Parse K α} (h : Lasts action) :
    Lasts (within name action) := by
  intro more p p' r a hl hr hq
  obtain ⟨q, ha, rfl⟩ := within_eq_ok.1 hr
  obtain ⟨q', ha'⟩ := h (hl.within name) ha hq
  exact ⟨_, within_eq_ok.2 ⟨q', ha', rfl⟩⟩

/-- A token that is taken is the same one on a longer list, unless it is the end marker. -/
theorem lasts_next_bind {next : Token K → Parse K α}
    (h : ∀ t : Token K, t.kind ≠ TokenKind.endOfInput → Lasts (next t))
    (hend : ∀ (t : Token K) (p q : Parser K) (a : α), t.kind = TokenKind.endOfInput →
      next t p ≠ .ok a q) :
    Lasts (Parse.next >>= next) := by
  intro more p p' r a hl hr hq
  have hkind : p.cursor.peek.kind ≠ TokenKind.endOfInput := fun hk => hend _ _ _ _ hk hr
  have hahead := Parser.ahead_ne_nil hl.valid rfl hkind
  obtain ⟨r', hr'⟩ := h _ hkind (hl.advance hahead) hr hq
  rw [← hl.peek hahead] at hr'
  exact ⟨r', hr'⟩

theorem lasts_expectOr_bind {kind : K} (hkind : kind ≠ TokenKind.endOfInput)
    (fault : Token K → Fault K) {next : Token K → Parse K α} (h : ∀ t, Lasts (next t)) :
    Lasts (expectOr kind fault >>= next) := by
  intro more p p' r a hl hr hq
  obtain ⟨t, q, ht, hr⟩ := bind_eq_ok.1 hr
  obtain ⟨hk, rfl, rfl⟩ := expectOr_eq_ok.1 ht
  have hahead := Parser.ahead_ne_nil hl.valid hk hkind
  obtain ⟨r', hr'⟩ := h _ (hl.advance hahead) hr hq
  rw [← hl.peek hahead] at hr' hk
  exact ⟨r', bind_eq_ok.2 ⟨_, _, expectOr_eq_ok.2 ⟨hk, rfl, rfl⟩, hr'⟩⟩

end Parse
end BuiltInScript
