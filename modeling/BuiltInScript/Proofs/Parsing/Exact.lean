import BuiltInScript.Proofs.Parsing.Action

/-!
# What an action accepts

An action that reads a phrase of a grammar is described from both sides. `Takes` says that it reads
the phrase wherever the phrase is ahead, provided that what follows does not continue it. `Finds`
says that whatever the action reads is such a phrase, and that it fails with one error and no more.

**Results.**
* `Takes.bind`, `Takes.remaining_bind`, `Takes.within`: phrases one after another are read by
  actions one after another; a bound by the number of tokens ahead is a bound by the phrase.
* `Finds.bind`, `Finds.next_bind`, `Finds.eat_bind`, `Finds.within`: what is found is put together
  in the same way, and a failure of any action is the only report of them all.
-/
namespace BuiltInScript

variable {K α β : Type} [DecidableEq K] [TokenKind K]

namespace Parser

/-- The parser when some tokens have been passed. -/
def skip (p : Parser K) (n : Nat) : Parser K := { p with cursor := p.cursor.skip n }

@[simp] theorem report_skip (p : Parser K) (n : Nat) : (p.skip n).report = p.report := rfl

@[simp] theorem scopes_skip (p : Parser K) (n : Nat) : (p.skip n).scopes = p.scopes := rfl

@[simp] theorem cursor_skip (p : Parser K) (n : Nat) : (p.skip n).cursor = p.cursor.skip n := rfl

theorem skip_skip (p : Parser K) (m n : Nat) : (p.skip m).skip n = p.skip (m + n) := by
  simp [skip, Cursor.skip_add]

/-- These tokens are ahead. -/
structure Faces (p : Parser K) (tokens : List (Token K)) : Prop where
  valid : p.cursor.Valid
  ahead : p.cursor.ahead = tokens

namespace Faces

variable {p : Parser K} {t : Token K} {tokens rest : List (Token K)}

theorem skip (h : p.Faces (tokens ++ rest)) : (p.skip tokens.length).Faces rest :=
  ⟨h.valid.skip _, by rw [cursor_skip, h.valid.ahead_skip, h.ahead, List.drop_left]⟩

theorem next (h : p.Faces (t :: rest)) : (p.skip 1).Faces rest :=
  skip (show p.Faces ([t] ++ rest) from h)

/-- Nothing is ahead when all tokens have been passed. -/
theorem skip_all (h : p.Faces tokens) : (p.skip tokens.length).Faces [] :=
  skip (by rwa [List.append_nil])

theorem peek (h : p.Faces tokens) : p.cursor.peek = tokens.headD p.cursor.marker := by
  rw [h.valid.peek_eq, h.ahead]

theorem peek_cons (h : p.Faces (t :: rest)) : p.cursor.peek = t := h.peek

theorem passes (h : p.Faces (tokens ++ rest)) :
    p.cursor.Passes (p.skip tokens.length).cursor tokens :=
  ⟨rfl, h.ahead ▸ List.prefix_append tokens rest⟩

/-- Rules may be opened. -/
theorem opened (h : p.Faces tokens) (scopes : List String) : Faces { p with scopes } tokens :=
  ⟨h.valid, h.ahead⟩

/-- An end marker is never ahead. -/
theorem not_isEnd (h : p.Faces tokens) {t : Token K} (ht : t ∈ tokens) : t.isEnd = false :=
  Cursor.not_isEnd_of_mem_ahead (h.ahead ▸ ht)

/-- What follows is next, or the end marker. -/
theorem peek_kind_ne (h : p.Faces tokens) {kind : K} (hk : kind ≠ TokenKind.endOfInput)
    (hne : ∀ t ∈ tokens.head?, t.kind ≠ kind) : p.cursor.peek.kind ≠ kind := by
  cases tokens with
  | nil => exact fun he => hk (he ▸ h.valid.peek_kind_eq_end_iff.2 h.ahead)
  | cons t rest => exact h.peek_cons ▸ hne t rfl

end Faces
end Parser

namespace Parse

/-! ## From a phrase to what is read -/

/-- Where these tokens are ahead, and after them such as the condition allows, the action passes
exactly these and gives the value. -/
def Takes (action : Parse K α) (tokens : List (Token K)) (a : α)
    (follow : List (Token K) → Prop) : Prop :=
  ∀ ⦃p rest⦄, p.Faces (tokens ++ rest) → follow rest → action p = .ok a (p.skip tokens.length)

namespace Takes

variable {action : Parse K α} {next : α → Parse K β} {tokens others : List (Token K)} {a : α}
  {b : β} {follow follow' : List (Token K) → Prop}

/-- What is read wherever it is ahead is read where the condition holds. -/
theorem anywhere (h : Takes action tokens a fun _ => True) : Takes action tokens a follow :=
  fun _ _ hp _ => h hp trivial

theorem pure (a : α) : Takes (Pure.pure a : Parse K α) [] a follow := fun _ _ _ _ => rfl

/-- Where the phrase is all that is ahead. -/
theorem whole (h : Takes action tokens a (· = [])) {p : Parser K} (hp : p.Faces tokens) :
    action p = .ok a (p.skip tokens.length) := h (by rwa [List.append_nil]) rfl

theorem bind (h : Takes action tokens a follow) (hn : Takes (next a) others b follow')
    (hf : ∀ rest, follow' rest → follow (others ++ rest)) :
    Takes (action >>= next) (tokens ++ others) b follow' := by
  intro p rest hp hfollow
  rw [List.append_assoc] at hp
  rw [bind_apply, h hp (hf rest hfollow), List.length_append, ← Parser.skip_skip]
  exact hn hp.skip hfollow

theorem map (h : Takes action tokens a follow) (f : α → β) :
    Takes (action >>= fun a => Pure.pure (f a)) tokens (f a) follow := by
  intro p rest hp hfollow
  rw [bind_apply, h hp hfollow]
  rfl

theorem next_bind {t : Token K} {next : Token K → Parse K β} (h : Takes (next t) others b follow) :
    Takes (Parse.next >>= next) (t :: others) b follow := by
  intro p rest hp hfollow
  rw [bind_apply, Parse.next, hp.peek_cons, List.length_cons, Nat.add_comm, ← Parser.skip_skip]
  exact h (Parser.Faces.next hp) hfollow

/-- A token of the kind that is asked for. -/
theorem eat_bind {t : Token K} {kind : K} {next : Option (Token K) → Parse K β}
    (hk : t.kind = kind) (h : Takes (next (some t)) others b follow) :
    Takes (eat kind >>= next) (t :: others) b follow := by
  intro p rest hp hfollow
  rw [bind_apply, eat, hp.peek_cons, if_pos hk, List.length_cons, Nat.add_comm,
    ← Parser.skip_skip]
  exact h (Parser.Faces.next hp) hfollow

/-- No token of the kind that is asked for: neither the next one nor what follows is one. -/
theorem eat_bind_none {kind : K} {next : Option (Token K) → Parse K β}
    (hk : kind ≠ TokenKind.endOfInput)
    (hne : ∀ rest, follow rest → ∀ t ∈ (tokens ++ rest).head?, t.kind ≠ kind)
    (h : Takes (next none) tokens b follow) : Takes (eat kind >>= next) tokens b follow := by
  intro p rest hp hfollow
  rw [bind_apply, eat, if_neg (hp.peek_kind_ne hk (hne rest hfollow))]
  exact h hp hfollow

theorem expectOr {t : Token K} {kind : K} (fault : Token K → Fault K) (hk : t.kind = kind) :
    Takes (Parse.expectOr kind fault) [t] t follow := by
  intro p rest hp _
  rw [Parse.expectOr, hp.peek_cons, if_pos hk]
  rfl

theorem peekKind_bind {t : Token K} {next : K → Parse K β}
    (h : Takes (next t.kind) (t :: others) b follow) :
    Takes (peekKind >>= next) (t :: others) b follow := by
  intro p rest hp hfollow
  rw [bind_apply, peekKind, hp.peek_cons]
  exact h hp hfollow

/-- There are at least as many tokens ahead as in the phrase. -/
theorem remaining_bind {next : Nat → Parse K β}
    (h : ∀ n, tokens.length ≤ n → Takes (next n) tokens b follow) :
    Takes (remaining >>= next) tokens b follow := by
  intro p rest hp hfollow
  refine h _ ?_ hp hfollow
  rw [hp.ahead, List.length_append]
  exact Nat.le_add_right ..

theorem within {name : String} (h : Takes action tokens a follow) :
    Takes (within name action) tokens a follow := by
  intro p rest hp hfollow
  rw [Parse.within, h (hp.opened _) hfollow]
  rfl

end Takes

/-! ## From what is read to a phrase -/

/-- The action reads nothing but what `means` describes, in silence, and it fails with one error
and no other report. -/
structure Finds (means : List (Token K) → α → Prop) (action : Parse K α) : Prop where
  read : ∀ ⦃p q a⦄, p.cursor.Valid → action p = .ok a q →
    ∃ tokens, p.cursor.Passes q.cursor tokens ∧ means tokens a ∧ q.report = p.report
  fault : ∀ ⦃p q e⦄, p.cursor.Valid → action p = .error e q →
    q.cursor.Valid ∧ ∃ d : Diagnostic, d.isError = true ∧ q.report = p.report.add d

namespace Finds

variable {means means' : List (Token K) → α → Prop} {action : Parse K α}
  {meansNext : List (Token K) → β → Prop} {next : α → Parse K β}

theorem imp (h : Finds means action) (hm : ∀ tokens a, means tokens a → means' tokens a) :
    Finds means' action := by
  refine ⟨fun p q a hv hr => ?_, h.fault⟩
  obtain ⟨tokens, hpq, ha, hsilent⟩ := h.read hv hr
  exact ⟨tokens, hpq, hm tokens a ha, hsilent⟩

theorem pure {a : α} (h : means [] a) : Finds means (Pure.pure a) := by
  refine ⟨fun p q b _ hr => ?_, fun _ _ _ _ hr => nomatch hr⟩
  cases hr
  exact ⟨[], .refl _, h, rfl⟩

theorem fail (fault : Fault K) : Finds means (fail fault) := by
  refine ⟨fun p q a _ hr => ?_, fun p q e hv hr => ?_⟩
  · cases hr
  · cases hr
    exact ⟨hv, _, rfl, rfl⟩

theorem bind (h : Finds means action)
    (hn : ∀ tokens a, means tokens a → Finds (fun more => meansNext (tokens ++ more)) (next a)) :
    Finds meansNext (action >>= next) := by
  refine ⟨fun p r b hv hr => ?_, fun p r e hv hr => ?_⟩
  · obtain ⟨a, q, ha, hb⟩ := bind_eq_ok.1 hr
    obtain ⟨tokens, hpq, hm, hsilent⟩ := h.read hv ha
    obtain ⟨more, hqr, hm', hsilent'⟩ := (hn tokens a hm).read (hpq.valid hv) hb
    exact ⟨tokens ++ more, hpq.trans hqr hv, hm', hsilent'.trans hsilent⟩
  · rw [bind_apply] at hr
    cases ha : action p with
    | error e' q =>
      rw [ha] at hr
      cases hr
      exact h.fault hv ha
    | ok a q =>
      rw [ha] at hr
      obtain ⟨tokens, hpq, hm, hsilent⟩ := h.read hv ha
      exact hsilent ▸ (hn tokens a hm).fault (hpq.valid hv) hr

theorem next_bind {next : Token K → Parse K β}
    (h : ∀ t : Token K, t.isEnd = false → Finds (fun more => meansNext (t :: more)) (next t))
    (hend : ∀ t : Token K, t.isEnd = true → Finds meansNext (next t)) :
    Finds meansNext (Parse.next >>= next) := by
  -- The end marker is not passed.
  have hnext : Finds (fun tokens t => tokens = [t] ∧ t.isEnd = false ∨
      tokens = [] ∧ t.isEnd = true) (Parse.next : Parse K (Token K)) := by
    refine ⟨fun p q t hv hr => ?_, fun _ _ _ _ hr => nomatch hr⟩
    cases hr
    by_cases hp : p.cursor.ahead = []
    · have hat := hv.atEnd_iff.2 hp
      have hstay : p.cursor.Passes p.cursor.advance [] := by
        rw [Cursor.advance_of_atEnd hat]
        exact .refl _
      exact ⟨[], hstay, .inr ⟨rfl, hat⟩, rfl⟩
    · have hat := Bool.eq_false_iff.2 (mt hv.atEnd_iff.1 hp)
      exact ⟨_, .advance hv hp, .inl ⟨rfl, hat⟩, rfl⟩
  refine hnext.bind fun tokens t ht => ?_
  rcases ht with ⟨rfl, ht⟩ | ⟨rfl, ht⟩
  · exact h t ht
  · exact hend t ht

theorem eat_bind {kind : K} (hk : kind ≠ TokenKind.endOfInput)
    {next : Option (Token K) → Parse K β}
    (h : ∀ t : Token K, t.kind = kind →
      Finds (fun more => meansNext (t :: more)) (next (some t)))
    (hnone : Finds meansNext (next none)) : Finds meansNext (eat kind >>= next) := by
  have heat : Finds (fun tokens found => tokens = found.toList ∧ ∀ t ∈ found, t.kind = kind)
      (eat kind) := by
    refine ⟨fun p q found hv hr => ?_, fun p q e _ hr => absurd hr eat_ne_error⟩
    obtain ⟨hp, rfl, rfl⟩ | ⟨-, rfl, rfl⟩ := eat_eq_ok hr
    · exact ⟨_, .advance hv (mt hv.peek_kind_eq_end_iff.2 (hp ▸ hk)), ⟨rfl, by simp [hp]⟩, rfl⟩
    · exact ⟨[], .refl _, ⟨rfl, nofun⟩, rfl⟩
  refine heat.bind fun tokens found ht => ?_
  cases found with
  | none => exact ht.1 ▸ hnone
  | some t => exact ht.1 ▸ h t (ht.2 t rfl)

theorem expectOr {kind : K} (hk : kind ≠ TokenKind.endOfInput) (fault : Token K → Fault K) :
    Finds (fun tokens t => tokens = [t] ∧ t.kind = kind) (expectOr kind fault) := by
  refine ⟨fun p q t hv hr => ?_, fun p q e hv hr => ?_⟩
  · obtain ⟨hp, rfl, rfl⟩ := expectOr_eq_ok.1 hr
    exact ⟨_, .advance hv (mt hv.peek_kind_eq_end_iff.2 (hp ▸ hk)), ⟨rfl, hp⟩, rfl⟩
  · have hfail : Finds (fun _ _ => True) (Parse.fail (fault p.cursor.peek) : Parse K (Token K)) :=
      fail _
    exact hfail.fault hv (expectOr_eq_error hr).2

theorem skipAll : Finds (fun _ _ => True) (Parse.skipAll : Parse K Unit) := by
  refine ⟨fun p q _ _ hr => ?_, fun _ _ _ _ hr => nomatch hr⟩
  cases hr
  exact ⟨_, .take _ (Nat.le_refl _), trivial, rfl⟩

theorem remaining_bind {next : Nat → Parse K β} (h : ∀ n, Finds meansNext (next n)) :
    Finds meansNext (remaining >>= next) :=
  ⟨fun _ _ _ hv hr => (h _).read hv hr, fun _ _ _ hv hr => (h _).fault hv hr⟩

theorem within {name : String} (h : Finds means action) : Finds means (within name action) := by
  refine ⟨fun p r a hv hr => ?_, fun p r e hv hr => ?_⟩
  · obtain ⟨q, ha, rfl⟩ := within_eq_ok.1 hr
    exact h.read (p := { p with scopes := p.scopes ++ [name] }) (q := q) hv ha
  · obtain ⟨q, ha, rfl⟩ := within_eq_error.1 hr
    exact h.fault (p := { p with scopes := p.scopes ++ [name] }) (q := q) hv ha

end Finds
end Parse
end BuiltInScript
