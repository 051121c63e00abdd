import BuiltInScript.Parsing.Parts
import BuiltInScript.Proofs.Token.Cursor

/-!
# Actions of parsers, one after another

How actions compose, and what no action of the grammars touches: the token list that is read, the
rules that are open, and how the parser predicts (`Keeps`).
-/
namespace BuiltInScript

variable {R K α β : Type}

namespace Parse

/-! ## Composition -/

theorem pure_apply (a : α) (p : Parser K) : (pure a : Parse K α) p = .ok a p := rfl

theorem bind_apply (action : Parse K α) (next : α → Parse K β) (p : Parser K) :
    (action >>= next) p =
      match action p with
      | .ok a q => next a q
      | .error e q => .error e q := by
  show EStateM.bind action next p = _
  unfold EStateM.bind
  cases action p <;> rfl

theorem get_bind (next : Parser K → Parse K β) (p : Parser K) :
    ((get : Parse K (Parser K)) >>= next) p = next p p := rfl

/-- A sequence succeeds if both actions do. -/
theorem bind_eq_ok {action : Parse K α} {next : α → Parse K β} {p r : Parser K} {b : β} :
    (action >>= next) p = .ok b r ↔ ∃ a q, action p = .ok a q ∧ next a q = .ok b r := by
  rw [bind_apply]
  constructor
  · intro h
    cases hp : action p with
    | ok a q => exact ⟨a, q, rfl, by simpa only [hp] using h⟩
    | error e q => simp only [hp, reduceCtorEq] at h
  · rintro ⟨a, q, hp, hq⟩
    simpa only [hp] using hq

/-- A rule succeeds if what it consists of does. -/
theorem within_eq_ok {name : String} {action : Parse K α} {p r : Parser K} {a : α} :
    within name action p = .ok a r ↔
      ∃ q, action { p with scopes := p.scopes ++ [name] } = .ok a q ∧
        r = { q with scopes := p.scopes } := by
  unfold within
  cases hr : action { p with scopes := p.scopes ++ [name] } with
  | ok b q =>
    constructor
    · intro h
      cases h
      exact ⟨q, rfl, rfl⟩
    · rintro ⟨s, hs, rfl⟩
      cases hs
      rfl
  | error e q =>
    constructor
    · intro h
      cases h
    · rintro ⟨s, hs, -⟩
      cases hs

/-- A rule fails where what it consists of does. -/
theorem within_eq_error {name : String} {action : Parse K α} {p r : Parser K} {e : ParseError} :
    within name action p = .error e r ↔
      ∃ q, action { p with scopes := p.scopes ++ [name] } = .error e q ∧
        r = { q with scopes := p.scopes } := by
  unfold within
  cases hr : action { p with scopes := p.scopes ++ [name] } with
  | ok b q =>
    constructor
    · intro h
      cases h
    · rintro ⟨s, hs, -⟩
      cases hs
  | error e q =>
    constructor
    · intro h
      cases h
      exact ⟨q, rfl, rfl⟩
    · rintro ⟨s, hs, rfl⟩
      cases hs
      rfl

section
variable [DecidableEq K] [TokenKind K] {kind : K} {fault : Token K → Fault K} {p q : Parser K}
  {t : Token K}

/-- A token that must be there is taken if it is. -/
theorem expectOr_eq_ok : expectOr kind fault p = .ok t q ↔
    p.cursor.peek.kind = kind ∧ t = p.cursor.peek ∧ q = { p with cursor := p.cursor.advance } := by
  unfold expectOr
  split
  · rename_i hkind
    constructor
    · intro h
      cases h
      exact ⟨hkind, rfl, rfl⟩
    · rintro ⟨-, rfl, rfl⟩
      rfl
  · rename_i hkind
    constructor
    · intro h
      cases h
    · rintro ⟨h, -⟩
      exact absurd h hkind

theorem expectOr_eq_error {e : ParseError} (h : expectOr kind fault p = .error e q) :
    p.cursor.peek.kind ≠ kind ∧ (failHere fault : Parse K (Token K)) p = .error e q := by
  unfold expectOr at h
  split at h
  · cases h
  · exact ⟨‹_›, h⟩

/-- A token that may be there is taken if it is. -/
theorem eat_eq_ok {found : Option (Token K)} (h : eat kind p = .ok found q) :
    p.cursor.peek.kind = kind ∧ found = some p.cursor.peek ∧
        q = { p with cursor := p.cursor.advance } ∨
      p.cursor.peek.kind ≠ kind ∧ found = none ∧ q = p := by
  unfold eat at h
  split at h <;> cases h
  · exact .inl ⟨‹_›, rfl, rfl⟩
  · exact .inr ⟨‹_›, rfl, rfl⟩

theorem eat_ne_error {e : ParseError} : eat kind p ≠ .error e q := by
  unfold eat
  split <;> nofun

end

/-! ## What stays -/

/-- The parser that an action leaves behind, whether it succeeds or fails. -/
def after (action : Parse K α) (p : Parser K) : Parser K :=
  match action p with
  | .ok _ q | .error _ q => q

theorem after_of_ok {action : Parse K α} {p q : Parser K} {a : α} (h : action p = .ok a q) :
    after action p = q := by
  simp only [after, h]

theorem after_of_error {action : Parse K α} {p q : Parser K} {e : ParseError}
    (h : action p = .error e q) : after action p = q := by
  simp only [after, h]

end Parse

/-- Two parsers at work on one token list, within the same rules and with the same prediction. -/
structure Parser.Alike (p q : Parser K) : Prop where
  tokens : q.cursor.tokens = p.cursor.tokens
  channels : q.cursor.channels = p.cursor.channels
  marker : q.cursor.marker = p.cursor.marker
  scopes : q.scopes = p.scopes
  mode : q.report.mode = p.report.mode

theorem Parser.Alike.refl (p : Parser K) : Alike p p := ⟨rfl, rfl, rfl, rfl, rfl⟩

theorem Parser.Alike.trans {p q r : Parser K} (h : Alike p q) (h' : Alike q r) : Alike p r :=
  ⟨h'.tokens.trans h.tokens, h'.channels.trans h.channels, h'.marker.trans h.marker,
    h'.scopes.trans h.scopes, h'.mode.trans h.mode⟩

namespace Parse

open BuiltInScript.Parser (Alike)

/-- An action that leaves the token list, the open rules and the prediction as they are. -/
def Keeps (action : Parse K α) : Prop := ∀ p, Alike p (after action p)

theorem Keeps.pure (a : α) : Keeps (Pure.pure a : Parse K α) := fun p => .refl p

theorem Keeps.bind {action : Parse K α} {next : α → Parse K β} (h : Keeps action)
    (hn : ∀ a, Keeps (next a)) : Keeps (action >>= next) := by
  intro p
  have hp := h p
  unfold after at hp ⊢
  rw [bind_apply]
  cases hr : action p with
  | error e q => simpa only [hr] using hp
  | ok a q =>
    rw [hr] at hp
    exact hp.trans (hn a q)

theorem Keeps.within {name : String} {action : Parse K α} (h : Keeps action) :
    Keeps (within name action) := by
  intro p
  have hp := h { p with scopes := p.scopes ++ [name] }
  unfold after at hp ⊢
  unfold Parse.within
  cases hr : action { p with scopes := p.scopes ++ [name] } <;> rw [hr] at hp <;>
    exact ⟨hp.tokens, hp.channels, hp.marker, rfl, hp.mode⟩

theorem Keeps.attempt {action : Parse K α} (h : Keeps action) : Keeps (attempt action) := by
  intro p
  have hp := h p
  unfold after at hp ⊢
  unfold Parse.attempt
  cases hr : action p <;> rw [hr] at hp <;> exact hp

end Parse

variable [DecidableEq K] [TokenKind K]

/-- A parser alike another is brought to its place by its position. -/
theorem Parser.Alike.seek_position {p q : Parser K} (h : Alike p q) (hv : p.cursor.Valid) :
    q.cursor.seek p.cursor.position = p.cursor :=
  hv.seek_position h.tokens h.channels h.marker

theorem Parser.Alike.skip (p : Parser K) (n : Nat) :
    Alike p { p with cursor := p.cursor.skip n } :=
  ⟨by simp, by simp, by simp, rfl, rfl⟩

theorem Parser.Alike.advance (p : Parser K) : Alike p { p with cursor := p.cursor.advance } :=
  skip p 1

namespace Parse

open BuiltInScript.Parser (Alike)

theorem Keeps.failHere (fault : Token K → Fault K) : Keeps (failHere fault : Parse K α) :=
  fun _ => ⟨rfl, rfl, rfl, rfl, rfl⟩

theorem Keeps.expectOr (kind : K) (fault : Token K → Fault K) : Keeps (expectOr kind fault) := by
  intro p
  by_cases h : p.cursor.peek.kind = kind
  · simpa only [after, Parse.expectOr, h, if_true] using Alike.advance p
  · simpa only [after, Parse.expectOr, h, if_false] using Keeps.failHere (α := Token K) fault p

theorem Keeps.at? (kind : K) : Keeps (at? kind) := fun p => .refl p

theorem Keeps.eat (kind : K) : Keeps (eat kind) := by
  intro p
  by_cases h : p.cursor.peek.kind = kind
  · simpa only [after, Parse.eat, h, if_true] using Alike.advance p
  · simpa only [after, Parse.eat, h, if_false] using Alike.refl p

theorem Keeps.skipFrom (start : Nat) (sync : K → RecoveryPoint) :
    Keeps (skipFrom start sync : Parse K (List (Tree R K))) :=
  fun _ => ⟨by simp [after, Parse.skipFrom, Cursor.seek],
    by simp [after, Parse.skipFrom, Cursor.seek], by simp [after, Parse.skipFrom, Cursor.seek],
    rfl, rfl⟩

theorem Keeps.recover (result : Except ParseError α) (start : Nat) (sync : K → RecoveryPoint) :
    Keeps (recover result start sync : Parse K (Except (List (Tree R K)) α)) := by
  intro p
  cases result with
  | ok a => exact .refl p
  | error e =>
    by_cases h : p.report.mode = .optimistic
    · simpa only [after, Parse.recover, h, if_true] using Alike.refl p
    · have hs := Keeps.skipFrom (R := R) start sync p
      simp only [after, Parse.skipFrom, Parse.recover, h, if_false] at hs ⊢
      exact hs

end Parse

/-! ## Parts that succeed -/

namespace Part

variable {p q : Parser K} {trees : Trees R K}

theorem leafOr_eq_ok {kind : K} {fault : Token K → Fault K}
    (h : (leafOr kind fault : Parse K (Trees R K)) p = .ok trees q) :
    p.cursor.peek.kind = kind ∧ trees = [.token p.cursor.peek] ∧
      q = { p with cursor := p.cursor.advance } := by
  obtain ⟨token, r, htoken, hr⟩ := Parse.bind_eq_ok.1 h
  cases hr
  obtain ⟨hkind, rfl, rfl⟩ := Parse.expectOr_eq_ok.1 htoken
  exact ⟨hkind, rfl, rfl⟩

omit [DecidableEq K] [TokenKind K] in
theorem inOrder_cons_eq_ok {part : Parse K (Trees R K)} {parts : List (Parse K (Trees R K))}
    (h : inOrder (part :: parts) p = .ok trees q) :
    ∃ first r others, part p = .ok first r ∧ inOrder parts r = .ok others q ∧
      trees = first ++ others := by
  obtain ⟨first, r, hfirst, hrest⟩ := Parse.bind_eq_ok.1 h
  obtain ⟨others, r', hothers, hr⟩ := Parse.bind_eq_ok.1 hrest
  cases hr
  exact ⟨first, r, others, hfirst, hothers, rfl⟩

omit [DecidableEq K] [TokenKind K] in
theorem inOrder_singleton_eq_ok {part : Parse K (Trees R K)}
    (h : inOrder [part] p = .ok trees q) : part p = .ok trees q := by
  obtain ⟨first, r, others, hfirst, hnil, rfl⟩ := inOrder_cons_eq_ok h
  cases hnil
  rwa [List.append_nil]

omit [DecidableEq K] [TokenKind K] in
theorem nodeOf_eq_ok {rule : R} {parts : List (Parse K (Trees R K))} {made : Node R K}
    (h : nodeOf rule parts p = .ok made q) :
    ∃ children, inOrder parts p = .ok children q ∧ made = { rule, children } := by
  obtain ⟨children, r, hchildren, hmade⟩ := Parse.bind_eq_ok.1 h
  cases hmade
  exact ⟨children, hchildren, rfl⟩

omit [DecidableEq K] [TokenKind K] in
theorem node_eq_ok {rule : R} {parts : List (Parse K (Trees R K))}
    (h : node rule parts p = .ok trees q) :
    ∃ children, inOrder parts p = .ok children q ∧ trees = [.node rule children {}] := by
  obtain ⟨made, r, hmade, hr⟩ := Parse.bind_eq_ok.1 h
  obtain ⟨children, hchildren, rfl⟩ := nodeOf_eq_ok hmade
  cases hr
  exact ⟨children, hchildren, rfl⟩

/-- A part, and the separator after it if there is one. -/
theorem thenEat_eq_ok {separator : K} {part : Parse K (Trees R K)} {again : Option Unit}
    (h : (do
        let trees ← part
        match ← Parse.eat separator with
        | some token => return (trees ++ [Tree.token token], some ())
        | none => return (trees, none)) p = .ok (trees, again) q) :
    ∃ first r found, part p = .ok first r ∧ Parse.eat separator r = .ok found q ∧
      trees = first ++ found.toList.map .token ∧ again = found.map fun _ => () := by
  obtain ⟨first, r, hpart, h⟩ := Parse.bind_eq_ok.1 h
  obtain ⟨found, r', heat, h⟩ := Parse.bind_eq_ok.1 h
  refine ⟨first, r, found, hpart, ?_⟩
  cases found with
  | none =>
    cases h
    exact ⟨heat, by simp, rfl⟩
  | some token =>
    cases h
    exact ⟨heat, rfl, rfl⟩

/-- A part, if a token of its kind is next. -/
theorem whileTurn_eq_ok {kind : K} {part : Parse K (Trees R K)} {again : Option Unit}
    (h : (do
        if ← Parse.at? kind then return (← part, some ()) else return ([], none)) p =
      .ok (trees, again) q) :
    p.cursor.peek.kind = kind ∧ part p = .ok trees q ∧ again = some () ∨
      trees = [] ∧ again = none ∧ q = p := by
  obtain ⟨there, p', hthere, h⟩ := Parse.bind_eq_ok.1 h
  cases hthere
  split at h
  · rename_i hkind
    obtain ⟨found, r, hpart, h⟩ := Parse.bind_eq_ok.1 h
    cases h
    exact .inl ⟨of_decide_eq_true hkind, hpart, rfl⟩
  · cases h
    exact .inr ⟨rfl, rfl, rfl⟩

omit [DecidableEq K] [TokenKind K] in
/-- A loop ends with its first turn, or goes on after it. -/
theorem repeatUpTo_succ_eq_ok {σ : Type} {part : σ → Parse K (Trees R K × Option σ)} {n : Nat}
    {state : σ} (h : repeatUpTo part (n + 1) state p = .ok trees q) :
    part state p = .ok (trees, none) q ∨
      ∃ first again r others, part state p = .ok (first, some again) r ∧
        repeatUpTo part n again r = .ok others q ∧ trees = first ++ others := by
  obtain ⟨⟨first, again⟩, r, hpart, h⟩ := Parse.bind_eq_ok.1 h
  cases again with
  | none =>
    cases h
    exact .inl hpart
  | some again =>
    obtain ⟨others, r', hothers, h⟩ := Parse.bind_eq_ok.1 h
    cases h
    exact .inr ⟨first, again, r, others, hpart, hothers, rfl⟩

theorem repeating_eq_ok {σ : Type} {part : σ → Parse K (Trees R K × Option σ)} {state : σ}
    (h : repeating part state p = .ok trees q) :
    repeatUpTo part (p.cursor.ahead.length + 1) state p = .ok trees q := h

end Part

/-! ## Recovery -/

namespace Part

variable {sync : K → RecoveryPoint} {part : Parse K (Trees R K)} {p q : Parser K}

/-- There is nothing to recover from if a part succeeds. -/
theorem recovering_of_ok {trees : Trees R K} (h : part p = .ok trees q) :
    recovering sync part p = .ok trees q := by
  unfold recovering
  simp only [Parse.bind_apply, Parse.position, Parse.attempt, h, Parse.recover]
  rfl

/-- Optimistic prediction does not recover. -/
theorem recovering_of_error_optimistic {e : ParseError} (h : part p = .error e q)
    (hm : q.report.mode = .optimistic) : recovering sync part p = .error e q := by
  unfold recovering
  simp only [Parse.bind_apply, Parse.position, Parse.attempt, h, Parse.recover, hm, if_true]

/-- General prediction goes back to where the part began, and skips from there. -/
theorem recovering_of_error_general {e : ParseError} (h : part p = .error e q)
    (hm : q.report.mode = .general) :
    recovering sync part p = Parse.skipFrom p.cursor.position sync q := by
  unfold recovering
  simp only [Parse.bind_apply, Parse.position, Parse.attempt, h, Parse.recover, hm, reduceCtorEq,
    if_false, Parse.skipFrom]
  rfl

end Part

/-! ## Loops -/

namespace Part

variable {σ : Type} {part : σ → Parse K (Trees R K × Option σ)}

omit [DecidableEq K] [TokenKind K] in
theorem keeps_repeatUpTo (h : ∀ state, Parse.Keeps (part state)) (n : Nat) (state : σ) :
    Parse.Keeps (repeatUpTo part n state) := by
  induction n generalizing state with
  | zero => exact .pure []
  | succ n ih =>
    refine (h state).bind fun ⟨trees, again⟩ => ?_
    cases again with
    | none => exact .pure trees
    | some state => exact (ih state).bind fun others => .pure _

/-- A loop keeps what its turns keep. -/
theorem keeps_repeating (h : ∀ state, Parse.Keeps (part state)) (state : σ) :
    Parse.Keeps (repeating part state) := by
  have hr : Parse.Keeps (Parse.remaining : Parse K Nat) := fun p => .refl p
  exact hr.bind fun n => keeps_repeatUpTo h (n + 1) state

end Part
end BuiltInScript
