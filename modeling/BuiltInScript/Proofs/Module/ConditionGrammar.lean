import BuiltInScript.Module.Directive
import BuiltInScript.Proofs.Parsing.Exact

/-!
# The grammar of conditions

The conditions of directives have the grammar

    or    := and (ИЛИ and)*
    and   := unary (И unary)*
    unary := НЕ unary | atom
    atom  := `(` or `)` | symbol | identifier

A `Phrase` is a derivation in this grammar, with the tokens at its leaves; its `value` is the
condition that it stands for, in which operators of one sort are joined from the left.

**Results.**
* `Phrase.unique`: no tokens begin with two phrases of one level, unless what follows continues one
  of them; so the derivation of a condition is unique.
* `Phrase.takes`: wherever a phrase is ahead, the parser reads it and gives its value.
* `finds_conditionWithin`: whatever the parser reads is a phrase, and its result is the value of
  that phrase.
-/
namespace BuiltInScript.Module

namespace Condition

inductive Operator where
  | or | and
deriving DecidableEq, Repr

def Operator.kind : Operator → Kind
  | .or => .dirOr
  | .and => .dirAnd

def Operator.join : Operator → Condition → Condition → Condition
  | .or => .or
  | .and => .and

/-- Levels of precedence, the loosest first. -/
inductive Level where
  | chain (operator : Operator)
  | unary
  | atom
deriving DecidableEq, Repr

/-- What an operator joins. -/
def Operator.operand : Operator → Level
  | .or => .chain .and
  | .and => .unary

mutual
/-- A derivation at a level of precedence. -/
inductive Phrase : Level → Type
  | chain {o : Operator} (first : Phrase o.operand) (rest : Rest o) : Phrase (.chain o)
  | not (sign : Token Kind) (h : sign.kind = .dirNot) (inner : Phrase .unary) : Phrase .unary
  | plain (atom : Phrase .atom) : Phrase .unary
  | brackets (left : Token Kind) (hl : left.kind = .dirLeftParen) (inner : Phrase (.chain .or))
      (right : Token Kind) (hr : right.kind = .dirRightParen) : Phrase .atom
  | symbol (name : Token Kind) (h : name.kind = .dirSymbol) : Phrase .atom
  | identifier (name : Token Kind) (h : name.kind = .dirIdentifier) : Phrase .atom

/-- Further operands of an operator. -/
inductive Rest : Operator → Type
  | none {o : Operator} : Rest o
  | more {o : Operator} (sign : Token Kind) (h : sign.kind = o.kind) (operand : Phrase o.operand)
      (rest : Rest o) : Rest o
end

mutual
/-- The tokens of a derivation. -/
def Phrase.yield {l : Level} : Phrase l → List (Token Kind)
  | .chain first rest => first.yield ++ rest.yield
  | .not sign _ inner => sign :: inner.yield
  | .plain atom => atom.yield
  | .brackets left _ inner right _ => left :: (inner.yield ++ [right])
  | .symbol name _ => [name]
  | .identifier name _ => [name]

/-- The tokens of further operands and the operators before them. -/
def Rest.yield {o : Operator} : Rest o → List (Token Kind)
  | .none => []
  | .more sign _ operand rest => sign :: (operand.yield ++ rest.yield)
end

mutual
/-- The condition that a derivation stands for. -/
def Phrase.value {l : Level} : Phrase l → Condition
  | .chain first rest => rest.joined first.value
  | .not _ _ inner => .not inner.value
  | .plain atom => atom.value
  | .brackets _ _ inner _ _ => inner.value
  | .symbol name _ =>
    match PlatformSymbol.ofName? ⟨name.text⟩ with
    | some s => .symbol s
    | none => .unknown name.text
  | .identifier name _ => .unknown name.text

/-- An operand with further ones, joined from the left. -/
def Rest.joined {o : Operator} (left : Condition) : Rest o → Condition
  | .none => left
  | .more _ _ operand rest => rest.joined (o.join left operand.value)
end

/-- Operators that continue a phrase. -/
def Level.operators : Level → List Operator
  | .chain .or => [.or, .and]
  | .chain .and => [.and]
  | .unary | .atom => []

/-- What follows a phrase does not continue it. -/
def Level.Ends (l : Level) (follow : List (Token Kind)) : Prop :=
  ∀ o ∈ l.operators, ∀ t ∈ follow.head?, t.kind ≠ o.kind

/-! ## What derivations begin with -/

theorem Operator.mem_operators (o : Operator) : o ∈ (Level.chain o).operators := by
  cases o <;> decide

/-- An operand ends before a token that is not an operator. -/
theorem Level.ends_cons {l : Level} {t : Token Kind} {rest : List (Token Kind)}
    (h : ∀ o : Operator, t.kind ≠ o.kind) : l.Ends (t :: rest) := by
  intro o _ t' ht
  cases ht
  exact h o

theorem Level.ends_rightParen {l : Level} {t : Token Kind} {rest : List (Token Kind)}
    (h : t.kind = .dirRightParen) : l.Ends (t :: rest) :=
  ends_cons fun o => h ▸ by cases o <;> decide

theorem Level.ends_then {l : Level} {t : Token Kind} {rest : List (Token Kind)}
    (h : t.kind = .dirThen) : l.Ends (t :: rest) :=
  ends_cons fun o => h ▸ by cases o <;> decide

theorem Level.ends_nil (l : Level) : l.Ends [] := fun _ _ _ ht => nomatch ht

/-- Nothing continues an operand of `И`. -/
theorem Level.ends_unary (rest : List (Token Kind)) : Level.unary.Ends rest :=
  fun _ ho => nomatch ho

theorem Level.ends_atom (rest : List (Token Kind)) : Level.atom.Ends rest :=
  fun _ ho => nomatch ho

/-- An operand ends before the next operator, and where the whole ends. -/
theorem Rest.ends_operand {o : Operator} (r : Rest o) {rest : List (Token Kind)}
    (h : (Level.chain o).Ends rest) : o.operand.Ends (r.yield ++ rest) := by
  intro o' ho' t ht
  cases r with
  | none =>
    refine h o' ?_ t (by simpa [Rest.yield] using ht)
    revert ho'
    cases o <;> cases o' <;> decide
  | more sign hsign operand more =>
    obtain rfl : sign = t := by simpa [Rest.yield] using ht
    rw [hsign]
    revert ho'
    cases o <;> cases o' <;> decide

theorem Phrase.head_atom (s : Phrase .atom) :
    ∃ t rest, s.yield = t :: rest ∧ t.kind ≠ .dirNot := by
  cases s with
  | brackets left hl inner right hr => exact ⟨left, _, rfl, by simp [hl]⟩
  | symbol name h => exact ⟨name, _, rfl, by simp [h]⟩
  | identifier name h => exact ⟨name, _, rfl, by simp [h]⟩

theorem Phrase.yield_pos {l : Level} (s : Phrase l) : 0 < s.yield.length := by
  match s with
  | .chain first rest =>
    rw [Phrase.yield, List.length_append]
    exact Nat.lt_of_lt_of_le first.yield_pos (Nat.le_add_right ..)
  | .plain atom => exact atom.yield_pos
  | .not .. | .brackets .. | .symbol .. | .identifier .. => exact Nat.succ_pos _

/-! ## Unambiguity -/

mutual
/-- Tokens do not begin with two phrases of one level. -/
theorem Phrase.unique {l : Level} (s s' : Phrase l) {rest rest' : List (Token Kind)}
    (he : s.yield ++ rest = s'.yield ++ rest') (h : l.Ends rest) (h' : l.Ends rest') :
    s = s' ∧ rest = rest' := by
  match s, s' with
  | .chain first more, .chain first' more' =>
    simp only [Phrase.yield, List.append_assoc] at he
    obtain ⟨rfl, hrest⟩ := first.unique first' he (more.ends_operand h) (more'.ends_operand h')
    obtain ⟨rfl, rfl⟩ := more.unique more' hrest h h'
    exact ⟨rfl, rfl⟩
  | .not sign _ inner, .not sign' _ inner' =>
    obtain ⟨rfl, hrest⟩ := List.cons.inj he
    obtain ⟨rfl, rfl⟩ := inner.unique inner' hrest (Level.ends_unary _) (Level.ends_unary _)
    exact ⟨rfl, rfl⟩
  | .plain atom, .plain atom' =>
    obtain ⟨rfl, rfl⟩ := atom.unique atom' he (Level.ends_atom _) (Level.ends_atom _)
    exact ⟨rfl, rfl⟩
  | .not sign hsign _, .plain atom =>
    obtain ⟨t, _, ht, hne⟩ := atom.head_atom
    simp only [Phrase.yield, ht] at he
    exact absurd hsign ((List.cons.inj he).1 ▸ hne)
  | .plain atom, .not sign hsign _ =>
    obtain ⟨t, _, ht, hne⟩ := atom.head_atom
    simp only [Phrase.yield, ht] at he
    exact absurd hsign ((List.cons.inj he).1 ▸ hne)
  | .brackets left _ inner right hr, .brackets left' _ inner' right' hr' =>
    simp only [Phrase.yield, List.cons_append, List.append_assoc, List.nil_append] at he
    obtain ⟨rfl, hinner⟩ := List.cons.inj he
    obtain ⟨rfl, hrest⟩ := inner.unique inner' hinner (Level.ends_rightParen hr)
      (Level.ends_rightParen hr')
    obtain ⟨rfl, rfl⟩ := List.cons.inj hrest
    exact ⟨rfl, rfl⟩
  | .symbol name _, .symbol name' _ =>
    obtain ⟨rfl, rfl⟩ := List.cons.inj he
    exact ⟨rfl, rfl⟩
  | .identifier name _, .identifier name' _ =>
    obtain ⟨rfl, rfl⟩ := List.cons.inj he
    exact ⟨rfl, rfl⟩
  | .brackets _ hl _ _ _, .symbol _ hk | .brackets _ hl _ _ _, .identifier _ hk
  | .symbol _ hl, .brackets _ hk _ _ _ | .symbol _ hl, .identifier _ hk
  | .identifier _ hl, .brackets _ hk _ _ _ | .identifier _ hl, .symbol _ hk =>
    obtain ⟨rfl, _⟩ := List.cons.inj he
    exact nomatch hl.symm.trans hk

theorem Rest.unique {o : Operator} (r r' : Rest o) {rest rest' : List (Token Kind)}
    (he : r.yield ++ rest = r'.yield ++ rest') (h : (Level.chain o).Ends rest)
    (h' : (Level.chain o).Ends rest') : r = r' ∧ rest = rest' := by
  match r, r' with
  | .none, .none => exact ⟨rfl, he⟩
  | .more sign _ operand more, .more sign' _ operand' more' =>
    simp only [Rest.yield, List.cons_append, List.append_assoc] at he
    obtain ⟨rfl, hfirst⟩ := List.cons.inj he
    obtain ⟨rfl, hrest⟩ := operand.unique operand' hfirst (more.ends_operand h)
      (more'.ends_operand h')
    obtain ⟨rfl, rfl⟩ := more.unique more' hrest h h'
    exact ⟨rfl, rfl⟩
  | .none, .more sign hsign _ _ =>
    simp only [Rest.yield, List.nil_append] at he
    exact absurd hsign (h o o.mem_operators sign (by simp [he]))
  | .more sign hsign _ _, .none =>
    simp only [Rest.yield, List.nil_append] at he
    exact absurd hsign (h' o o.mem_operators sign (by simp [← he]))
end

/-- **Unambiguity.** A condition has one derivation. -/
theorem Phrase.yield_injective {l : Level} {s s' : Phrase l} (h : s.yield = s'.yield) :
    s = s' := by
  have hwhole : s.yield ++ [] = s'.yield ++ [] := by rw [h]
  exact (s.unique s' hwhole l.ends_nil l.ends_nil).1

/-! ## Phrases are read -/

section
variable {inner : Parse Kind Condition}

/-- What reads phrases of a level, given what reads between brackets. -/
def Level.read (inner : Parse Kind Condition) : Level → Parse Kind Condition
  | .chain .or =>
    Module.chain .dirOr .or (Module.chain .dirAnd .and (Module.unary inner))
  | .chain .and => Module.chain .dirAnd .and (Module.unary inner)
  | .unary => Module.unary inner
  | .atom => Module.atom inner

/-- What reads phrases of a level with up to `n` negations before an atom. -/
def Level.readUpTo (inner : Parse Kind Condition) (n : Nat) : Level → Parse Kind Condition
  | .unary => negated inner n
  | l => l.read inner

theorem Level.read_chain (o : Operator) :
    (Level.chain o).read inner = Module.chain o.kind o.join (o.operand.read inner) := by
  cases o <;> rfl

theorem conditionWithin_succ (depth : Nat) :
    conditionWithin (depth + 1) = (Level.chain .or).read (conditionWithin depth) := rfl

/-- A phrase is not longer than what is ahead where it begins. -/
theorem Level.takes_read {l : Level} {tokens : List (Token Kind)} {c : Condition}
    {follow : List (Token Kind) → Prop}
    (h : ∀ n, tokens.length ≤ n → Parse.Takes (l.readUpTo inner n) tokens c follow) :
    Parse.Takes (l.read inner) tokens c follow := by
  cases l with
  | unary => exact .remaining_bind h
  | chain o => exact h _ (Nat.le_refl _)
  | atom => exact h _ (Nat.le_refl _)

mutual
/-- **Completeness.** Where a phrase is ahead, its level reads it. -/
theorem Phrase.takes {l : Level} (s : Phrase l) {depth n : Nat}
    (hd : s.yield.length ≤ depth + 1) (hn : s.yield.length ≤ n) :
    Parse.Takes (l.readUpTo (conditionWithin depth) n) s.yield s.value l.Ends := by
  match s with
  | @Phrase.chain o first rest =>
    rw [Phrase.yield, List.length_append] at hd
    show Parse.Takes ((Level.chain o).read _) _ _ _
    rw [Level.read_chain]
    refine .bind (Level.takes_read fun n hn => first.takes (by omega) hn) ?_
      fun more hmore => rest.ends_operand hmore
    exact .remaining_bind fun n hn => rest.takes (by omega) hn first.value
  | .not sign h inner =>
    rw [Phrase.yield, List.length_cons] at hd hn
    obtain ⟨m, rfl⟩ : ∃ m, n = m + 1 := ⟨n - 1, by omega⟩
    have hinner : Parse.Takes (negated (conditionWithin depth) m) _ _ _ :=
      inner.takes (by omega) (by omega)
    exact .eat_bind h (hinner.map Condition.not)
  | .plain atom =>
    have hatom : Parse.Takes (Module.atom (conditionWithin depth)) _ _ _ := atom.takes hd hn
    cases n with
    | zero => exact hatom
    | succ n =>
      refine .eat_bind_none (by decide) (fun rest _ t ht => ?_) hatom
      obtain ⟨t', _, hyield, hne⟩ := atom.head_atom
      rw [Phrase.yield, hyield] at ht
      cases ht
      exact hne
  | .brackets left hl inner right hr =>
    rw [Phrase.yield, List.length_cons, List.length_append] at hd
    obtain ⟨d, rfl⟩ : ∃ d, depth = d + 1 := by
      cases depth with
      | zero => simp at hd
      | succ d => exact ⟨d, rfl⟩
    refine .next_bind ?_
    simp only [hl]
    rw [conditionWithin_succ]
    refine .bind (Level.takes_read fun n hn => inner.takes (by simp at hd; omega) hn)
      ((Parse.Takes.expectOr _ hr).map fun _ => inner.value) fun _ _ => Level.ends_rightParen hr
  | .symbol name h =>
    refine .next_bind ?_
    simp only [h, Phrase.value]
    cases PlatformSymbol.ofName? ⟨name.text⟩ <;> exact .pure _
  | .identifier name h =>
    refine .next_bind ?_
    simp only [h]
    exact .pure _

theorem Rest.takes {o : Operator} (r : Rest o) {depth n : Nat}
    (hd : r.yield.length ≤ depth + 1) (hn : r.yield.length ≤ n) (left : Condition) :
    Parse.Takes (chainRest o.kind o.join (o.operand.read (conditionWithin depth)) n left)
      r.yield (r.joined left) (Level.chain o).Ends := by
  match r with
  | .none =>
    cases n with
    | zero => exact .pure left
    | succ n =>
      refine .eat_bind_none (by cases o <;> decide) (fun rest hrest t ht => ?_) (.pure left)
      exact hrest o o.mem_operators t ht
  | .more sign h operand rest =>
    rw [Rest.yield, List.length_cons, List.length_append] at hd hn
    obtain ⟨m, rfl⟩ : ∃ m, n = m + 1 := ⟨n - 1, by omega⟩
    refine .eat_bind h ?_
    refine .bind (Level.takes_read fun n hn => operand.takes (by omega) hn) ?_
      fun more hmore => rest.ends_operand hmore
    exact rest.takes (by omega) (by omega) _
end

end

/-! ## What is read is a phrase -/

/-- Tokens that a condition is derived from at a level of precedence. -/
def Derives (l : Level) (tokens : List (Token Kind)) (c : Condition) : Prop :=
  ∃ s : Phrase l, s.yield = tokens ∧ s.value = c

section
variable {inner : Parse Kind Condition}

theorem finds_atom (h : Parse.Finds (Derives (.chain .or)) inner) :
    Parse.Finds (Derives .atom) (Module.atom inner) := by
  refine .next_bind (fun t _ => ?_) fun t hend => ?_
  · split <;> rename_i hk
    · refine h.bind fun tokens c hc => ?_
      refine (Parse.Finds.expectOr (by decide) _).bind fun more right hright => .pure ?_
      obtain ⟨s, rfl, rfl⟩ := hc
      obtain ⟨rfl, hr⟩ := hright
      exact ⟨.brackets t hk s right hr, by simp [Phrase.yield], rfl⟩
    · split <;> rename_i hname
      · exact .pure ⟨.symbol t hk, rfl, by simp [Phrase.value, hname]⟩
      · exact .pure ⟨.symbol t hk, rfl, by simp [Phrase.value, hname]⟩
    · exact .pure ⟨.identifier t hk, rfl, rfl⟩
    · exact .fail _
  · have hk : t.kind = .endOfInput := by simpa [Token.isEnd, TokenKind.endOfInput] using hend
    simp only [hk]
    exact .fail _

theorem finds_negated (h : Parse.Finds (Derives (.chain .or)) inner) (n : Nat) :
    Parse.Finds (Derives .unary) (negated inner n) := by
  have hatom : Parse.Finds (Derives .unary) (Module.atom inner) :=
    (finds_atom h).imp fun tokens c ⟨s, hs, hc⟩ => ⟨.plain s, hs, hc⟩
  induction n with
  | zero => exact hatom
  | succ n ih =>
    refine .eat_bind (by decide) (fun sign hsign => ?_) hatom
    refine ih.bind fun tokens c hc => .pure ?_
    obtain ⟨s, rfl, rfl⟩ := hc
    exact ⟨.not sign hsign s, by simp [Phrase.yield], rfl⟩

theorem finds_chainRest {o : Operator} {operand : Parse Kind Condition}
    (h : Parse.Finds (Derives o.operand) operand) (n : Nat) (left : Condition) :
    Parse.Finds (fun tokens c => ∃ r : Rest o, r.yield = tokens ∧ r.joined left = c)
      (chainRest o.kind o.join operand n left) := by
  induction n generalizing left with
  | zero => exact .pure ⟨.none, rfl, rfl⟩
  | succ n ih =>
    refine .eat_bind (by cases o <;> decide) (fun sign hsign => ?_) (.pure ⟨.none, rfl, rfl⟩)
    refine h.bind fun tokens c hc => (ih _).imp fun more d hd => ?_
    obtain ⟨s, rfl, rfl⟩ := hc
    obtain ⟨r, rfl, rfl⟩ := hd
    exact ⟨.more sign hsign s r, rfl, rfl⟩

theorem finds_chain {o : Operator} {operand : Parse Kind Condition}
    (h : Parse.Finds (Derives o.operand) operand) :
    Parse.Finds (Derives (.chain o)) (chain o.kind o.join operand) := by
  refine h.bind fun tokens c hc => .remaining_bind fun n => ?_
  refine (finds_chainRest h n c).imp fun more d hd => ?_
  obtain ⟨s, rfl, rfl⟩ := hc
  obtain ⟨r, rfl, rfl⟩ := hd
  exact ⟨.chain s r, rfl, rfl⟩

/-- **Soundness.** What is read as a condition is one, and nothing else is read. -/
theorem finds_conditionWithin (depth : Nat) :
    Parse.Finds (Derives (.chain .or)) (conditionWithin depth) := by
  induction depth with
  | zero => exact .next_bind (fun t _ => .fail _) fun t _ => .fail _
  | succ depth ih =>
    have hunary : Parse.Finds (Derives .unary) (Module.unary (conditionWithin depth)) :=
      .remaining_bind fun n => finds_negated ih n
    exact finds_chain (o := .or) (finds_chain (o := .and) hunary)

end

end Condition

end BuiltInScript.Module
