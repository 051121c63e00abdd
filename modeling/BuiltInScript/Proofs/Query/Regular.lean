import BuiltInScript.Query.Grammar
import BuiltInScript.Proofs.Parsing.Reading

/-!
# The grammar of queries is regular

A query is a loop over its tokens, so it is described by what a turn of the loop does.

**Results.**
* `bodyTurn_eq_choosing`: what a turn does depends on two tokens and the open brackets only.
* `query_regular`: a query takes at least one token and is made of regular parts.
-/
namespace BuiltInScript.Query

open BuiltInScript.Part

/-- The turns of a query, as choices. -/
def chooseStep (subquery : Parse Kind Trees) (nested : Bool) (opened : List (Token Kind))
    (token : Token Kind) (after : Kind) : Turn Rule Kind (List (Token Kind)) :=
  match token.kind with
  | .endOfInput | .semicolon =>
    match opened with
    | opener :: _ => .last (Parse.failHere fun found => .unclosedBracket .rightParen found opener)
    | [] => if nested then .last (Parse.unexpected "`)`") else .stop
  | .leftParen => if after = .kwSelect then .again subquery opened else .again any (token :: opened)
  | .rightParen =>
    match opened with
    | _ :: outer => .again any outer
    | [] => if nested then .stop else .last (Parse.unexpected "`;`")
  | _ => .again any opened

theorem bodyTurn_eq_choosing (subquery : Parse Kind Trees) (nested : Bool) :
    bodyTurn subquery nested = Turn.choosing (chooseStep subquery nested) := by
  funext opened p
  have hsecond : (Parse.lookahead 1 : Parse Kind (Token Kind)) p = .ok (p.cursor.peekNth 1) p := by
    cases hm : p.report.mode <;>
      simp [Parse.lookahead, Parse.lookaheadCharged, hm, Prediction.lookaheadBound]
  unfold bodyTurn Turn.choosing chooseStep
  rw [Parse.bind_apply]
  dsimp only [Parse.peek]
  generalize p.cursor.peek = token
  cases hk : token.kind with
  | leftParen =>
    dsimp only
    rw [Parse.bind_apply, hsecond]
    dsimp only
    split <;> rfl
  | _ => cases opened <;> cases nested <;> rfl

variable {more : Prop} {subquery : Parse Kind Trees} {nested : Bool}

/-- What a turn is chosen to do is made of regular parts, and it never goes on at the end. -/
theorem chooseStep_again {opened opened' : List (Token Kind)} {token : Token Kind} {after : Kind}
    {part : Parse Kind Trees} (hs : Regular True true subquery)
    (h : chooseStep subquery nested opened token after = .again part opened') :
    token.kind ≠ .endOfInput ∧ Regular True true part := by
  unfold chooseStep at h
  cases hk : token.kind with
  | endOfInput | semicolon =>
    rw [hk] at h
    cases opened <;> cases nested <;> cases h
  | leftParen =>
    rw [hk] at h
    dsimp only at h
    refine ⟨by decide, ?_⟩
    split at h <;> cases h
    · exact hs
    · exact .any trivial
  | rightParen =>
    rw [hk] at h
    cases opened <;> cases nested <;> cases h <;> exact ⟨by decide, .any trivial⟩
  | _ =>
    rw [hk] at h
    cases h
    exact ⟨by decide, .any trivial⟩

/-- A turn after which a query ends by itself has found a fault. -/
theorem chooseStep_last {opened : List (Token Kind)} {token : Token Kind} {after : Kind}
    {part : Parse Kind Trees} (h : chooseStep subquery nested opened token after = .last part) :
    ∃ fault, part = Parse.failHere fault ∧ Fault.IgnoresChannels fault := by
  unfold chooseStep at h
  cases hk : token.kind with
  | endOfInput | semicolon | rightParen =>
    rw [hk] at h
    cases opened <;> cases nested <;> cases h <;> exact ⟨_, rfl, inferInstance⟩
  | leftParen =>
    rw [hk] at h
    dsimp only at h
    split at h <;> cases h
  | _ =>
    rw [hk] at h
    cases h

theorem body_regular (hs : Regular True true subquery) :
    Regular more false (body subquery nested) := by
  unfold body
  rw [bodyTurn_eq_choosing]
  refine .repeating ?_ ?_ ?_ ?_
  · intro opened token after part h
    obtain ⟨fault, rfl, hignores⟩ := chooseStep_last h
    exact .failHere fault
  · exact fun opened token after part opened' h => (chooseStep_again hs h).1
  · exact fun opened token after part opened' h => (chooseStep_again hs h).2
  · intro opened token after channels hk
    rw [show TokenKind.endOfInput = Kind.endOfInput from rfl] at hk
    simp only [chooseStep, hk]

theorem subqueryWithin_regular (depth : Nat) : Regular more true (subqueryWithin depth) := by
  induction depth generalizing more with
  | zero =>
    exact .within <| .node <| .first (.leafOr (by decide)) <|
      .andThen (.leafOr (by decide)) .nothing
  | succ depth ih =>
    exact .within <| .node <| .first (.leafOr (by decide)) <| .andThen (body_regular ih) <|
      .andThen (.leafOr (by decide)) .nothing

theorem query_regular : Regular True false query := by
  have hsplit : query = Parse.within "query" (byKind fun kind =>
      if kind = .kwSelect || kind = .kwDrop then
        Parse.remaining >>= fun n => node .query [body (subqueryWithin n) false]
      else Parse.unexpected "`ВЫБРАТЬ` or `УНИЧТОЖИТЬ`") := rfl
  rw [hsplit]
  refine .within <| .byKind fun kind => ?_
  split
  · exact .counting fun n => .node <| .perhaps (body_regular (subqueryWithin_regular n)) .nothing
  · exact .failHere _

/-- The word that a query begins with is taken by the first turn. -/
theorem body_takes {p q : Parser Kind} {trees : Trees}
    (hk : p.cursor.peek.kind = .kwSelect ∨ p.cursor.peek.kind = .kwDrop)
    (hr : body subquery false p = .ok trees q) : Tree.leavesOf trees ≠ [] := by
  have hchoose : chooseStep subquery false [] p.cursor.peek (p.cursor.peekNth 1).kind =
      .again any [] := by
    unfold chooseStep
    rcases hk with hk | hk <;> rw [hk]
  unfold body at hr
  rw [bodyTurn_eq_choosing] at hr
  have hturns := repeatUpTo_succ_eq_ok (repeating_eq_ok hr)
  unfold Turn.choosing at hturns
  rw [hchoose] at hturns
  obtain hlast | ⟨first, again, r, others, hfirst, -, rfl⟩ := hturns
  · cases hlast
  · cases hfirst
    exact List.cons_ne_nil _ _

/-- A query takes at least one token. -/
theorem query_reads : Parse.Reads Tree.leavesOf True true query := by
  intro p q trees hv hm hr
  refine ⟨(query_regular.reads hv hm hr).1, fun _ => ?_⟩
  obtain ⟨r, hquery, -⟩ := Parse.within_eq_ok.1 hr
  obtain ⟨kind, p', hkind, hquery⟩ := Parse.bind_eq_ok.1 hquery
  cases hkind
  split at hquery
  · rename_i hk
    obtain ⟨n, p', hn, hquery⟩ := Parse.bind_eq_ok.1 hquery
    cases hn
    obtain ⟨children, hchildren, rfl⟩ := node_eq_ok hquery
    have hne := body_takes (by simpa using hk) (inOrder_singleton_eq_ok hchildren)
    simpa [Tree.leavesOf, Tree.leaves] using hne
  · cases hquery

end BuiltInScript.Query
