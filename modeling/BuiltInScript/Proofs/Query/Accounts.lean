import BuiltInScript.Proofs.Parsing.Accounts
import BuiltInScript.Query.Grammar

/-!
# Queries account for their faults

A query is a loop over its tokens in which the opening brackets are remembered, so a bracket that is
not closed is one that was seen. A query is the only rule of a package that is recovered from, and
never where a `;` is next.

**Results.**
* `bodyTurn_accounts`: what a turn of the loop owes, and which brackets it remembers.
* `query_accounts`: no query fails in silence or loses sight of a fault.
-/
namespace BuiltInScript.Query

open BuiltInScript.Part
open BuiltInScript.Parse (Accounts)

variable {Q : Token Kind → Prop} {subquery : Parse Kind Trees}

/-- Opening brackets that were seen. -/
abbrev Opened (Q : Token Kind → Prop) (opened : List (Token Kind)) : Prop := ∀ t ∈ opened, Q t

/-- A turn that ends the loop has failed, or has reported nothing. -/
theorem stop_accounts : Accounts Q (ShowsTurn (Opened Q)) (pure (([] : Trees), none)) :=
  .pure ⟨.nil, fun _ h => nomatch h⟩

/-- A turn that goes on after a part. -/
theorem again_accounts {part : Parse Kind Trees} {opened : List (Token Kind)}
    (h : Accounts Q Shows part) (ho : Opened Q opened) :
    Accounts Q (ShowsTurn (Opened Q)) (do return (← part, some opened)) :=
  h.map fun _ _ hs => ⟨hs, fun _ hstate => Option.some.inj hstate ▸ ho⟩

theorem bodyTurn_accounts (hs : Accounts Q Shows subquery) (nested : Bool)
    {opened : List (Token Kind)} (ho : Opened Q opened) :
    Accounts Q (ShowsTurn (Opened Q)) (bodyTurn subquery nested opened) := by
  have hunexpected (wanted : String) : Accounts Q (ShowsTurn (Opened Q))
      (Parse.unexpected wanted : Parse Kind (Trees × Option (List (Token Kind)))) :=
    .failHere fun _ h => List.forall_mem_singleton.2 h
  refine Accounts.peek.bind fun token ds hpeek => ?_
  obtain ⟨htoken, rfl⟩ := hpeek
  split
  -- A query may end here, where brackets must not be open.
  case h_1 | h_2 =>
    cases opened with
    | cons opener outer =>
      exact .failHere fun _ h => List.forall_mem_cons.2
        ⟨h, List.forall_mem_singleton.2 (ho opener List.mem_cons_self)⟩
    | nil =>
      cases nested
      · exact stop_accounts
      · exact hunexpected _
  · refine (Accounts.lookahead 1).bind fun second ds hsecond => ?_
    obtain ⟨-, rfl⟩ := hsecond
    split
    · exact again_accounts hs ho
    · exact again_accounts accounts_any (List.forall_mem_cons.2 ⟨htoken, ho⟩)
  · cases opened with
    | cons opener outer => exact again_accounts accounts_any (List.forall_mem_cons.1 ho).2
    | nil =>
      cases nested
      · exact hunexpected _
      · exact stop_accounts
  · exact again_accounts accounts_any ho

theorem body_accounts (hs : Accounts Q Shows subquery) (nested : Bool) :
    Accounts Q Shows (body subquery nested) :=
  accounts_repeating (fun _ ho => bodyTurn_accounts hs nested ho) (List.forall_mem_nil _)

/-- Subqueries of any depth, by induction on it. -/
theorem subqueryWithin_accounts (depth : Nat) : Accounts Q Shows (subqueryWithin depth) := by
  induction depth with
  | zero =>
    exact .within <| accounts_node _ <| accounts_inOrder_cons (accounts_leaf _) <|
      accounts_inOrder_cons (accounts_leaf _) accounts_nothing
  | succ depth ih =>
    exact .within <| accounts_node _ <| accounts_inOrder_cons (accounts_leaf _) <|
      accounts_inOrder_cons (body_accounts ih true) <|
      accounts_inOrder_cons (accounts_leaf _) accounts_nothing

theorem query_accounts : Accounts Q Shows query := by
  have hpart (kind : Kind) : Accounts Q Shows (
      if kind = .kwSelect || kind = .kwDrop then
        Parse.remaining >>= fun n => node .query [body (subqueryWithin n) false]
      else Parse.unexpected "`ВЫБРАТЬ` or `УНИЧТОЖИТЬ`") := by
    split
    · exact accounts_counting fun n => accounts_node _ <|
        accounts_inOrder_cons (body_accounts (subqueryWithin_accounts n) false) accounts_nothing
    · exact accounts_unexpected _
  exact .within (accounts_byKind hpart)

end BuiltInScript.Query
