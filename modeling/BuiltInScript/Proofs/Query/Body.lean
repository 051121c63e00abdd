import BuiltInScript.Proofs.Parsing.Loops
import BuiltInScript.Proofs.Query.Brackets
import BuiltInScript.Proofs.Query.Regular

/-!
# What a query reads

Between two `;`, the rule of a query reads a token list if the list begins as a query does and its
brackets are balanced, and fails with one error otherwise. It matches plain brackets by a list of
those that are open, and subqueries by recursion; both come to the same as a `Nest`.

**Results.**
* `Nest.walks`: the turns of a query pass a nest, whatever brackets are open around it.
* `Unclosed.fails`: within a bracket that is not closed, they fail at the stop.
* `takes_query`, `fails_query`: so a query is read if it is well-formed, and otherwise it fails with
  an error that depends on its tokens and the stop only.
-/
namespace BuiltInScript.Query

open BuiltInScript.Part
open BuiltInScript.Parse (Takes Fails)

variable {subquery : Parse Kind Trees} {nested : Bool} {opened : List (Token Kind)}
  {o c t stop : Token Kind} {tokens : List (Token Kind)} {follow : List (Token Kind) → Prop}
  {scopes : List String}

/-! ## Turns that pass something -/

theorem bodyTurn_apply {p : Parser Kind} {rest : List (Token Kind)} (hp : p.Faces (t :: rest)) :
    bodyTurn subquery nested opened p =
      (chooseStep subquery nested opened t (rest.headD p.cursor.marker).kind).run p := by
  rw [bodyTurn_eq_choosing, Turn.choosing, hp.peek_cons, Cursor.peekNth, hp.ahead]
  cases rest <;> rfl

/-- A turn that passes a token. -/
theorem takes_turn {opened' : List (Token Kind)}
    (h : t.isEnd = false → ∀ rest, follow rest → ∀ marker : Token Kind, marker.isEnd = true →
      chooseStep subquery nested opened t (rest.headD marker).kind = .again any opened') :
    Takes (bodyTurn subquery nested opened) [t] ([.token t], some opened') follow := by
  intro p rest hp hfollow
  have hchoose := h (hp.not_isEnd (by simp)) rest hfollow _ hp.valid.isEnd_marker
  rw [bodyTurn_apply (show p.Faces (t :: rest) from hp), hchoose]
  exact (takes_any t).map (fun trees => (trees, some opened')) hp hfollow

theorem takes_plain (hplain : t.kind ≠ .leftParen ∧ t.kind ≠ .rightParen)
    (hstop : t.kind ≠ .semicolon) :
    Takes (bodyTurn subquery nested opened) [t] ([.token t], some opened) follow := by
  refine takes_turn fun hend rest _ marker _ => ?_
  have hend : t.kind ≠ .endOfInput := by simpa [Token.isEnd, TokenKind.endOfInput] using hend
  unfold chooseStep
  split <;> simp_all

theorem takes_opener (ho : o.kind = .leftParen) :
    Takes (bodyTurn subquery nested opened) [o] ([.token o], some (o :: opened))
      (beginsWith .kwSelect · = false) := by
  refine takes_turn fun _ rest hrest marker hmarker => ?_
  have hafter : (rest.headD marker).kind ≠ .kwSelect := by
    cases rest with
    | nil =>
      intro hk
      have hmarker : marker.kind = .endOfInput := by
        simpa [Token.isEnd, TokenKind.endOfInput] using hmarker
      cases hmarker.symm.trans hk
    | cons s ts => simpa [beginsWith] using hrest
  unfold chooseStep
  rw [ho]
  exact if_neg hafter

theorem takes_closer (hc : c.kind = .rightParen) :
    Takes (bodyTurn subquery nested (o :: opened)) [c] ([.token c], some opened) follow := by
  refine takes_turn fun _ rest _ marker _ => ?_
  unfold chooseStep
  rw [hc]

theorem chooseStep_subquery (ho : o.kind = .leftParen) (hs : beginsWith .kwSelect tokens)
    (rest : List (Token Kind)) (marker : Token Kind) :
    chooseStep subquery nested opened o ((tokens ++ rest).headD marker).kind =
      .again subquery opened := by
  cases tokens with
  | nil => cases hs
  | cons s ts =>
    unfold chooseStep
    rw [ho]
    exact if_pos (by simpa [beginsWith] using hs)

theorem takes_subquery {tree : Tree Rule Kind} (ho : o.kind = .leftParen)
    (hs : beginsWith .kwSelect tokens) (h : Takes subquery (o :: tokens) [tree] follow) :
    Takes (bodyTurn subquery nested opened) (o :: tokens) ([tree], some opened) follow := by
  intro p rest hp hfollow
  rw [bodyTurn_apply (show p.Faces (o :: (tokens ++ rest)) from hp), chooseStep_subquery ho hs]
  exact h.map (fun trees => (trees, some opened)) hp hfollow

/-! ## The last turn -/

theorem takes_end_nested :
    Takes (bodyTurn subquery true []) [] ([], none) (beginsWith .rightParen · = true) := by
  intro p rest hp hrest
  cases rest with
  | nil => cases hrest
  | cons c ts =>
    have hc : c.kind = .rightParen := by simpa [beginsWith] using hrest
    rw [bodyTurn_apply hp]
    unfold chooseStep
    rw [hc]
    rfl

theorem takes_end :
    Takes (bodyTurn subquery false []) [] ([], none) fun rest =>
      ∀ t ∈ rest.head?, t.kind = .semicolon := by
  intro p rest hp hrest
  have hpeek : p.cursor.peek.kind = .endOfInput ∨ p.cursor.peek.kind = .semicolon := by
    cases rest with
    | nil => exact .inl (hp.valid.peek_kind_eq_end_iff.2 hp.ahead)
    | cons t ts => exact .inr (hp.peek_cons ▸ hrest t rfl)
  rw [bodyTurn_eq_choosing, Turn.choosing]
  unfold chooseStep
  rcases hpeek with hk | hk <;> rw [hk] <;> rfl

/-! ## Turns that fail -/

theorem fails_turn (fault : Token Kind → Fault Kind)
    (h : ∀ subquery after, chooseStep subquery nested opened (tokens.headD stop) after =
      .last (Parse.failHere fault)) :
    ∃ d : Diagnostic, d.isError = true ∧
      ∀ subquery, Fails (bodyTurn subquery nested opened) scopes tokens stop d := by
  refine ⟨(fault (tokens.headD stop)).diagnostic.withNote (Parse.traceback scopes), rfl,
    fun subquery p hs hp => ?_⟩
  rw [bodyTurn_eq_choosing, Turn.choosing, hp.peek, h]
  exact (Fails.failHere fault).bind hs hp

/-- At the stop something is still open. -/
theorem fails_stop (hstop : stop.kind = .semicolon ∨ stop.kind = .endOfInput)
    (hopen : opened ≠ [] ∨ nested = true) :
    ∃ d : Diagnostic, d.isError = true ∧
      ∀ subquery, Fails (bodyTurn subquery nested opened) scopes [] stop d := by
  cases opened with
  | cons opener outer =>
    refine fails_turn (fun found => .unclosedBracket .rightParen found opener) fun _ after => ?_
    unfold chooseStep
    rcases hstop with hk | hk <;> simp only [List.headD_nil, hk]
  | nil =>
    refine fails_turn (.unexpected "`)`") fun _ after => ?_
    unfold chooseStep
    rcases hstop with hk | hk <;> simp only [List.headD_nil, hk] <;> simp_all [Parse.unexpected]

/-- Nothing is open that a bracket could close. -/
theorem fails_early (hc : c.kind = .rightParen) :
    ∃ d : Diagnostic, d.isError = true ∧
      ∀ subquery, Fails (bodyTurn subquery false []) scopes (c :: tokens) stop d := by
  refine fails_turn (.unexpected "`;`") fun _ after => ?_
  unfold chooseStep
  simp only [List.headD_cons, hc]
  rfl

theorem fails_subquery {d : Diagnostic} (ho : o.kind = .leftParen)
    (hs : beginsWith .kwSelect tokens) (h : Fails subquery scopes (o :: tokens) stop d) :
    Fails (bodyTurn subquery nested opened) scopes (o :: tokens) stop d := by
  intro p hscopes hp
  obtain ⟨rest, hfaces, -⟩ := hp.faces
  rw [bodyTurn_apply (show p.Faces (o :: (tokens ++ rest)) from hfaces), chooseStep_subquery ho hs]
  exact h.bind hscopes hp

/-! ## Nests are read -/

theorem takes_subqueryWithin {depth : Nat} {inner : Nest} (ho : o.kind = .leftParen)
    (hc : c.kind = .rightParen)
    (h : Walks (bodyTurn (subqueryWithin depth) true) inner.tokens inner.trees [] []
      fun _ => True) :
    Takes (subqueryWithin (depth + 1)) (o :: (inner.tokens ++ [c]))
      [.node .subquery (.token o :: (inner.trees ++ [.token c])) {}] follow := by
  have hbody : Takes (body (subqueryWithin depth) true) inner.tokens inner.trees
      (beginsWith .rightParen · = true) :=
    h.anywhere.takes_repeating takes_end_nested inner.length_trees_le
  have hcloser : Takes (inOrder [leaf .rightParen] : Parse Kind Trees) [c] [.token c] follow :=
    takes_inOrder_cons (takes_leaf hc) takes_inOrder_nil fun _ h => h
  have hrest := takes_inOrder_cons hbody hcloser fun rest _ => by simp [beginsWith, hc]
  have hopener : Takes (leaf .leftParen : Parse Kind Trees) [o] [.token o] fun _ => True :=
    takes_leaf ho
  exact (takes_node (takes_inOrder_cons hopener hrest fun _ _ => trivial)).within

/-- The turns of a query pass a nest, whatever is open around it. -/
theorem Nest.walks (nest : Nest) {depth : Nat} (hdepth : nest.tokens.length ≤ depth)
    (hstop : ∀ t ∈ nest.tokens, t.kind ≠ .semicolon) (nested : Bool)
    (opened : List (Token Kind)) :
    Walks (bodyTurn (subqueryWithin depth) nested) nest.tokens nest.trees opened opened
      fun _ => True := by
  induction nest generalizing depth nested opened with
  | done => exact .refl opened
  | token t plain rest ih =>
    have hturn : Takes (bodyTurn (subqueryWithin depth) nested opened) [t]
        ([.token t], some opened) fun _ => True := takes_plain plain (hstop t (by simp [tokens]))
    have hrest := ih (Nat.le_of_succ_le hdepth) (fun u hu => hstop u (by simp [tokens, hu]))
      nested opened
    exact (Walks.of_turn hturn).trans hrest fun _ _ => trivial
  | bracket o c ho hc inner rest ihInner ihRest =>
    have hlen : inner.tokens.length + rest.tokens.length + 2 ≤ depth := by
      simp [tokens] at hdepth
      omega
    have hinner : ∀ t ∈ inner.tokens, t.kind ≠ .semicolon :=
      fun t ht => hstop t (by simp [tokens, ht])
    have hrest := ihRest (show rest.tokens.length ≤ depth by omega)
      (fun t ht => hstop t (by simp [tokens, ht])) nested opened
    have hbegins (more : List (Token Kind)) :
        beginsWith .kwSelect (inner.tokens ++ c :: more) = beginsWith .kwSelect inner.tokens :=
      beginsWith_append_cons (by rw [hc]; decide) _ _
    cases hs : beginsWith .kwSelect inner.tokens with
    | true =>
      obtain ⟨d, rfl⟩ : ∃ d, depth = d + 1 := ⟨depth - 1, by omega⟩
      have hin := ihInner (show inner.tokens.length ≤ d by omega) hinner true []
      have hturn : Takes (bodyTurn (subqueryWithin (d + 1)) nested opened) _ _ fun _ => True :=
        takes_subquery ho ((hbegins []).trans hs) (takes_subqueryWithin ho hc hin)
      simpa [tokens, trees, enclose, hs] using
        (Walks.of_turn hturn).trans hrest fun _ _ => trivial
    | false =>
      have hopen : Takes (bodyTurn (subqueryWithin depth) nested opened) _ _ _ := takes_opener ho
      have hin := ihInner (show inner.tokens.length ≤ depth by omega) hinner nested (o :: opened)
      have hclose : Takes (bodyTurn (subqueryWithin depth) nested (o :: opened)) _ _
        fun _ => True := takes_closer hc
      have hafter :=
        hin.trans ((Walks.of_turn hclose).trans hrest fun _ _ => trivial) fun _ _ => trivial
      have hall := (Walks.of_turn hopen).trans hafter fun more _ => by
        rw [List.append_assoc]
        exact (hbegins _).trans hs
      simpa [tokens, trees, enclose, hs] using hall

/-! ## Open brackets fail -/

/-- Where more brackets are open than the tokens close, the turns of a query fail at the stop. -/
def Unclosed.FailsWithin (rest : Unclosed) (stop : Token Kind) : Prop :=
  ∀ (nested : Bool) (opened : List (Token Kind)), opened ≠ [] ∨ nested = true →
    ∀ scopes : List String, ∃ d : Diagnostic, d.isError = true ∧
      ∀ depth n, rest.tokens.length ≤ depth → rest.tokens.length < n →
        Fails (repeatUpTo (bodyTurn (subqueryWithin depth) nested) n opened) scopes rest.tokens
          stop d

theorem fails_subqueryWithin {depth : Nat} {d : Diagnostic} (ho : o.kind = .leftParen)
    (h : ∀ n, tokens.length < n → Fails (repeatUpTo (bodyTurn (subqueryWithin depth) true) n [])
      (scopes ++ ["subquery"]) tokens stop d) :
    Fails (subqueryWithin (depth + 1)) scopes (o :: tokens) stop d := by
  have hbody : Fails (body (subqueryWithin depth) true) (scopes ++ ["subquery"]) tokens stop d :=
    Fails.remaining_bind fun n hn => h (n + 1) (Nat.lt_succ_of_le hn)
  have hopener : Takes (leaf .leftParen : Parse Kind Trees) [o] [.token o] fun _ => True :=
    takes_leaf ho
  exact (fails_node (Fails.after hopener (fun _ _ => trivial) hbody.bind.bind)).within

/-- An opening bracket after a nest, if what follows it is known to fail. -/
theorem fails_late (nest : Nest) (ho : o.kind = .leftParen) (rest : Unclosed)
    (hrest : rest.FailsWithin stop) (hkinds : ∀ t ∈ nest.tokens, t.kind ≠ .semicolon)
    (hstop : stop.kind ≠ .kwSelect) (nested : Bool) (opened : List (Token Kind))
    (scopes : List String) :
    ∃ d : Diagnostic, d.isError = true ∧
      ∀ depth n, (nest.tokens ++ o :: rest.tokens).length ≤ depth →
        (nest.tokens ++ o :: rest.tokens).length < n →
        Fails (repeatUpTo (bodyTurn (subqueryWithin depth) nested) n opened) scopes
          (nest.tokens ++ o :: rest.tokens) stop d := by
  -- The nest is passed, so what is left is to fail at the bracket.
  suffices ∃ d : Diagnostic, d.isError = true ∧
      ∀ depth n, rest.tokens.length < depth → rest.tokens.length + 1 < n →
        Fails (repeatUpTo (bodyTurn (subqueryWithin depth) nested) n opened) scopes
          (o :: rest.tokens) stop d by
    obtain ⟨d, hd, hfails⟩ := this
    refine ⟨d, hd, fun depth n hdepth hn => ?_⟩
    have hle := nest.length_trees_le
    rw [List.length_append, List.length_cons] at hdepth hn
    obtain ⟨k, rfl⟩ : ∃ k, n = nest.trees.length + k := ⟨n - nest.trees.length, by omega⟩
    have hnest := nest.walks (show nest.tokens.length ≤ depth by omega) hkinds nested opened
    exact hnest.fails (fun _ _ => trivial) (hfails depth k (by omega) (by omega))
  cases hs : beginsWith .kwSelect rest.tokens with
  | true =>
    obtain ⟨d, hd, hin⟩ := hrest true [] (.inr rfl) (scopes ++ ["subquery"])
    refine ⟨d, hd, fun depth n hdepth hn => ?_⟩
    obtain ⟨k, rfl⟩ : ∃ k, depth = k + 1 := ⟨depth - 1, by omega⟩
    obtain ⟨m, rfl⟩ : ∃ m, n = m + 1 := ⟨n - 1, by omega⟩
    have hsub := fails_subqueryWithin ho fun n hn => hin k n (Nat.le_of_lt_succ hdepth) hn
    exact fails_repeatUpTo (fails_subquery ho hs hsub) m
  | false =>
    obtain ⟨d, hd, hin⟩ := hrest nested (o :: opened) (.inl nofun) scopes
    refine ⟨d, hd, fun depth n hdepth hn => ?_⟩
    obtain ⟨m, rfl⟩ : ∃ m, n = 1 + m := ⟨n - 1, by omega⟩
    have hopen : Takes (bodyTurn (subqueryWithin depth) nested opened) _ _ _ := takes_opener ho
    refine (Walks.of_turn hopen).fails (fun more hmore => ?_)
      (hin depth m (Nat.le_of_lt hdepth) (by omega))
    cases ht : rest.tokens with
    | cons t ts => simpa [beginsWith, ht] using hs
    | nil =>
      cases more with
      | nil => rfl
      | cons t ts => simpa [beginsWith, hmore t rfl] using hstop

theorem Unclosed.fails (rest : Unclosed) (hkinds : ∀ t ∈ rest.tokens, t.kind ≠ .semicolon)
    (hstop : stop.kind = .semicolon ∨ stop.kind = .endOfInput) : rest.FailsWithin stop := by
  have hselect : stop.kind ≠ .kwSelect := by rcases hstop with hk | hk <;> rw [hk] <;> decide
  induction rest with
  | last nest =>
    intro nested opened hopen scopes
    obtain ⟨d, hd, hlast⟩ := fails_stop hstop hopen
    refine ⟨d, hd, fun depth n hdepth hn => ?_⟩
    have hle := nest.length_trees_le
    obtain ⟨k, rfl⟩ : ∃ k, n = nest.trees.length + (k + 1) :=
      ⟨n - nest.trees.length - 1, by simp only [tokens] at hn; omega⟩
    have hall := (nest.walks hdepth hkinds nested opened).fails (fun _ _ => trivial)
      (fails_repeatUpTo (hlast (subqueryWithin depth)) k)
    simpa [tokens] using hall
  | deeper nest o ho rest ih =>
    intro nested opened _ scopes
    exact fails_late nest ho rest (ih fun t ht => hkinds t (by simp [tokens, ht]))
      (fun t ht => hkinds t (by simp [tokens, ht])) hselect nested opened scopes

/-! ## Queries -/

theorem beginsQuery_cons :
    BeginsQuery (t :: tokens) ↔ (t.kind = .kwSelect || t.kind = .kwDrop) = true := by
  simp [BeginsQuery, beginsWith]

/-- A well-formed query is read, and makes one node. -/
theorem takes_query {nest : Nest} (hbegins : BeginsQuery nest.tokens)
    (hkinds : ∀ t ∈ nest.tokens, t.kind ≠ .semicolon) :
    Takes query nest.tokens [.node .query nest.trees {}] fun rest =>
      ∀ t ∈ rest.head?, t.kind = .semicolon := by
  have hnode (n : Nat) (hn : nest.tokens.length ≤ n) :
      Takes (node .query [body (subqueryWithin n) false]) nest.tokens [.node .query nest.trees {}]
        fun rest => ∀ t ∈ rest.head?, t.kind = .semicolon := by
    have hbody : Takes (body (subqueryWithin n) false) nest.tokens nest.trees fun rest =>
        ∀ t ∈ rest.head?, t.kind = .semicolon :=
      (nest.walks hn hkinds false []).anywhere.takes_repeating takes_end nest.length_trees_le
    have hparts := takes_inOrder_cons hbody takes_inOrder_nil fun _ h => h
    rw [List.append_nil, List.append_nil] at hparts
    exact takes_node hparts
  generalize nest.tokens = tokens at hbegins hnode ⊢
  cases tokens with
  | nil => simp [BeginsQuery, beginsWith] at hbegins
  | cons t ts =>
    refine Takes.within (Takes.peekKind_bind ?_)
    rw [if_pos (beginsQuery_cons.1 hbegins)]
    exact Takes.remaining_bind hnode

/-- Brackets that are not balanced make a query fail. -/
theorem fails_body (hbalanced : ¬ Balanced tokens) (hkinds : ∀ t ∈ tokens, t.kind ≠ .semicolon)
    (hstop : stop.kind = .semicolon ∨ stop.kind = .endOfInput) (scopes : List String) :
    ∃ d : Diagnostic, d.isError = true ∧ ∀ depth, tokens.length ≤ depth →
      Fails (body (subqueryWithin depth) false) scopes tokens stop d := by
  -- A loop may take one turn more than there are tokens.
  suffices ∃ d : Diagnostic, d.isError = true ∧
      ∀ depth n, tokens.length ≤ depth → tokens.length < n →
        Fails (repeatUpTo (bodyTurn (subqueryWithin depth) false) n []) scopes tokens stop d by
    obtain ⟨d, hd, hfails⟩ := this
    exact ⟨d, hd, fun depth hdepth => Fails.remaining_bind fun n hn =>
      hfails depth (n + 1) hdepth (Nat.lt_succ_of_le hn)⟩
  cases bracketing tokens with
  | matched nest => exact absurd nest.balanced hbalanced
  | early nest c hc rest =>
    obtain ⟨d, hd, hfails⟩ := fails_early hc
    refine ⟨d, hd, fun depth n hdepth hn => ?_⟩
    have hle := nest.length_trees_le
    rw [List.length_append, List.length_cons] at hdepth hn
    obtain ⟨k, rfl⟩ : ∃ k, n = nest.trees.length + (k + 1) :=
      ⟨n - nest.trees.length - 1, by omega⟩
    have hnest := nest.walks (show nest.tokens.length ≤ depth by omega)
      (fun t ht => hkinds t (by simp [ht])) false []
    exact hnest.fails (fun _ _ => trivial) (fails_repeatUpTo (hfails (subqueryWithin depth)) k)
  | late nest o ho rest =>
    have hrest := rest.fails (fun t ht => hkinds t (by simp [ht])) hstop
    have hselect : stop.kind ≠ .kwSelect := by rcases hstop with hk | hk <;> rw [hk] <;> decide
    exact fails_late nest ho rest hrest (fun t ht => hkinds t (by simp [ht])) hselect false []
      scopes

/-- A malformed query fails. -/
theorem fails_query (h : Malformed tokens) (hkinds : ∀ t ∈ tokens, t.kind ≠ .semicolon)
    (hstop : stop.kind = .semicolon ∨ stop.kind = .endOfInput) (scopes : List String) :
    ∃ d : Diagnostic, d.isError = true ∧ Fails query scopes tokens stop d := by
  obtain ⟨hne, hmalformed⟩ := h
  cases tokens with
  | nil => exact absurd rfl hne
  | cons t ts =>
    by_cases hbegins : BeginsQuery (t :: ts)
    · obtain ⟨d, hd, hfails⟩ := fails_body (fun h => hmalformed ⟨hbegins, h⟩) hkinds hstop
        (scopes ++ ["query"])
      refine ⟨d, hd, Fails.within (Fails.peekKind_bind ?_)⟩
      rw [List.headD_cons, if_pos (beginsQuery_cons.1 hbegins)]
      exact Fails.remaining_bind fun n hn => fails_node (hfails n hn).bind
    · obtain ⟨d, hd, hfails⟩ : ∃ d : Diagnostic, d.isError = true ∧
          Fails (Parse.unexpected "`ВЫБРАТЬ` or `УНИЧТОЖИТЬ`" : Parse Kind Trees)
            (scopes ++ ["query"]) (t :: ts) stop d := ⟨_, rfl, Fails.failHere _⟩
      refine ⟨d, hd, Fails.within (Fails.peekKind_bind ?_)⟩
      rw [List.headD_cons, if_neg (mt beginsQuery_cons.2 hbegins)]
      exact hfails

end BuiltInScript.Query
