import BuiltInScript.Proofs.Languages
import BuiltInScript.Proofs.Parsing.Reports
import BuiltInScript.Proofs.Query.Body

/-!
# What a package is read as

A package is cut at every `;`. What becomes of a piece depends on its own tokens only, and on the
`;` or the end marker where a fault may be noticed: a fault costs the piece that it is in, and
nothing else.

**Results.**
* `itemTurns`: the turns of a package go through the pieces one by one.
* `parseGeneral_package`, `mode_parse_iff`: what general prediction makes of them, and when
  optimistic prediction is enough.
* `package_exact`: the tree, the diagnostics and the mode of a parse, told piece by piece.
-/
namespace BuiltInScript

theorem Parser.Faces.reporting {K : Type} [DecidableEq K] [TokenKind K] {p : Parser K}
    {tokens : List (Token K)} (h : p.Faces tokens) (ds : List Diagnostic) :
    (p.reporting ds).Faces tokens := ⟨h.valid, h.ahead⟩

namespace Query

open BuiltInScript.Part
open BuiltInScript.Parse (Takes Fails)

/-! ## The pieces of a package -/

/-- A piece of a package, and the `;` or the end marker after it. -/
structure Segment where
  tokens : List (Token Kind)
  stop : Token Kind

/-- A package cut at every `;`. -/
def segments (marker : Token Kind) : List (Token Kind) → List Segment
  | [] => [⟨[], marker⟩]
  | t :: ts =>
    if t.kind = .semicolon then ⟨[], t⟩ :: segments marker ts
    else (segments marker ts).modifyHead fun s => { s with tokens := t :: s.tokens }

/-- The tree of a query over these tokens: none of them is an error, and the nodes within it are
the subqueries. -/
structure IsQuery (tokens : List (Token Kind)) (tree : Tree Rule Kind) : Prop where
  leaves : tree.leaves = tokens
  hasErrors : tree.hasErrors = false
  extents : tree.extents 0 = ⟨.query, 0, tokens.length⟩ :: subqueries 0 tokens

/-- What may become of a piece: its trees and what is reported about it. -/
inductive Outcome (tokens : List (Token Kind)) : Trees → List Diagnostic → Prop
  | nothing : tokens = [] → Outcome tokens [] []
  | query {tree : Tree Rule Kind} :
      WellFormed tokens → IsQuery tokens tree → Outcome tokens [tree] []
  | errors {d : Diagnostic} : Malformed tokens → d.isError = true →
      Outcome tokens (tokens.map .error) [d]

/-- A parse that is told piece by piece. -/
structure ToldBy (made : List (Token Kind) → Trees) (reported : Segment → List Diagnostic)
    (pieces : List Segment) (parsed : Parsed Rule Kind) : Prop where
  outcome : ∀ s ∈ pieces, Outcome s.tokens (made s.tokens) (reported s)
  tree : parsed.tree =
    { rule := .package, children := pieces.flatMap fun s => made s.tokens ++ [.token s.stop] }
  diagnostics : parsed.diagnostics = pieces.flatMap reported
  errorCount : parsed.errorCount = pieces.countP fun s => Malformed s.tokens
  mode : parsed.mode = .optimistic ↔ ∀ s ∈ pieces, ¬ Malformed s.tokens

/-! ## Cutting -/

/-- No `;` is in the piece, and one is after it, unless it is the last. -/
structure Segment.Proper (s : Segment) : Prop where
  plain : ∀ t ∈ s.tokens, t.kind ≠ .semicolon
  stops : s.stop.kind = .semicolon ∨ s.stop.kind = .endOfInput

variable {marker stop : Token Kind} {first rest : List (Token Kind)}

theorem segments_append (h : ∀ t ∈ first, t.kind ≠ .semicolon) :
    segments marker (first ++ rest) =
      (segments marker rest).modifyHead fun s => { s with tokens := first ++ s.tokens } := by
  induction first with
  | nil => cases hs : segments marker rest <;> simp [hs]
  | cons t ts ih =>
    rw [List.cons_append, segments, if_neg (h t (by simp)), ih fun u hu => h u (by simp [hu])]
    cases segments marker rest <;> rfl

theorem segments_last (h : ∀ t ∈ first, t.kind ≠ .semicolon) :
    segments marker first = [⟨first, marker⟩] := by
  have hall : segments marker (first ++ []) = _ := segments_append h
  simpa [segments] using hall

theorem segments_next (h : ∀ t ∈ first, t.kind ≠ .semicolon) (hstop : stop.kind = .semicolon) :
    segments marker (first ++ stop :: rest) = ⟨first, stop⟩ :: segments marker rest := by
  rw [segments_append h, segments, if_pos hstop]
  simp

/-- Every package is its first piece, or that and a `;` and more. -/
inductive Cut : List (Token Kind) → Prop
  | last (first : List (Token Kind)) (plain : ∀ t ∈ first, t.kind ≠ .semicolon) : Cut first
  | next (first rest : List (Token Kind)) (stop : Token Kind)
      (plain : ∀ t ∈ first, t.kind ≠ .semicolon) (stops : stop.kind = .semicolon) :
      Cut (first ++ stop :: rest)

theorem cut (tokens : List (Token Kind)) : Cut tokens := by
  induction tokens with
  | nil => exact .last [] (by simp)
  | cons t ts ih =>
    by_cases ht : t.kind = .semicolon
    · exact .next [] ts t (by simp) ht
    · cases ih with
      | last first plain => exact .last _ (by simpa [ht] using plain)
      | next first rest stop plain stops =>
        exact .next (t :: first) rest stop (by simpa [ht] using plain) stops

theorem proper_of_mem (hmarker : marker.kind = .endOfInput) (tokens : List (Token Kind)) :
    ∀ s ∈ segments marker tokens, s.Proper := by
  induction hn : tokens.length using Nat.strong_induction_on generalizing tokens with
  | _ n ih =>
    subst hn
    cases cut tokens with
    | last first plain =>
      rw [segments_last plain]
      simpa using ⟨plain, .inr hmarker⟩
    | next first rest stop plain stops =>
      rw [segments_next plain stops]
      have hrest := ih rest.length (by simp; omega) rest rfl
      simpa using ⟨⟨plain, .inl stops⟩, hrest⟩

/-! ## What becomes of a piece -/

/-- What the rule of a query does at a piece, with what comes of it. -/
inductive Segment.Behaves (s : Segment) : Trees → List Diagnostic → Prop
  | nothing : s.tokens = [] → Behaves s [] []
  | query {tree : Tree Rule Kind} : WellFormed s.tokens → IsQuery s.tokens tree →
      (Takes query s.tokens [tree] fun rest => ∀ t ∈ rest.head?, t.kind = .semicolon) →
      Behaves s [tree] []
  | errors {d : Diagnostic} : Malformed s.tokens → d.isError = true →
      Fails query ["query_package"] s.tokens s.stop d → Behaves s (s.tokens.map .error) [d]

theorem Segment.Behaves.outcome {s : Segment} {trees : Trees} {ds : List Diagnostic}
    (h : s.Behaves trees ds) : Outcome s.tokens trees ds := by
  cases h with
  | nothing hnil => exact .nothing hnil
  | query hwell htree _ => exact .query hwell htree
  | errors hmal hd _ => exact .errors hmal hd

/-- A tree holds at least one token. -/
theorem Segment.Behaves.length_le {s : Segment} {trees : Trees} {ds : List Diagnostic}
    (h : s.Behaves trees ds) : trees.length ≤ s.tokens.length := by
  cases h with
  | nothing => exact Nat.zero_le _
  | query hwell => exact List.length_pos_iff.2 hwell.ne_nil
  | errors => exact (List.length_map ..).le

theorem isQuery_nest (nest : Nest) : IsQuery nest.tokens (.node .query nest.trees {}) where
  leaves := nest.leavesOf_trees
  hasErrors := nest.anyErrors_trees
  extents := by rw [Tree.extents, nest.leavesOf_trees, nest.extentsOf_trees]

/-- The trees of a piece are known from its tokens alone. -/
theorem exists_trees (tokens : List (Token Kind)) :
    ∃ trees, ∀ stop, Segment.Proper ⟨tokens, stop⟩ →
      ∃ ds, Segment.Behaves ⟨tokens, stop⟩ trees ds := by
  by_cases hnil : tokens = []
  · exact ⟨[], fun stop _ => ⟨[], .nothing hnil⟩⟩
  · by_cases hwell : WellFormed tokens
    · obtain ⟨nest, rfl⟩ := hwell.balanced.exists_nest
      exact ⟨_, fun stop h => ⟨[], .query hwell (isQuery_nest nest)
        (takes_query hwell.begins h.plain)⟩⟩
    · refine ⟨tokens.map .error, fun stop h => ?_⟩
      obtain ⟨d, hd, hfails⟩ := fails_query ⟨hnil, hwell⟩ h.plain h.stops ["query_package"]
      exact ⟨[d], .errors ⟨hnil, hwell⟩ hd hfails⟩

theorem exists_behaviour :
    ∃ (made : List (Token Kind) → Trees) (reported : Segment → List Diagnostic),
      ∀ s : Segment, s.Proper → s.Behaves (made s.tokens) (reported s) := by
  choose made hmade using exists_trees
  have hreported (s : Segment) : ∃ ds, s.Proper → s.Behaves (made s.tokens) ds := by
    by_cases h : s.Proper
    · obtain ⟨ds, hds⟩ := hmade s.tokens s.stop h
      exact ⟨ds, fun _ => hds⟩
    · exact ⟨[], fun h' => absurd h' h⟩
  choose reported hbehaves using hreported
  exact ⟨made, reported, hbehaves⟩

/-! ## Turns of a package -/

section
variable {p q : Parser Kind} {trees : Trees} {ds : List Diagnostic} {n : Nat}
  {follow : List (Token Kind) → Prop}

/-- The turns of a package. -/
def turns (n : Nat) : Parse Kind Trees := repeatUpTo (fun _ : Unit => itemTurn packageItem) n ()

theorem turns_again (h : itemTurn packageItem p = .ok (trees, some ()) q) (n : Nat) :
    turns (n + 1) p = (turns n >>= fun others => pure (trees ++ others)) q :=
  repeatUpTo_again h n

theorem itemTurn_first (hp : p.Faces (first ++ rest)) (hne : first ≠ [])
    (plain : ∀ t ∈ first, t.kind ≠ .semicolon) (h : recovering querySync query p = .ok trees q) :
    itemTurn packageItem p = .ok (trees, some ()) q := by
  obtain ⟨t, ts, rfl⟩ := List.exists_cons_of_ne_nil hne
  have hend : t.kind ≠ TokenKind.endOfInput := by
    simpa [Token.isEnd] using hp.not_isEnd (List.mem_cons_self ..)
  unfold itemTurn
  rw [Parse.bind_apply, Parse.peekKind, hp.peek_cons]
  dsimp only
  rw [if_neg hend, packageItem, if_neg (plain t (by simp)), Parse.bind_apply, h]
  rfl

theorem takes_stop (hstop : stop.kind = .semicolon) :
    Takes (itemTurn packageItem) [stop] ([.token stop], some ()) follow := by
  intro p rest hp _
  unfold itemTurn
  rw [Parse.bind_apply, Parse.peekKind, hp.peek_cons]
  dsimp only
  rw [if_neg (by rw [hstop]; decide), packageItem, if_pos hstop, Parse.bind_apply, any,
    hp.peek_cons]
  rfl

/-- At the end there is one turn. -/
theorem turns_end (hp : p.Faces []) (hn : 0 < n) :
    turns n p = .ok [.token p.cursor.marker] (p.skip 1) := by
  obtain ⟨m, rfl⟩ : ∃ m, n = m + 1 := ⟨n - 1, by omega⟩
  have hend : p.cursor.peek.kind = TokenKind.endOfInput :=
    hp.valid.peek_kind_eq_end_iff.2 hp.ahead
  rw [turns, repeatUpTo, Parse.bind_apply, itemTurn, Parse.bind_apply, Parse.peekKind]
  dsimp only
  rw [if_pos hend, Parse.bind_apply, any, hp.peek]
  rfl

/-- Turns pass a piece that nothing is reported about. -/
theorem walks_piece (hb : Segment.Behaves ⟨first, stop⟩ trees [])
    (plain : ∀ t ∈ first, t.kind ≠ .semicolon) :
    Walks (fun _ => itemTurn packageItem) first trees () () fun rest =>
      ∀ t ∈ rest.head?, t.kind = .semicolon := by
  cases hb with
  | nothing hnil => exact (show first = [] from hnil) ▸ .refl ()
  | query hwell htree htakes =>
    refine .of_turn fun p rest hp hrest => ?_
    exact itemTurn_first hp hwell.ne_nil plain (recovering_of_ok (htakes hp hrest))

/-- Recovery skips the piece, and takes the `;` after it. -/
theorem leaves_first (held : Bool) (plain : ∀ t ∈ first, t.kind ≠ .semicolon)
    (more : List (Token Kind)) :
    Recovery.leaves (R := Rule) querySync held (first ++ more) =
      first.map .error ++
        Recovery.leaves (R := Rule) querySync (held && first.isEmpty) more := by
  induction first generalizing held with
  | nil => simp
  | cons t ts ih =>
    have hskip : querySync t.kind = .skip := if_neg (plain t (by simp))
    simp [Recovery.leaves, hskip, ih false fun u hu => plain u (by simp [hu])]

/-- A turn that fails skips the piece, and the `;` if there is one. -/
theorem turn_malformed {d : Diagnostic} (hmal : Malformed first)
    (hfails : Fails query ["query_package"] first stop d)
    (plain : ∀ t ∈ first, t.kind ≠ .semicolon) (hp : p.Faces (first ++ rest))
    (hmeets : p.Meets first stop) (hs : p.scopes = ["query_package"])
    (hm : p.report.mode = .general) :
    let leaves := first.map .error ++ Recovery.leaves querySync false rest
    itemTurn packageItem p = .ok (leaves, some ()) ((p.skip leaves.length).reporting [d]) := by
  have hempty : (true && first.isEmpty) = false := by simpa using hmal.1
  have hskips := recovering_of_fails querySync query_regular.keeps hfails hm hs hmeets
  rw [hp.ahead, leaves_first true plain rest, hempty] at hskips
  exact itemTurn_first hp hmal.1 plain hskips

/-- The turns at a piece that a `;` follows. -/
theorem turns_next (hb : Segment.Behaves ⟨first, stop⟩ trees ds)
    (plain : ∀ t ∈ first, t.kind ≠ .semicolon) (hstop : stop.kind = .semicolon)
    (hp : p.Faces (first ++ stop :: rest)) (hn : (first ++ stop :: rest).length < n)
    (hs : p.scopes = ["query_package"]) (hm : p.report.mode = .general ∨ ds = []) :
    ∃ k, rest.length < k ∧ turns n p =
      (turns k >>= fun others => pure (trees ++ .token stop :: others))
        ((p.skip (first.length + 1)).reporting ds) := by
  have hle : trees.length ≤ first.length := hb.length_le
  rw [List.length_append, List.length_cons] at hn
  by_cases hsilent : ds = []
  · subst hsilent
    have hturn : Takes (itemTurn packageItem) [stop] ([.token stop], some ()) fun _ => True :=
      takes_stop hstop
    have hwalks := (walks_piece hb plain).trans (.of_turn hturn) fun rest _ t ht => by
      cases ht
      exact hstop
    obtain ⟨k, rfl⟩ : ∃ k, n = trees.length + 1 + k := ⟨n - trees.length - 1, by omega⟩
    have hturns := hwalks k (show p.Faces ((first ++ [stop]) ++ rest) by simpa using hp) trivial
    exact ⟨k, by omega, by simpa [turns] using hturns⟩
  · obtain ⟨m, rfl⟩ : ∃ m, n = m + 1 := ⟨n - 1, by omega⟩
    cases hb with
    | nothing | query => exact absurd rfl hsilent
    | errors hmal hd hfails =>
      have hmeets : p.Meets first stop :=
        ⟨hp.valid, hp.ahead ▸ List.prefix_append .., hp.skip.peek_cons⟩
      have hturn := turn_malformed hmal hfails plain hp hmeets hs (hm.resolve_right hsilent)
      have hleaves : Recovery.leaves (R := Rule) querySync false (stop :: rest) =
          [.token stop] := by
        simp [Recovery.leaves, querySync, hstop]
      rw [hleaves] at hturn
      exact ⟨m, by omega, by simpa [turns] using turns_again hturn m⟩

/-- The turns at the last piece. -/
theorem turns_last (hb : Segment.Behaves ⟨first, p.cursor.marker⟩ trees ds)
    (plain : ∀ t ∈ first, t.kind ≠ .semicolon) (hp : p.Faces first) (hn : first.length < n)
    (hs : p.scopes = ["query_package"]) (hm : p.report.mode = .general ∨ ds = []) :
    turns n p = .ok (trees ++ [.token p.cursor.marker])
      ((p.skip (first.length + 1)).reporting ds) := by
  have hle : trees.length ≤ first.length := hb.length_le
  have hfaces : p.Faces (first ++ []) := by rwa [List.append_nil]
  have hmarker : ((p.skip first.length).reporting ds).cursor.marker = p.cursor.marker := by
    simp [Parser.reporting]
  by_cases hsilent : ds = []
  · subst hsilent
    obtain ⟨k, rfl⟩ : ∃ k, n = trees.length + (k + 1) := ⟨n - trees.length - 1, by omega⟩
    have hturns := walks_piece hb plain (k + 1) hfaces (by simp)
    have hend := turns_end hp.skip_all (Nat.succ_pos k)
    rw [turns] at hend ⊢
    rw [hturns, Parse.bind_apply, hend, ← Parser.skip_skip]
    simp [Parse.pure_apply]
  · obtain ⟨m, rfl⟩ : ∃ m, n = m + 1 := ⟨n - 1, by omega⟩
    cases hb with
    | nothing | query => exact absurd rfl hsilent
    | errors hmal hd hfails =>
      have hpos : 0 < first.length := List.length_pos_iff.2 hmal.1
      have hpeek : (p.skip first.length).cursor.peek = p.cursor.marker := by
        rw [hp.skip_all.peek]
        simp
      have hmeets : p.Meets first p.cursor.marker :=
        ⟨hp.valid, hp.ahead ▸ List.prefix_rfl, hpeek⟩
      have hturn := turn_malformed hmal hfails plain hfaces hmeets hs (hm.resolve_right hsilent)
      simp only [Recovery.leaves, List.append_nil, List.length_map] at hturn
      rw [turns_again hturn, Parse.bind_apply,
        turns_end (hp.skip_all.reporting _) (Nat.lt_of_lt_of_le hpos (Nat.le_of_lt_succ hn)),
        hmarker, ← Parser.skip_skip]
      rfl

/-! ## Whole packages -/

section
variable {made : List (Token Kind) → Trees} {reported : Segment → List Diagnostic}
  {tokens : List (Token Kind)}

/-- The turns of a package go through its pieces. -/
theorem itemTurns (hb : ∀ s : Segment, s.Proper → s.Behaves (made s.tokens) (reported s))
    (hp : p.Faces tokens) (hn : tokens.length < n) (hs : p.scopes = ["query_package"])
    (hm : p.report.mode = .general ∨
      ∀ s ∈ segments p.cursor.marker tokens, reported s = []) :
    ∃ q, turns n p = .ok ((segments p.cursor.marker tokens).flatMap fun s =>
        made s.tokens ++ [.token s.stop]) q ∧
      q.report = p.report.addAll ((segments p.cursor.marker tokens).flatMap reported) := by
  have hmarker : p.cursor.marker.kind = .endOfInput := by
    simpa [Token.isEnd, TokenKind.endOfInput] using hp.valid.isEnd_marker
  induction hlen : tokens.length using Nat.strong_induction_on generalizing tokens p n with
  | _ l ih =>
    subst hlen
    cases cut tokens with
    | last first plain =>
      rw [segments_last plain] at hm ⊢
      have hturns := turns_last (hb _ ⟨plain, .inr hmarker⟩) plain hp hn hs (by simpa using hm)
      exact ⟨_, by simpa using hturns, by simp [Parser.reporting]⟩
    | next first rest stop plain stops =>
      rw [segments_next plain stops] at hm ⊢
      obtain ⟨k, hk, hturns⟩ := turns_next (hb _ ⟨plain, .inl stops⟩) plain stops hp hn hs
        (hm.imp id fun h => h _ (by simp))
      have hrest : ((p.skip (first.length + 1)).reporting (reported ⟨first, stop⟩)).Faces rest := by
        have hskip : (p.skip (first ++ [stop]).length).Faces rest :=
          Parser.Faces.skip (by simpa using hp)
        simpa using hskip.reporting (reported ⟨first, stop⟩)
      have hshort : rest.length < (first ++ stop :: rest).length := by simp; omega
      obtain ⟨q, hq, hreport⟩ := ih rest.length hshort hrest hk hs (by
        simp only [Parser.reporting, Parser.report_skip, Report.mode_addAll, Parser.cursor_skip,
          Cursor.marker_skip]
        exact hm.imp id fun h s hmem => h s (List.mem_cons_of_mem _ hmem))
        (by simpa [Parser.reporting] using hmarker) rfl
      refine ⟨q, ?_, ?_⟩
      · rw [hturns, Parse.bind_apply, hq]
        simp [Parse.pure_apply, Parser.reporting]
      · rw [hreport]
        simp [Parser.reporting, Report.addAll_append]

/-- The node of a package has what the turns make as its children. -/
theorem whole_of_turns
    (h : turns (p.cursor.ahead.length + 1) { p with scopes := p.scopes ++ ["query_package"] } =
      .ok trees q) :
    whole "query_package" .package packageItem p =
      .ok { rule := .package, children := trees } { q with scopes := p.scopes } := by
  have hloop : repeating (fun _ => itemTurn packageItem) ()
      { p with scopes := p.scopes ++ ["query_package"] } = .ok trees q := h
  have hparts : inOrder [repeating (fun _ => itemTurn packageItem) ()]
      { p with scopes := p.scopes ++ ["query_package"] } = .ok (trees ++ []) q :=
    Parse.bind_eq_ok.2 ⟨trees, q, hloop, rfl⟩
  rw [List.append_nil] at hparts
  exact Parse.within_eq_ok.2 ⟨q, Parse.bind_eq_ok.2 ⟨trees, q, hparts, rfl⟩, rfl⟩

/-- A parser that comes to a package makes its node. -/
theorem package_runs (hb : ∀ s : Segment, s.Proper → s.Behaves (made s.tokens) (reported s))
    (hp : p.Faces tokens) (hs : p.scopes = [])
    (hm : p.report.mode = .general ∨
      ∀ s ∈ segments p.cursor.marker tokens, reported s = []) :
    ∃ q, package p = .ok
        { rule := .package
          children := (segments p.cursor.marker tokens).flatMap fun s =>
            made s.tokens ++ [.token s.stop] } q ∧
      q.report = p.report.addAll ((segments p.cursor.marker tokens).flatMap reported) := by
  have hopened : Parser.Faces { p with scopes := p.scopes ++ ["query_package"] } tokens :=
    hp.opened _
  obtain ⟨q, hq, hreport⟩ := itemTurns hb hopened (Nat.lt_succ_self _) (by rw [hs]; rfl) hm
  refine ⟨{ q with scopes := p.scopes }, ?_, hreport⟩
  rw [package_eq_whole]
  exact whole_of_turns (hp.ahead ▸ hq)

end

end

/-! ## Parsing -/

theorem Outcome.countP {tokens : List (Token Kind)} {trees : Trees} {ds : List Diagnostic}
    (h : Outcome tokens trees ds) :
    ds.countP Diagnostic.isError = if Malformed tokens then 1 else 0 := by
  cases h with
  | nothing hnil => simp [Malformed, hnil]
  | query hwell => simp [Malformed, hwell]
  | errors hmal hd => simp [hmal, hd]

theorem Outcome.malformed_iff {tokens : List (Token Kind)} {trees : Trees} {ds : List Diagnostic}
    (h : Outcome tokens trees ds) : Malformed tokens ↔ ds ≠ [] := by
  cases h with
  | nothing hnil => simp [Malformed, hnil]
  | query hwell => simp [Malformed, hwell]
  | errors hmal hd => simp [hmal]

/-- Every malformed piece is counted once. -/
theorem countP_reported {made : List (Token Kind) → Trees} {reported : Segment → List Diagnostic}
    {pieces : List Segment} (h : ∀ s ∈ pieces, Outcome s.tokens (made s.tokens) (reported s)) :
    (pieces.flatMap reported).countP Diagnostic.isError =
      pieces.countP fun s => Malformed s.tokens := by
  induction pieces with
  | nil => rfl
  | cons s pieces ih =>
    rw [List.flatMap_cons, List.countP_append, (h s (by simp)).countP,
      ih fun s' hs' => h s' (by simp [hs']), List.countP_cons, Nat.add_comm]
    simp

theorem root_eq_whole : queryLanguage.root = whole "query_package" .package packageItem :=
  package_eq_whole

section
variable {made : List (Token Kind) → Trees} {reported : Segment → List Diagnostic}
  (hb : ∀ s : Segment, s.Proper → s.Behaves (made s.tokens) (reported s))
include hb

/-- What either mode of prediction makes of a token list, as far as it can go. -/
theorem root_runs (tokens : List (Token Kind)) (mode : Prediction)
    (hm : mode = .general ∨
      ∀ s ∈ segments (Token.endOf tokens) (Cursor.shown .codeOnly tokens), reported s = []) :
    ∃ q, queryLanguage.root { cursor := .onCode tokens, report := { mode } } =
        .ok { rule := .package
              children := (segments (Token.endOf tokens) (Cursor.shown .codeOnly tokens)).flatMap
                fun s => made s.tokens ++ [.token s.stop] } q ∧
      q.report = Report.addAll { mode }
        ((segments (Token.endOf tokens) (Cursor.shown .codeOnly tokens)).flatMap reported) :=
  package_runs hb ⟨Cursor.valid_ofTokens _ _, Cursor.ahead_ofTokens _ _⟩ rfl hm

theorem parseGeneral_package (report : Report) (tokens : List (Token Kind)) :
    queryLanguage.parseGeneral report (.onCode tokens) =
      Language.conclude
        { rule := .package
          children := (segments (Token.endOf tokens) (Cursor.shown .codeOnly tokens)).flatMap
            fun s => made s.tokens ++ [.token s.stop] }
        (Report.addAll { mode := .general }
          ((segments (Token.endOf tokens) (Cursor.shown .codeOnly tokens)).flatMap reported)) := by
  obtain ⟨q, hq, hreport⟩ := root_runs hb tokens .general (.inl rfl)
  obtain ⟨tree, q', hq', hparse⟩ :=
    Language.parseGeneral_eq packageItems root_eq_whole report tokens
  cases hq'.symm.trans hq
  rw [hparse, hreport]

/-- Optimistic prediction is enough if there is nothing to report. -/
theorem mode_parse_iff (report : Report) (tokens : List (Token Kind)) :
    (queryLanguage.parse report tokens).1.mode = .optimistic ↔
      ∀ s ∈ segments (Token.endOf tokens) (Cursor.shown .codeOnly tokens), reported s = [] := by
  constructor
  · intro hmode
    obtain ⟨q, hq, hreport⟩ := root_runs hb tokens .general (.inl rfl)
    rcases Language.parse_cases packageItems root_eq_whole report tokens with
      ⟨tree, q', hq', hclean, -⟩ | hsecond
    · cases hq'.symm.trans hq
      rw [hreport] at hclean
      have hnone := congrArg Report.diagnostics hclean
      rw [Report.diagnostics_addAll] at hnone
      simpa using hnone
    · rw [hsecond, parseGeneral_package hb] at hmode
      cases (Report.mode_addAll _ _).symm.trans hmode
  · intro hnone
    obtain ⟨q, hq, hreport⟩ := root_runs hb tokens .optimistic (.inr hnone)
    rw [List.flatMap_eq_nil_iff.2 hnone] at hreport
    rw [Language.parse_of_ok hq hreport]
    rfl

end

/-- **Queries are accepted exactly, and faults are contained.** What a piece of a package becomes
is a matter of its own tokens, and its diagnostic one of these and the token after it. A
well-formed piece becomes one query over it, with its subqueries in it; any other piece becomes
errors and has one diagnostic. Optimistic prediction is enough if all are well-formed. -/
theorem package_exact :
    ∃ (made : List (Token Kind) → Trees) (reported : Segment → List Diagnostic),
      ∀ (report : Report) (tokens : List (Token Kind)),
        ToldBy made reported (segments (Token.endOf tokens) (Cursor.shown .codeOnly tokens))
          (queryLanguage.parse report tokens).1 := by
  obtain ⟨made, reported, hb⟩ := exists_behaviour
  refine ⟨made, reported, fun report tokens => ?_⟩
  have hmarker : (Token.endOf tokens).kind = .endOfInput := by
    simpa [Token.isEnd, TokenKind.endOfInput] using Token.isEnd_endOf tokens
  have hmode := mode_parse_iff hb report tokens
  have hparse :=
    Language.parse_eq_parseGeneral packageItems root_eq_whole report report tokens
  rw [parseGeneral_package hb] at hparse
  have hproper := proper_of_mem hmarker (Cursor.shown .codeOnly tokens)
  generalize segments (Token.endOf tokens) (Cursor.shown .codeOnly tokens) = pieces at *
  have houtcome : ∀ s ∈ pieces, Outcome s.tokens (made s.tokens) (reported s) :=
    fun s hs => (hb s (hproper s hs)).outcome
  have hsilent : (∀ s ∈ pieces, ¬ Malformed s.tokens) ↔ ∀ s ∈ pieces, reported s = [] :=
    forall₂_congr fun s hs => by rw [(houtcome s hs).malformed_iff, ne_eq, not_not]
  refine ⟨houtcome, by rw [hparse]; rfl, ?_, ?_, hmode.trans hsilent.symm⟩
  · rw [hparse]
    exact Report.diagnostics_addAll _ _
  · rw [hparse, ← countP_reported houtcome]
    exact (Report.errorCount_addAll _ _).trans (Nat.zero_add _)

end Query
end BuiltInScript
