import BuiltInScript.Proofs.Parsing.Likeness
import BuiltInScript.Proofs.Parsing.Reports
import BuiltInScript.Proofs.Parsing.Whole

/-!
# Accounting for faults

A fault is reported where it is found, and only later, when some rule around it is recovered from,
does the tree get error leaves. In between the trees of inner rules may be dropped, with the error
leaves they have. `Accounts` says of an action what it owes to the rules around it: if it succeeds,
its value answers for what it reported, and if general prediction makes it fail, it has reported
something for which its error leaves will stand.

What is reported, and where errors point, is told of the tokens that the parser sees: they have a
property `Q`, and so have all tokens that faults are about.

**Results.**
* `Accounts.bind`, `accounts_repeating`, `accounted_recovering`: it is kept when actions are put
  together, and by recovery from an action that leaves no token to stop after.
* `accounts_whole`: so does the rule of a whole source, if its items do.
* `Language.parse_accountable`: then the two phases account for what they report.
-/
namespace BuiltInScript

variable {R K M F α β σ : Type}

/-! ## Trees that show what was reported -/

/-- Trees that have error leaves just if something was reported. Nothing has been computed of their
nodes yet. -/
structure Shows (trees : Trees R K) (ds : List Diagnostic) : Prop where
  anyErrors : Tree.anyErrors trees = !ds.isEmpty
  fresh : ∀ node ∈ Tree.nodesOf trees, node.views = {}

theorem Tree.nodesOf_append (a b : List (Tree R K)) :
    nodesOf (a ++ b) = nodesOf a ++ nodesOf b := by
  induction a with
  | nil => rfl
  | cons t ts ih => rw [List.cons_append, nodesOf, nodesOf, ih, List.append_assoc]

theorem Tree.nodesOf_map_token (tokens : List (Token K)) :
    nodesOf (tokens.map (.token : _ → Tree R K)) = [] := by
  induction tokens with
  | nil => rfl
  | cons t ts ih => rw [List.map_cons, nodesOf, nodes, ih, List.append_nil]

/-- Recovery makes leaves only. -/
theorem Recovery.nodesOf_leaves (sync : K → RecoveryPoint) (held : Bool) (tokens : List (Token K)) :
    Tree.nodesOf (leaves (R := R) sync held tokens) = [] := by
  induction tokens generalizing held with
  | nil => rfl
  | cons t ts ih =>
    unfold leaves
    split
    · rw [Tree.nodesOf, Tree.nodes, ih, List.append_nil]
    · split
      · rw [Tree.nodesOf, Tree.nodes, ih, List.append_nil]
      · rfl
    · rfl

/-- The first token that recovery skips is an error leaf, unless it is one to stop after. -/
theorem Recovery.anyErrors_leaves {sync : K → RecoveryPoint} {t : Token K} {ts : List (Token K)}
    (h : sync t.kind ≠ .stopAfter) :
    Tree.anyErrors (leaves (R := R) sync true (t :: ts)) = true := by
  unfold leaves
  split
  · rfl
  · rfl
  · rename_i hs
    exact absurd hs h

namespace Shows

variable {trees others : Trees R K} {ds es : List Diagnostic}

theorem nil : Shows ([] : Trees R K) [] := ⟨rfl, fun _ h => nomatch h⟩

theorem tokens (tokens : List (Token K)) : Shows (tokens.map (.token : _ → Tree R K)) [] where
  anyErrors := Tree.anyErrors_map_token tokens
  fresh node h := by
    rw [Tree.nodesOf_map_token] at h
    cases h

theorem token (t : Token K) : Shows ([.token t] : Trees R K) [] := tokens [t]

theorem append (h : Shows trees ds) (h' : Shows others es) :
    Shows (trees ++ others) (ds ++ es) where
  anyErrors := by
    rw [Tree.anyErrors_append, h.anyErrors, h'.anyErrors]
    cases ds <;> rfl
  fresh node hn := by
    rw [Tree.nodesOf_append, List.mem_append] at hn
    exact hn.elim (h.fresh node) (h'.fresh node)

theorem node (rule : R) (h : Shows trees ds) : Shows [.node rule trees {}] ds where
  anyErrors := by rw [← h.anyErrors, Tree.anyErrors, Tree.anyErrors, Tree.hasErrors, Bool.or_false]
  fresh node hn := by
    rw [Tree.nodesOf, Tree.nodes, Tree.nodesOf, List.append_nil, List.mem_cons] at hn
    rcases hn with rfl | hn
    · rfl
    · exact h.fresh node hn

end Shows

variable [DecidableEq K] [TokenKind K]

/-! ## Parsers that see tokens of a sort -/

/-- All tokens that a parser may come upon have a property. -/
structure Parser.Sees (Q : Token K → Prop) (p : Parser K) : Prop where
  valid : p.cursor.Valid
  tokens : ∀ t ∈ p.cursor.tokens, Q t
  marker : Q p.cursor.marker

/-- What happens to a parser: it moves on its tokens, and reports about tokens that it sees. -/
structure Parser.Reports (Q : Token K → Prop) (p : Parser K) (ds : List Diagnostic)
    (q : Parser K) : Prop where
  alike : p.Alike q
  valid : q.cursor.Valid
  report : q.report = p.report.addAll ds
  reported : ∀ d ∈ ds, Reported Q d

namespace Parser.Sees

variable {Q : Token K → Prop} {p q : Parser K} {ds : List Diagnostic}

theorem mem_ahead (h : p.Sees Q) {t : Token K} (ht : t ∈ p.cursor.ahead) : Q t :=
  h.tokens t <| (List.drop_sublist _ _).subset <| (List.takeWhile_sublist _).subset <|
    (List.mem_filter.1 ht).1

theorem peekNth (h : p.Sees Q) (n : Nat) : Q (p.cursor.peekNth n) := by
  unfold Cursor.peekNth
  rw [List.getD_eq_getElem?_getD]
  cases hget : p.cursor.ahead[n]? with
  | none => exact h.marker
  | some t => exact h.mem_ahead (List.mem_of_getElem? hget)

theorem peek (h : p.Sees Q) : Q p.cursor.peek := by
  rw [h.valid.peek_eq]
  cases ha : p.cursor.ahead with
  | nil => exact h.marker
  | cons t ts =>
    have ht : t ∈ p.cursor.ahead := by simp [ha]
    exact h.mem_ahead ht

theorem after (h : p.Sees Q) (hq : p.Reports Q ds q) : q.Sees Q where
  valid := hq.valid
  tokens := hq.alike.tokens ▸ h.tokens
  marker := hq.alike.marker ▸ h.marker

theorem skip (h : p.Sees Q) (n : Nat) : p.Reports Q [] { p with cursor := p.cursor.skip n } where
  alike := .skip p n
  valid := h.valid.skip n
  report := rfl
  reported _ hd := nomatch hd

theorem stay (h : p.Sees Q) : p.Reports Q [] p := h.skip 0

theorem advance (h : p.Sees Q) : p.Reports Q [] { p with cursor := p.cursor.advance } := h.skip 1

theorem scopes (h : p.Sees Q) (scopes : List String) : Sees Q { p with scopes } :=
  ⟨h.valid, h.tokens, h.marker⟩

/-- A fault about tokens that are seen is reported. -/
theorem report (h : p.Sees Q) {fault : Fault K} (hfault : ∀ t ∈ fault.tokens, Q t) :
    p.Reports Q [fault.diagnostic.withNote (Parse.traceback p.scopes)]
      { p with report := p.report.add (fault.diagnostic.withNote (Parse.traceback p.scopes)) } where
  alike := ⟨rfl, rfl, rfl, rfl, rfl⟩
  valid := h.valid
  report := rfl
  reported d hd := by
    rw [List.mem_singleton.1 hd]
    exact .of fault p.scopes hfault

end Parser.Sees

theorem Parser.Reports.trans {Q : Token K → Prop} {p q r : Parser K} {ds es : List Diagnostic}
    (h : p.Reports Q ds q) (h' : q.Reports Q es r) : p.Reports Q (ds ++ es) r where
  alike := h.alike.trans h'.alike
  valid := h'.valid
  report := by rw [h'.report, h.report, Report.addAll_append]
  reported d hd := (List.mem_append.1 hd).elim (h.reported d) (h'.reported d)

/-- What is reported within a rule is reported when the rule is closed again. -/
theorem Parser.Reports.closed {Q : Token K → Prop} {p q : Parser K} {ds : List Diagnostic}
    {scopes : List String} (h : Reports Q { p with scopes } ds q) :
    p.Reports Q ds { q with scopes := p.scopes } :=
  ⟨⟨h.alike.tokens, h.alike.channels, h.alike.marker, rfl, h.alike.mode⟩, h.valid, h.report,
    h.reported⟩

/-- All that is reported are errors. -/
theorem Parser.Reports.errorCount {Q : Token K → Prop} {p q : Parser K} {ds : List Diagnostic}
    (h : p.Reports Q ds q) : q.report.errorCount = p.report.errorCount + ds.length := by
  rw [h.report, Report.errorCount_addAll, List.countP_eq_length.2]
  exact fun d hd => (h.reported d hd).isError

namespace Parse

open BuiltInScript.Parser (Sees Reports)

variable {Q : Token K → Prop} {V : α → List Diagnostic → Prop} {W : β → List Diagnostic → Prop}
  {p : Parser K} {action : Parse K α}

/-- A result that accounts for what was reported on the way to it. -/
inductive Accounted (Q : Token K → Prop) (V : α → List Diagnostic → Prop) (p : Parser K) :
    EStateM.Result ParseError (Parser K) α → Prop
  | ok {a ds q} : p.Reports Q ds q → V a ds → Accounted Q V p (.ok a q)
  | error {e t ds q} : p.Reports Q ds q → Q t → e.span = t.span →
      (p.report.mode = .general → ds ≠ []) → Accounted Q V p (.error e q)

/-- An action that accounts for what it reports, whatever tokens with the property it sees. -/
def Accounts (Q : Token K → Prop) (V : α → List Diagnostic → Prop) (action : Parse K α) : Prop :=
  ∀ ⦃p⦄, p.Sees Q → Accounted Q V p (action p)

/-! ## Composition -/

theorem Accounted.bind {next : α → Parse K β} (hp : p.Sees Q) (h : Accounted Q V p (action p))
    (hn : ∀ a ds q, q.Sees Q → V a ds →
      Accounted Q (fun b es => W b (ds ++ es)) q (next a q)) :
    Accounted Q W p ((action >>= next) p) := by
  rw [bind_apply]
  generalize action p = result at h ⊢
  cases h with
  | @ok a ds q hq hv =>
    have hnext := hn a ds q (hp.after hq) hv
    dsimp only
    generalize next a q = result at hnext ⊢
    cases hnext with
    | ok hr hw => exact .ok (hq.trans hr) hw
    | error hr ht he hm =>
      refine .error (hq.trans hr) ht he fun hmode => ?_
      exact List.append_ne_nil_of_right_ne_nil _ (hm (hq.alike.mode.trans hmode))
  | error hq ht he hm => exact .error hq ht he hm

namespace Accounts

theorem bind {next : α → Parse K β} (h : Accounts Q V action)
    (hn : ∀ a ds, V a ds → Accounts Q (fun b es => W b (ds ++ es)) (next a)) :
    Accounts Q W (action >>= next) :=
  fun _ hp => .bind hp (h hp) fun a ds _ hq hv => hn a ds hv hq

theorem pure {a : α} (h : V a []) : Accounts Q V (Pure.pure a) := fun _ hp => .ok hp.stay h

/-- What a value answers for may be told in other ways. -/
theorem imp {V' : α → List Diagnostic → Prop} (h : Accounts Q V action)
    (hv : ∀ a ds, V a ds → V' a ds) : Accounts Q V' action := by
  intro p hp
  have hresult := h hp
  generalize action p = result at hresult ⊢
  cases hresult with
  | ok hq ha => exact .ok hq (hv _ _ ha)
  | error hq ht he hm => exact .error hq ht he hm

/-- A value made of one that answers for what was reported. -/
theorem map (h : Accounts Q V action) {f : α → β} (hf : ∀ a ds, V a ds → W (f a) ds) :
    Accounts Q W (do return f (← action)) :=
  h.bind fun a ds hv => .pure (by rw [List.append_nil]; exact hf a ds hv)

theorem within {name : String} (h : Accounts Q V action) :
    Accounts Q V (Parse.within name action) := by
  intro p hp
  have hresult := h (hp.scopes (p.scopes ++ [name]))
  unfold Parse.within
  generalize action { p with scopes := p.scopes ++ [name] } = result at hresult ⊢
  cases hresult with
  | ok hq hv => exact .ok hq.closed hv
  | error hq ht he hm => exact .error hq.closed ht he hm

/-! ## Looking and moving -/

theorem peek : Accounts Q (fun t ds => Q t ∧ ds = []) (Parse.peek : Parse K (Token K)) :=
  fun _ hp => .ok hp.stay ⟨hp.peek, rfl⟩

theorem next : Accounts Q (fun t ds => Q t ∧ ds = []) (Parse.next : Parse K (Token K)) :=
  fun _ hp => .ok hp.advance ⟨hp.peek, rfl⟩

theorem remaining : Accounts Q (fun _ ds => ds = []) (Parse.remaining : Parse K Nat) :=
  fun _ hp => .ok hp.stay rfl

theorem at? (kind : K) : Accounts Q (fun _ ds => ds = []) (Parse.at? kind) :=
  fun _ hp => .ok hp.stay rfl

theorem skipAll : Accounts Q (fun _ ds => ds = []) (Parse.skipAll : Parse K Unit) :=
  fun _ hp => .ok (hp.skip _) rfl

theorem eat (kind : K) : Accounts Q (fun found ds => (∀ t ∈ found, Q t) ∧ ds = [])
    (Parse.eat kind) := by
  intro p hp
  unfold Parse.eat
  split
  · exact .ok hp.advance ⟨fun t ht => Option.some.inj ht ▸ hp.peek, rfl⟩
  · exact .ok hp.stay ⟨fun t ht => (nomatch ht), rfl⟩

/-- Looking ahead without a bound always tells. -/
theorem look {view : Prediction → List (Token K) → Token K → Option β}
    (h : ∀ tokens marker, view .general tokens marker ≠ none) :
    Accounts Q (fun _ ds => ds = []) (Parse.look view) := by
  intro p hp
  unfold Parse.look
  split
  · exact .ok hp.stay rfl
  · rename_i hnone
    refine .error hp.stay hp.peek rfl fun hmode => ?_
    rw [hmode] at hnone
    exact absurd hnone (h _ _)

theorem lookahead (n : Nat) : Accounts Q (fun t ds => Q t ∧ ds = []) (Parse.lookahead n) := by
  intro p hp
  unfold Parse.lookahead Parse.lookaheadCharged
  split
  · rename_i hbeyond
    refine .error hp.stay hp.peek rfl fun hmode => ?_
    rw [hmode] at hbeyond
    cases hbeyond
  · exact .ok hp.stay ⟨hp.peekNth n, rfl⟩

/-! ## Faults -/

/-- Failing reports a fault about tokens that are seen. -/
theorem fail {fault : Fault K} (h : ∀ t ∈ fault.tokens, Q t) :
    Accounts Q V (Parse.fail fault) := by
  intro p hp
  exact .error (hp.report h) (h _ fault.found_mem_tokens) rfl fun _ => nofun

theorem failHere {fault : Token K → Fault K}
    (h : ∀ found, Q found → ∀ t ∈ (fault found).tokens, Q t) :
    Accounts Q V (Parse.failHere fault) :=
  fun _ hp => fail (h _ hp.peek) hp

theorem emit {fault : Fault K} (h : ∀ t ∈ fault.tokens, Q t) :
    Accounts Q (fun _ _ => True) (Parse.emit fault.diagnostic) := by
  intro p hp
  exact .ok (hp.report h) trivial

theorem expectOr {kind : K} {fault : Token K → Fault K}
    (h : ∀ found, Q found → ∀ t ∈ (fault found).tokens, Q t) :
    Accounts Q (fun t ds => Q t ∧ ds = []) (Parse.expectOr kind fault) := by
  intro p hp
  unfold Parse.expectOr
  split
  · exact .ok hp.advance ⟨hp.peek, rfl⟩
  · exact failHere h hp

theorem attempt (h : Accounts Q V action) :
    Accounts Q (fun _ _ => True) (Parse.attempt action) := by
  intro p hp
  have hresult := h hp
  unfold Parse.attempt
  generalize action p = result at hresult ⊢
  cases hresult with
  | ok hq hv => exact .ok hq trivial
  | error hq ht he hm => exact .ok hq trivial

end Accounts
end Parse

/-! ## Parts -/

namespace Part

open BuiltInScript.Parse (Accounted Accounts)

variable {Q : Token K → Prop} {part : Parse K (Trees R K)} {parts : List (Parse K (Trees R K))}

theorem accounts_nothing : Accounts Q Shows (pure [] : Parse K (Trees R K)) := .pure .nil

theorem accounts_any : Accounts Q Shows (any : Parse K (Trees R K)) :=
  fun _ hp => .ok hp.advance (.token _)

theorem accounts_leafOr {kind : K} {fault : Token K → Fault K}
    (h : ∀ found, Q found → ∀ t ∈ (fault found).tokens, Q t) :
    Accounts Q Shows (leafOr kind fault : Parse K (Trees R K)) :=
  (Accounts.expectOr h).map fun t _ ⟨_, hds⟩ => hds ▸ .token t

theorem accounts_leaf (kind : K) : Accounts Q Shows (leaf kind : Parse K (Trees R K)) :=
  accounts_leafOr fun _ h => by simpa [Fault.tokens]

theorem accounts_unexpected (wanted : String) :
    Accounts Q Shows (Parse.unexpected wanted : Parse K (Trees R K)) :=
  .failHere fun _ h => by simpa [Fault.tokens]

theorem accounts_optional (kind : K) : Accounts Q Shows (optional kind : Parse K (Trees R K)) := by
  refine (Accounts.eat kind).bind fun found ds ⟨_, hds⟩ => ?_
  cases hds
  cases found with
  | some t => exact .pure (.token t)
  | none => exact .pure .nil

theorem accounts_leavesWhile (test : K → Bool) :
    Accounts Q Shows (leavesWhile test : Parse K (Trees R K)) :=
  fun _ hp => .ok (hp.skip _) (.tokens _)

theorem accounts_inOrder_cons (h : Accounts Q Shows part) (hs : Accounts Q Shows (inOrder parts)) :
    Accounts Q Shows (inOrder (part :: parts)) :=
  h.bind fun _ _ ht => hs.bind fun _ _ hts => .pure (by rw [List.append_nil]; exact ht.append hts)

theorem accounts_byKind {part : K → Parse K (Trees R K)}
    (h : ∀ kind, Accounts Q Shows (part kind)) :
    Accounts Q Shows (byKind part) := fun p hp => h p.cursor.peek.kind hp

theorem accounts_nodeOf (rule : R) (h : Accounts Q Shows (inOrder parts)) :
    Accounts Q (fun n : Node R K => Shows [n.toTree]) (nodeOf rule parts) :=
  h.map fun _ _ hchildren => hchildren.node rule

theorem accounts_node (rule : R) (h : Accounts Q Shows (inOrder parts)) :
    Accounts Q Shows (node rule parts) := (accounts_nodeOf rule h).map fun _ _ hn => hn

theorem accounts_counting {part : Nat → Parse K (Trees R K)} (h : ∀ n, Accounts Q Shows (part n)) :
    Accounts Q Shows (Parse.remaining >>= part) :=
  Accounts.remaining.bind fun n _ hds => hds ▸ h n

theorem accounts_scan (rule : R) {read : List (Token K) → Nat × Option (Token K → Fault K)}
    (h : ∀ tokens fault, (∀ t ∈ tokens, Q t) → (read tokens).2 = some fault →
      ∀ found, Q found → ∀ t ∈ (fault found).tokens, Q t) :
    Accounts Q Shows (scan rule read) := by
  intro p hp
  have hskip := hp.skip (read p.cursor.ahead).1
  unfold scan
  dsimp only
  split
  · rename_i fault hfault
    have hresult := Accounts.failHere (V := (Shows : Trees R K → _))
      (h _ fault (fun t ht => hp.mem_ahead ht) hfault) (hp.after hskip)
    generalize Parse.failHere fault _ = result at hresult ⊢
    cases hresult with
    | ok hq hv => exact .ok (hskip.trans hq) hv
    | error hq ht he hm => exact .error (hskip.trans hq) ht he hm
  · exact .ok hskip ((Shows.tokens _).node rule)

/-! ## Loops -/

/-- What a turn of a loop gives: trees that show what was reported, and a state to go on in. -/
def ShowsTurn (I : σ → Prop) (turn : Trees R K × Option σ) (ds : List Diagnostic) : Prop :=
  Shows turn.1 ds ∧ ∀ state ∈ turn.2, I state

/-- A loop accounts for what its turns do, in whatever states they come to. -/
theorem accounts_repeating {I : σ → Prop} {part : σ → Parse K (Trees R K × Option σ)}
    (h : ∀ state, I state → Accounts Q (ShowsTurn I) (part state)) {state : σ} (hi : I state) :
    Accounts Q Shows (repeating part state) := by
  have hturns (n : Nat) (state : σ) (hi : I state) :
      Accounts Q Shows (repeatUpTo part n state) := by
    induction n generalizing state with
    | zero => exact accounts_nothing
    | succ n ih =>
      refine (h state hi).bind fun ⟨trees, again⟩ ds ⟨hshows, hagain⟩ => ?_
      cases again with
      | none => exact .pure (by rw [List.append_nil]; exact hshows)
      | some state =>
        exact (ih state (hagain state rfl)).map fun others es hothers => hshows.append hothers
  exact accounts_counting fun n => hturns (n + 1) state hi

/-- A loop of which the turns are all alike. -/
theorem accounts_turns {part : Parse K (Trees R K × Option Unit)}
    (h : Accounts Q (fun turn => Shows turn.1) part) :
    Accounts Q Shows (repeating (fun _ => part) ()) :=
  accounts_repeating (I := fun _ => True) (fun _ _ => h.imp fun _ _ hs => ⟨hs, fun _ _ => trivial⟩)
    trivial

theorem accounts_whileAt (kind : K) (h : Accounts Q Shows part) :
    Accounts Q Shows (whileAt kind part) := by
  refine accounts_turns ((Accounts.at? kind).bind fun found ds hds => ?_)
  cases hds
  cases found
  · exact .pure .nil
  · exact h.map fun _ _ hs => hs

/-- The end of a turn: a separator, after which the loop goes on. -/
theorem accounts_eatSeparator (separator : K) {trees : Trees R K} {ds : List Diagnostic}
    (h : Shows trees ds) :
    Accounts Q (fun turn es => Shows turn.1 (ds ++ es))
      (do match ← Parse.eat separator with
          | some token => return (trees ++ [Tree.token token], some ())
          | none => return (trees, none)) := by
  refine (Accounts.eat separator).bind fun found es ⟨_, hes⟩ => ?_
  cases hes
  cases found with
  | some t => exact .pure (h.append (.token t))
  | none => exact .pure (by simpa using h)

theorem accounts_separated (separator : K) (h : Accounts Q Shows part) :
    Accounts Q Shows (separated separator part) :=
  accounts_turns (h.bind fun _ _ hs => accounts_eatSeparator separator hs)

theorem accounts_separatedUpTo (closer separator : K) (h : Accounts Q Shows part) :
    Accounts Q Shows (separatedUpTo closer separator part) := by
  refine accounts_turns ((Accounts.at? closer).bind fun found ds hds => ?_)
  cases hds
  cases found
  · exact h.bind fun _ _ hs => accounts_eatSeparator separator hs
  · exact .pure .nil

/-! ## Recovery -/

/-- Recovery goes back to where a part began, skips tokens from there, and reports nothing more. -/
theorem skipFrom_position {p q : Parser K} {ds : List Diagnostic} (hp : p.cursor.Valid)
    (hq : p.Reports Q ds q) (sync : K → RecoveryPoint) :
    ∃ r, p.Reports Q ds r ∧ Parse.skipFrom p.cursor.position sync q =
      .ok (Recovery.leaves (R := R) sync true p.cursor.ahead) r := by
  refine ⟨_, ?_, Blind.skipFrom_position hq.alike hp rfl⟩
  refine ⟨⟨?_, ?_, ?_, hq.alike.scopes, hq.alike.mode⟩, hp.skip _, hq.report, hq.reported⟩
  · exact Cursor.tokens_skip _ _
  · exact Cursor.channels_skip _ _
  · exact Cursor.marker_skip _ _

/-- Recovery makes an error leaf for what made a part fail: the token that the part began with,
unless that is one to stop after, in which case the part must not fail. -/
theorem accounted_recovering {sync : K → RecoveryPoint} {p : Parser K} (hp : p.Sees Q)
    (h : Accounted Q Shows p (part p)) (hne : p.cursor.peek.kind ≠ TokenKind.endOfInput)
    (hsync : ∀ e q, part p = .error e q → sync p.cursor.peek.kind ≠ .stopAfter) :
    Accounted Q Shows p (recovering sync part p) := by
  generalize hr : part p = result at h
  cases h with
  | ok hq hv =>
    rw [recovering_of_ok hr]
    exact .ok hq hv
  | @error e t ds q hq ht he hm =>
    cases hmode : q.report.mode with
    | optimistic =>
      rw [recovering_of_error_optimistic hr hmode]
      exact .error hq ht he hm
    | general =>
      obtain ⟨r, hr', hskip⟩ := skipFrom_position (R := R) hp.valid hq sync
      rw [recovering_of_error_general hr hmode, hskip]
      have hfirst := hsync e q hr
      rw [hp.valid.peek_eq] at hfirst hne
      refine .ok hr' ⟨?_, ?_⟩
      · have hds := hm (hq.alike.mode.symm.trans hmode)
        cases hahead : p.cursor.ahead with
        | nil =>
          rw [hahead] at hne
          have hend := hp.valid.isEnd_marker
          simp only [Token.isEnd, decide_eq_true_eq] at hend
          exact absurd hend hne
        | cons t ts =>
          rw [hahead, List.headD_cons] at hfirst
          rw [Recovery.anyErrors_leaves hfirst, List.isEmpty_eq_false_iff.2 hds, Bool.not_false]
      · intro node hn
        rw [Recovery.nodesOf_leaves] at hn
        cases hn

/-! ## Whole sources -/

/-- The rule of a whole source accounts for what it reports, if its items do where they begin. -/
theorem accounts_whole {item : K → Parse K (Trees R K)}
    (h : ∀ p, p.Sees Q → p.cursor.peek.kind ≠ TokenKind.endOfInput →
      Accounted Q Shows p (item p.cursor.peek.kind p)) (name : String) (rule : R) :
    Accounts Q (fun n : Node R K => Shows [n.toTree]) (whole name rule item) := by
  have hturn : Accounts Q (fun turn => Shows turn.1) (itemTurn item) := by
    intro p hp
    unfold itemTurn
    rw [Parse.bind_apply]
    dsimp only [Parse.peekKind]
    split
    · exact accounts_any.map (W := fun turn : Trees R K × Option Unit => Shows turn.1)
        (fun _ _ hs => hs) hp
    · rename_i hne
      refine .bind hp (h p hp hne) fun trees ds q hq hs => ?_
      exact Accounts.pure (by rw [List.append_nil]; exact hs) hq
  exact .within <| accounts_nodeOf rule <|
    accounts_inOrder_cons (accounts_turns hturn) accounts_nothing

end Part

/-- A parse that accounts for what it reports: about tokens with a property, shown by its tree, all
of it counted as errors, and nothing if it predicted optimistically. -/
structure Parsed.Accountable (Q : Token K → Prop) (parsed : Parsed R K) : Prop where
  shows : Shows [parsed.tree.toTree] parsed.diagnostics
  reported : ∀ d ∈ parsed.diagnostics, Reported Q d
  errorCount : parsed.errorCount = parsed.diagnostics.length
  optimistic : parsed.mode = .optimistic → parsed.diagnostics = []

namespace Language

open BuiltInScript.Part (Items whole)

variable {lang : Language K R M F} {item : K → Parse K (Trees R K)} {name : String} {rule : R}
  {Q : Token K → Prop} {tokens : List (Token K)}

theorem sees_onCode (ht : ∀ t ∈ tokens, Q t) (hend : Q (Token.endOf tokens)) (report : Report) :
    Parser.Sees Q { cursor := .onCode tokens, report } :=
  ⟨Cursor.valid_ofTokens _ _, ht, hend⟩

/-- The two phases account for what they report, if general prediction does. -/
theorem parse_accountable (h : Items item) (hroot : lang.root = whole name rule item)
    (ha : Parse.Accounts Q (fun n : Node R K => Shows [n.toTree]) lang.root)
    (ht : ∀ t ∈ tokens, Q t) (hend : Q (Token.endOf tokens)) (report : Report) :
    (lang.parse report tokens).1.Accountable Q := by
  obtain ⟨tree, p, hp, hgeneral⟩ := parseGeneral_eq h hroot report tokens
  have hresult := ha (sees_onCode ht hend { mode := .general })
  rw [hp] at hresult
  cases hresult with
  | @ok _ ds _ hq hshows =>
    have hdiagnostics : p.report.diagnostics = ds := by
      rw [hq.report, Report.diagnostics_addAll, List.nil_append]
    have hcount : p.report.errorCount = ds.length := hq.errorCount.trans (Nat.zero_add _)
    have hmode : p.report.mode = .general := hq.alike.mode
    rcases parse_cases h hroot report tokens with ⟨tree', p', hp', hreport, hparse⟩ | hparse
    · rw [hp] at hp'
      cases hp'
      rw [hreport] at hdiagnostics
      cases hdiagnostics
      rw [hparse]
      exact ⟨hshows, hq.reported, rfl, fun _ => rfl⟩
    · have hconclude : (conclude tree p.report).1 = ⟨tree, .general, ds.length, ds⟩ := by
        rw [← hmode, ← hcount, ← hdiagnostics]
        rfl
      rw [hparse, hgeneral, hconclude]
      exact ⟨hshows, hq.reported, rfl, nofun⟩

end Language
end BuiltInScript
