import BuiltInScript.Proofs.Parsing.Accounts

/-!
# When optimistic prediction succeeds

Optimistic prediction gives up at a fault, and where it would have to look too far ahead. General
prediction tells both afterwards: faults by its report, and long looks ahead by the nodes that it
makes, if those for which it looked far can be told by a property. `Foretells` says so of an action.
It speaks of actions that report nothing on the way; whatever else they do, that optimistic
prediction does not succeed is then told by the report.

**Results.**
* `Foretells.bind`, `foretells_repeating`, `foretells_recovering`: it is kept when actions are put
  together, and by recovery.
* `foretells_whole`: so does the rule of a whole source, if its items do.
* `Language.mode_eq_optimistic_iff`: then the tree of a general parse tells whether a parse in two
  phases stays in the first.
-/
namespace BuiltInScript

variable {R K M F α β γ σ : Type}

/-- The parser at the same place and with the same report, but predicting optimistically. -/
def Parser.optimistic (p : Parser K) : Parser K :=
  { p with report := p.report.setMode .optimistic }

/-- All nodes of some trees have a property. -/
def NodesFit (fits : Node R K → Prop) (trees : Trees R K) : Prop :=
  ∀ node ∈ Tree.nodesOf trees, fits node

namespace NodesFit

variable {fits : Node R K → Prop}

theorem nil : NodesFit fits [] := fun _ h => nomatch h

theorem append_iff (a b : Trees R K) :
    NodesFit fits (a ++ b) ↔ NodesFit fits a ∧ NodesFit fits b := by
  unfold NodesFit
  rw [Tree.nodesOf_append, List.forall_mem_append]

theorem tokens (tokens : List (Token K)) : NodesFit fits (tokens.map .token) := by
  intro node h
  rw [Tree.nodesOf_map_token] at h
  cases h

theorem token (t : Token K) : NodesFit fits [.token t] := tokens [t]

theorem node_iff (rule : R) (children : Trees R K) :
    NodesFit fits [.node rule children {}] ↔
      fits { rule, children } ∧ NodesFit fits children := by
  unfold NodesFit
  rw [Tree.nodesOf, Tree.nodes, Tree.nodesOf, List.append_nil, List.forall_mem_cons]

end NodesFit

variable [DecidableEq K] [TokenKind K]

/-- A parser with valid positions, whatever it sees. -/
abbrev Parser.Sound (p : Parser K) : Prop := p.Sees fun _ => True

/-- What happens to such a parser. -/
abbrev Parser.Comes (p : Parser K) (ds : List Diagnostic) (q : Parser K) : Prop :=
  p.Reports (fun _ => True) ds q

namespace Parse

/-- What general prediction gives, and what optimistic prediction gives in its place. -/
inductive Foretold (fits : α → Prop) (p : Parser K) :
    EStateM.Result ParseError (Parser K) α → EStateM.Result ParseError (Parser K) α → Prop
  | same {a q} : p.Comes [] q → fits a → Foretold fits p (.ok a q) (.ok a q.optimistic)
  | gaveUp {a q e r} : p.Comes [] q → ¬ fits a → r.report.mode = .optimistic →
      Foretold fits p (.ok a q) (.error e r)
  /-- Nothing is said of optimistic prediction where a fault was reported. -/
  | faulty {a ds q result} : p.Comes ds q → ds ≠ [] → Foretold fits p (.ok a q) result
  | failed {e ds q result} : p.Comes ds q → ds ≠ [] → Foretold fits p (.error e q) result

/-- General prediction tells whether optimistic prediction succeeds: that it does if nothing is
wrong and the value fits. -/
def Foretells (fits : α → Prop) (action : Parse K α) : Prop :=
  ∀ ⦃p⦄, p.Sound → p.report.mode = .general →
    Foretold fits p (action p) (action p.optimistic)

namespace Foretells

variable {fits : α → Prop} {action : Parse K α}

/-! ## Composition -/

theorem pure {a : α} (h : fits a) : Foretells fits (Pure.pure a : Parse K α) :=
  fun _ hp _ => .same hp.stay h

/-- A value made of two that fit just if both do. -/
theorem bind {others : β → Prop} {all : γ → Prop} {f : α → β → γ} {next : α → Parse K β}
    (h : Foretells fits action) (hn : ∀ a, Foretells others (next a))
    (hf : ∀ a b, all (f a b) ↔ fits a ∧ others b) :
    Foretells all (do let a ← action; let b ← next a; return f a b) := by
  intro p hp hm
  have hresult := h hp hm
  rw [bind_apply, bind_apply]
  generalize action p = result, action p.optimistic = fast at hresult ⊢
  cases hresult with
  | failed hq hds => exact .failed hq hds
  | @same a q hq ha =>
    have hnext := hn a (hp.after hq) (hq.alike.mode.trans hm)
    dsimp only
    rw [bind_apply, bind_apply]
    generalize next a q = result, next a q.optimistic = fast at hnext ⊢
    cases hnext with
    | @same b r hr hb => exact .same (hq.trans hr) ((hf a b).2 ⟨ha, hb⟩)
    | @gaveUp b r _ _ hr hb hmode =>
      exact .gaveUp (hq.trans hr) (fun hall => hb ((hf a b).1 hall).2) hmode
    | faulty hr hes => exact .faulty (hq.trans hr) hes
    | failed hr hes => exact .failed (hq.trans hr) hes
  | @gaveUp a q _ _ hq ha hmode =>
    have hnext := hn a (hp.after hq) (hq.alike.mode.trans hm)
    dsimp only
    rw [bind_apply]
    generalize next a q = result, next a q.optimistic = fast at hnext ⊢
    cases hnext with
    | @same b r hr _ => exact .gaveUp (hq.trans hr) (fun hall => ha ((hf a b).1 hall).1) hmode
    | @gaveUp b r _ _ hr _ =>
      exact .gaveUp (hq.trans hr) (fun hall => ha ((hf a b).1 hall).1) hmode
    | faulty hr hes => exact .faulty (hq.trans hr) hes
    | failed hr hes => exact .failed (hq.trans hr) hes
  | @faulty a ds q _ hq hds =>
    have hnext := hn a (hp.after hq) (hq.alike.mode.trans hm)
    have hmore (es : List Diagnostic) : ds ++ es ≠ [] := List.append_ne_nil_of_left_ne_nil hds es
    dsimp only
    rw [bind_apply]
    generalize next a q = result, next a q.optimistic = fast at hnext ⊢
    cases hnext with
    | same hr _ => exact .faulty (hq.trans hr) (hmore _)
    | gaveUp hr => exact .faulty (hq.trans hr) (hmore _)
    | faulty hr _ => exact .faulty (hq.trans hr) (hmore _)
    | failed hr _ => exact .failed (hq.trans hr) (hmore _)

theorem map {all : β → Prop} {f : α → β} (h : Foretells fits action)
    (hf : ∀ a, all (f a) ↔ fits a) : Foretells all (do return f (← action)) := by
  have hmap := h.bind (f := fun a _ => f a) (fun _ => pure (a := ()) trivial) fun a _ =>
    (hf a).trans (and_iff_left trivial).symm
  simpa only [pure_bind] using hmap

theorem congr {others : α → Prop} (h : Foretells fits action) (hf : ∀ a, fits a ↔ others a) :
    Foretells others action := (funext fun a => propext (hf a) : fits = others) ▸ h

/-- Something done on the way that is well in any case. -/
theorem after {others : β → Prop} {next : α → Parse K β}
    (h : Foretells (fun _ => True) action) (hn : ∀ a, Foretells others (next a)) :
    Foretells others (action >>= next) := by
  have hbind := h.bind (f := fun _ b => b) hn fun _ _ => (and_iff_right trivial).symm
  simpa only [bind_pure] using hbind

theorem within {name : String} (h : Foretells fits action) :
    Foretells fits (Parse.within name action) := by
  intro p hp hm
  have hresult := h (hp.scopes (p.scopes ++ [name])) hm
  have hopen : ({ p with scopes := p.scopes ++ [name] } : Parser K).optimistic =
      { p.optimistic with scopes := p.optimistic.scopes ++ [name] } := rfl
  rw [hopen] at hresult
  unfold Parse.within
  generalize action { p with scopes := p.scopes ++ [name] } = result,
    action { p.optimistic with scopes := p.optimistic.scopes ++ [name] } = fast at hresult ⊢
  cases hresult with
  | same hq ha => exact .same hq.closed ha
  | gaveUp hq ha hmode => exact .gaveUp hq.closed ha hmode
  | faulty hq hds => exact .faulty hq.closed hds
  | failed hq hds => exact .failed hq.closed hds

/-! ## Looking, moving and failing -/

theorem peekKind : Foretells (fun _ => True) (Parse.peekKind : Parse K K) :=
  fun _ hp _ => .same hp.stay trivial

theorem remaining : Foretells (fun _ => True) (Parse.remaining : Parse K Nat) :=
  fun _ hp _ => .same hp.stay trivial

theorem at? (kind : K) : Foretells (fun _ => True) (Parse.at? kind) :=
  fun _ hp _ => .same hp.stay trivial

theorem eat (kind : K) : Foretells (fun _ => True) (Parse.eat kind) := by
  intro p hp _
  unfold Parse.eat Parser.optimistic
  dsimp only
  split
  · exact .same hp.advance trivial
  · exact .same hp.stay trivial

/-- Looking past a few tokens is within the bound. -/
theorem lookahead {n : Nat} (h : n < 64) :
    Foretells (fun _ => True) (Parse.lookahead n : Parse K (Token K)) := by
  intro p hp hm
  have hfast : ¬ 64 ≤ n := by omega
  unfold Parse.lookahead Parse.lookaheadCharged Parser.optimistic
  simp only [hm, Report.setMode, Prediction.lookaheadBound, Option.any_none, Option.any_some,
    hfast, decide_false, Bool.false_eq_true, if_false]
  exact .same hp.stay trivial

/-- Looking ahead as far as it takes. What follows is well in any case, and its value fits just if
what is looked for can be told within the bound. -/
theorem looking {view : Prediction → List (Token K) → Token K → Option β} {part : β → Parse K α}
    (hsame : ∀ tokens marker b, view .optimistic tokens marker = some b →
      view .general tokens marker = some b)
    (hgeneral : ∀ tokens marker, view .general tokens marker ≠ none)
    (h : ∀ b, Foretells (fun _ => True) (part b))
    (hfits : ∀ p b a q, p.Sound → view .general p.cursor.ahead p.cursor.marker = some b →
      part b p = .ok a q →
      (fits a ↔ (view .optimistic p.cursor.ahead p.cursor.marker).isSome)) :
    Foretells fits (Parse.look view >>= part) := by
  intro p hp hm
  obtain ⟨b, hb⟩ := Option.ne_none_iff_exists'.1 (hgeneral p.cursor.ahead p.cursor.marker)
  have hslow : (Parse.look view >>= part) p = part b p := by
    rw [bind_apply, Parse.look, hm, hb]
  have hresult := h b hp hm
  have hvalue := fun a q => hfits p b a q hp hb
  rw [hslow]
  generalize part b p = result at hresult hvalue ⊢
  cases hview : view .optimistic p.cursor.ahead p.cursor.marker with
  | none =>
    have hfast : (Parse.look view >>= part) p.optimistic =
        .error ⟨p.cursor.peek.span, p.scopes⟩ p.optimistic := by
      simp only [bind_apply, Parse.look, Parser.optimistic, Report.setMode, hview]
    have hno (a : α) (q : Parser K) (hr : result = .ok a q) : ¬ fits a := by
      rw [hvalue a q hr, hview]
      nofun
    rw [hfast]
    generalize part b p.optimistic = fast at hresult
    cases hresult with
    | same hq _ => exact .gaveUp hq (hno _ _ rfl) rfl
    | gaveUp hq _ _ => exact .gaveUp hq (hno _ _ rfl) rfl
    | faulty hq hds => exact .faulty hq hds
    | failed hq hds => exact .failed hq hds
  | some answer =>
    obtain rfl : answer = b := Option.some.inj ((hsame _ _ _ hview).symm.trans hb)
    have hfast : (Parse.look view >>= part) p.optimistic = part answer p.optimistic := by
      simp only [bind_apply, Parse.look, Parser.optimistic, Report.setMode, hview]
    rw [hfast]
    generalize part answer p.optimistic = fast at hresult ⊢
    cases hresult with
    | same hq _ => exact .same hq ((hvalue _ _ rfl).2 (by rw [hview]; rfl))
    | gaveUp _ hfalse _ => exact absurd trivial hfalse
    | faulty hq hds => exact .faulty hq hds
    | failed hq hds => exact .failed hq hds

theorem failHere (fault : Token K → Fault K) :
    Foretells fits (Parse.failHere fault : Parse K α) :=
  fun _ hp _ => .failed (hp.report fun _ _ => trivial) (List.cons_ne_nil _ _)

theorem expectOr (kind : K) (fault : Token K → Fault K) :
    Foretells (fun _ => True) (Parse.expectOr kind fault) := by
  intro p hp hm
  by_cases hk : p.cursor.peek.kind = kind
  · have hfast : p.optimistic.cursor.peek.kind = kind := hk
    unfold Parse.expectOr
    rw [if_pos hk, if_pos hfast]
    exact .same hp.advance trivial
  · unfold Parse.expectOr
    rw [if_neg hk]
    exact .failed (hp.report fun _ _ => trivial) (List.cons_ne_nil _ _)

end Foretells
end Parse

/-! ## Parts -/

namespace Part

open BuiltInScript.Parse (Foretold Foretells)

variable {fits : Node R K → Prop} {part : Parse K (Trees R K)} {parts : List (Parse K (Trees R K))}

theorem foretells_nothing : Foretells (NodesFit fits) (pure [] : Parse K (Trees R K)) := .pure .nil

theorem foretells_any : Foretells (NodesFit fits) (any : Parse K (Trees R K)) :=
  fun _ hp _ => .same hp.advance (.token _)

theorem foretells_leafOr (kind : K) (fault : Token K → Fault K) :
    Foretells (NodesFit fits) (leafOr kind fault : Parse K (Trees R K)) :=
  (Foretells.expectOr kind fault).after fun t => .pure (.token t)

theorem foretells_optional (kind : K) :
    Foretells (NodesFit fits) (optional kind : Parse K (Trees R K)) := by
  refine (Foretells.eat kind).after fun found => ?_
  cases found with
  | some t => exact .pure (.token t)
  | none => exact .pure .nil

theorem foretells_leavesWhile (test : K → Bool) :
    Foretells (NodesFit fits) (leavesWhile test : Parse K (Trees R K)) :=
  fun _ hp _ => .same (hp.skip _) (.tokens _)

theorem foretells_inOrder (h : Foretells (NodesFit fits) part)
    (hs : Foretells (NodesFit fits) (inOrder parts)) :
    Foretells (NodesFit fits) (inOrder (part :: parts)) :=
  h.bind (fun _ => hs) NodesFit.append_iff

theorem foretells_byKind {part : K → Parse K (Trees R K)}
    (h : ∀ kind, Foretells (NodesFit fits) (part kind)) :
    Foretells (NodesFit fits) (byKind part) := fun p hp hm => h p.cursor.peek.kind hp hm

theorem foretells_nodeOf {rule : R} (hrule : ∀ children, fits { rule, children })
    (h : Foretells (NodesFit fits) (inOrder parts)) :
    Foretells (fun n : Node R K => NodesFit fits [n.toTree]) (nodeOf rule parts) :=
  h.map fun children => (NodesFit.node_iff rule children).trans (and_iff_right (hrule children))

/-- A node of a rule for which nothing has to be told. -/
theorem foretells_node {rule : R} (hrule : ∀ children, fits { rule, children })
    (h : Foretells (NodesFit fits) (inOrder parts)) :
    Foretells (NodesFit fits) (node rule parts) :=
  (foretells_nodeOf hrule h).map fun _ => Iff.rfl

theorem foretells_counting {part : Nat → Parse K (Trees R K)}
    (h : ∀ n, Foretells (NodesFit fits) (part n)) :
    Foretells (NodesFit fits) (Parse.remaining >>= part) := Foretells.remaining.after h

theorem foretells_scan {rule : R} (hrule : ∀ children, fits { rule, children })
    (read : List (Token K) → Nat × Option (Token K → Fault K)) :
    Foretells (NodesFit fits) (scan rule read) := by
  intro p hp hm
  have hskip := hp.skip (read p.cursor.ahead).1
  unfold scan Parser.optimistic
  dsimp only
  split
  · have hfails (fault : Fault K) :=
      (hp.after hskip).report fun t (_ : t ∈ fault.tokens) => trivial
    exact .failed (hskip.trans (hfails _)) (List.cons_ne_nil _ _)
  · exact .same hskip ((NodesFit.node_iff _ _).2 ⟨hrule _, .tokens _⟩)

/-! ## Loops -/

/-- A loop of which the turns foretell. -/
theorem foretells_repeating {part : σ → Parse K (Trees R K × Option σ)}
    (h : ∀ state, Foretells (fun turn => NodesFit fits turn.1) (part state)) (state : σ) :
    Foretells (NodesFit fits) (repeating part state) := by
  have hturns (n : Nat) (state : σ) : Foretells (NodesFit fits) (repeatUpTo part n state) := by
    induction n generalizing state with
    | zero => exact foretells_nothing
    | succ n ih =>
      -- A turn that ends the loop is one that nothing follows.
      have hloop : repeatUpTo part (n + 1) state = do
          let turn ← part state
          let others ← turn.2.elim (pure []) (repeatUpTo part n)
          return turn.1 ++ others := by
        rw [repeatUpTo]
        congr 1
        funext ⟨trees, again⟩
        cases again with
        | none => simp only [Option.elim_none, pure_bind, List.append_nil]
        | some state => rfl
      rw [hloop]
      refine (h state).bind (fun turn => ?_) fun turn others => NodesFit.append_iff turn.1 others
      cases turn.2 with
      | none => exact foretells_nothing
      | some state => exact ih state
  exact foretells_counting fun n => hturns (n + 1) state

theorem foretells_whileAt (kind : K) (h : Foretells (NodesFit fits) part) :
    Foretells (NodesFit fits) (whileAt kind part) := by
  refine foretells_repeating (fun _ => (Foretells.at? kind).after fun found => ?_) ()
  cases found
  · exact .pure .nil
  · exact h.map fun _ => Iff.rfl

/-- A part and the separator after it, after which the loop goes on. -/
theorem foretells_thenEat (separator : K) (h : Foretells (NodesFit fits) part) :
    Foretells (fun turn : Trees R K × Option Unit => NodesFit fits turn.1) (do
      let trees ← part
      match ← Parse.eat separator with
      | some token => return (trees ++ [.token token], some ())
      | none => return (trees, none)) := by
  have hturn : (do
      let trees ← part
      match ← Parse.eat separator with
      | some token => return (trees ++ [.token token], some ())
      | none => return (trees, none)) = (do
      let trees ← part
      let found ← Parse.eat separator
      return (trees ++ found.toList.map .token, found.map fun _ => ()) :
        Parse K (Trees R K × Option Unit)) := by
    congr 1
    funext trees
    congr 1
    funext found
    cases found with
    | some t => rfl
    | none => rw [Option.toList_none, List.map_nil, List.append_nil, Option.map_none]
  rw [hturn]
  refine h.bind (fun _ => Foretells.eat separator) fun trees found => ?_
  rw [NodesFit.append_iff]
  exact and_congr_right fun _ => iff_true_intro (.tokens _)

theorem foretells_separated (separator : K) (h : Foretells (NodesFit fits) part) :
    Foretells (NodesFit fits) (separated separator part) :=
  foretells_repeating (fun _ => foretells_thenEat separator h) ()

theorem foretells_separatedUpTo (closer separator : K) (h : Foretells (NodesFit fits) part) :
    Foretells (NodesFit fits) (separatedUpTo closer separator part) := by
  refine foretells_repeating (fun _ => (Foretells.at? closer).after fun found => ?_) ()
  cases found
  · exact foretells_thenEat separator h
  · exact .pure .nil

/-! ## Recovery -/

/-- Where general prediction recovers, it has reported a fault. -/
theorem foretells_recovering (sync : K → RecoveryPoint) (h : Foretells (NodesFit fits) part) :
    Foretells (NodesFit fits) (recovering sync part) := by
  intro p hp hm
  have hresult := h hp hm
  generalize hr : part p = result, hr' : part p.optimistic = fast at hresult
  cases hresult with
  | same hq ha =>
    rw [recovering_of_ok hr, recovering_of_ok hr']
    exact .same hq ha
  | gaveUp hq ha hmode =>
    rw [recovering_of_ok hr, recovering_of_error_optimistic hr' hmode]
    exact .gaveUp hq ha hmode
  | faulty hq hds =>
    rw [recovering_of_ok hr]
    exact .faulty hq hds
  | failed hq hds =>
    obtain ⟨r, hr', hskip⟩ := skipFrom_position (R := R) hp.valid hq sync
    rw [recovering_of_error_general hr (hq.alike.mode.trans hm), hskip]
    exact .faulty hr' hds

/-! ## Whole sources -/

/-- The rule of a whole source foretells, if its items do. -/
theorem foretells_whole {item : K → Parse K (Trees R K)}
    (h : ∀ kind, Foretells (NodesFit fits) (item kind)) (name : String) {rule : R}
    (hrule : ∀ children, fits { rule, children }) :
    Foretells (fun n : Node R K => NodesFit fits [n.toTree]) (whole name rule item) := by
  have hturn (kind : K) : Foretells (fun turn : Trees R K × Option Unit => NodesFit fits turn.1)
      (if kind = TokenKind.endOfInput then do return (← any, none)
        else do return (← item kind, some ())) := by
    split
    · exact foretells_any.map fun _ => Iff.rfl
    · exact (h kind).map fun _ => Iff.rfl
  exact .within <| foretells_nodeOf hrule <| foretells_inOrder
    (foretells_repeating (fun _ => Foretells.peekKind.after hturn) ()) foretells_nothing

end Part

/-! ## The two phases -/

namespace Language

open BuiltInScript.Part (Items whole)

variable {lang : Language K R M F} {item : K → Parse K (Trees R K)} {name : String} {rule : R}
  {fits : Node R K → Prop}

/-- **Staying in the first phase.** A parse in two phases stays in the first one just if general
prediction has nothing to report and all nodes fit. -/
theorem mode_eq_optimistic_iff (h : Items item) (hroot : lang.root = whole name rule item)
    (hf : Parse.Foretells (fun n : Node R K => NodesFit fits [n.toTree]) lang.root)
    (report report' : Report) (tokens : List (Token K)) :
    (lang.parse report tokens).1.mode = .optimistic ↔
      (lang.parseGeneral report' (.onCode tokens)).1.errorCount = 0 ∧
        ∀ node ∈ (lang.parseGeneral report' (.onCode tokens)).1.tree.toTree.nodes, fits node := by
  obtain ⟨tree, p, hp, hgeneral⟩ := parseGeneral_eq h hroot report' tokens
  have hsecond : lang.parseGeneral report (.onCode tokens) = conclude tree p.report := hgeneral
  have hresult : Parse.Foretold (fun n : Node R K => NodesFit fits [n.toTree])
      { cursor := .onCode tokens, report := { mode := .general } }
      (lang.root { cursor := .onCode tokens, report := { mode := .general } })
      (lang.root { cursor := .onCode tokens, report := { mode := .optimistic } }) :=
    hf (sees_onCode (fun _ _ => trivial) trivial _) rfl
  have hnodes : (∀ node ∈ tree.toTree.nodes, fits node) ↔ NodesFit fits [tree.toTree] := by
    unfold NodesFit
    rw [Tree.nodesOf, Tree.nodesOf, List.append_nil]
  have hmode : p.report.mode = .general → (conclude tree p.report).1.mode ≠ .optimistic := by
    intro hm
    show p.report.mode ≠ .optimistic
    rw [hm]
    nofun
  rw [hgeneral]
  show _ ↔ p.report.errorCount = 0 ∧ ∀ node ∈ tree.toTree.nodes, fits node
  rw [hnodes]
  generalize hfast : lang.root { cursor := .onCode tokens, report := { mode := .optimistic } } =
    fast at hresult
  rw [hp] at hresult
  cases hresult with
  | same hq hfits =>
    have hclean : p.report = { mode := .general } := hq.report
    rw [parse_of_ok hfast (by rw [Parser.optimistic, hclean]; rfl)]
    exact iff_of_true rfl ⟨congrArg Report.errorCount hclean, hfits⟩
  | gaveUp hq hfits =>
    rw [parse_of_error h hroot hfast, hsecond]
    exact iff_of_false (hmode hq.alike.mode) fun ⟨_, hall⟩ => hfits hall
  | @faulty _ ds _ _ hq hds =>
    have hne : p.report.errorCount ≠ 0 := by
      rw [hq.errorCount.trans (Nat.zero_add _)]
      exact mt List.length_eq_zero_iff.1 hds
    refine iff_of_false ?_ fun ⟨hzero, _⟩ => hne hzero
    -- Had the first phase succeeded, nothing would have been reported.
    rcases parse_cases h hroot report tokens with ⟨tree', p', hp', hclean, _⟩ | hparse
    · rw [hp] at hp'
      cases hp'
      exact absurd (congrArg Report.errorCount hclean) hne
    · rw [hparse, hsecond]
      exact hmode hq.alike.mode

end Language
end BuiltInScript
