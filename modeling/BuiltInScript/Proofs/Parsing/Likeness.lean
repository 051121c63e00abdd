import BuiltInScript.Parsing.TwoPhase
import BuiltInScript.Proofs.Parsing.Action
import BuiltInScript.Proofs.Parsing.Regular

/-!
# Parsing by the form of tokens

Grammars look at the kinds of tokens, and few rules look at anything else of them. A `Form` says
what is left of a token when everything is taken away that makes no difference. Two parsers that see
tokens of one form go in step: each action succeeds with both or fails with both, passes as many
tokens, reports as much, and gives values that are alike.

**Results.**
* `InStep.bind`, `Blind.repeating`, `Blind.recovering`: what is put together from actions in step
  goes in step.
* `Language.parse_alike`: two token lists of one form have the same tree in that form, and the
  parses report as much and predict alike.
-/
namespace BuiltInScript

variable {R K M F α β γ δ σ τ : Type}

/-! ## Forms -/

/-- What is looked at of a token, its kind and its channels at least. -/
structure Form (K : Type) where
  of : Token K → Token K
  kind_of : ∀ t, (of t).kind = t.kind
  channels_of : ∀ t, (of t).channels = t.channels

theorem Form.kind_eq (form : Form K) {t u : Token K} (h : form.of t = form.of u) :
    t.kind = u.kind := by
  rw [← form.kind_of t, h, form.kind_of]

theorem Form.map_kind_eq (form : Form K) {tokens tokens' : List (Token K)}
    (h : tokens.map form.of = tokens'.map form.of) :
    tokens.map Token.kind = tokens'.map Token.kind := by
  simpa [Function.comp_def, form.kind_of] using congrArg (List.map Token.kind) h

namespace Tree

mutual
/-- A tree over other tokens, of which nothing has been computed yet. -/
def map (f : Token K → Token K) : Tree R K → Tree R K
  | .node rule children _ => .node rule (mapOf f children) {}
  | .token t => .token (f t)
  | .error t => .error (f t)

/-- `map` of trees side by side. -/
def mapOf (f : Token K → Token K) : List (Tree R K) → List (Tree R K)
  | [] => []
  | t :: ts => map f t :: mapOf f ts
end

theorem mapOf_append (f : Token K → Token K) (a b : List (Tree R K)) :
    mapOf f (a ++ b) = mapOf f a ++ mapOf f b := by
  induction a with
  | nil => rfl
  | cons t ts ih => rw [List.cons_append, mapOf, mapOf, ih, List.cons_append]

theorem length_mapOf (f : Token K → Token K) (trees : List (Tree R K)) :
    (mapOf f trees).length = trees.length := by
  induction trees with
  | nil => rfl
  | cons t ts ih => rw [mapOf, List.length_cons, List.length_cons, ih]

theorem mapOf_map_token (f : Token K → Token K) (tokens : List (Token K)) :
    mapOf f (tokens.map (.token : _ → Tree R K)) = (tokens.map f).map .token := by
  induction tokens with
  | nil => rfl
  | cons t ts ih => rw [List.map_cons, mapOf, ih, map, List.map_cons, List.map_cons]

end Tree

/-- A node over other tokens. -/
def Node.map (f : Token K → Token K) (n : Node R K) : Node R K :=
  { rule := n.rule, children := Tree.mapOf f n.children }

/-- Recovery goes by the kinds of tokens. -/
theorem Recovery.mapOf_leaves (form : Form K) (sync : K → RecoveryPoint) (held : Bool)
    (tokens : List (Token K)) :
    Tree.mapOf form.of (leaves (R := R) sync held tokens) =
      leaves sync held (tokens.map form.of) := by
  induction tokens generalizing held with
  | nil => rfl
  | cons t ts ih =>
    rw [List.map_cons, leaves, leaves, form.kind_of]
    split
    · rw [Tree.mapOf, Tree.map, ih]
    · split
      · rw [Tree.mapOf, Tree.map, ih]
      · rfl
    · rfl

variable [DecidableEq K] [TokenKind K]

/-! ## Parsers that are alike -/

/-- Two cursors that show tokens of one form. -/
structure Cursor.Like (form : Form K) (c d : Cursor K) : Prop where
  valid : c.Valid
  valid' : d.Valid
  ahead : c.ahead.map form.of = d.ahead.map form.of
  marker : form.of c.marker = form.of d.marker

namespace Cursor.Like

variable {form : Form K} {c d : Cursor K}

theorem peek (h : c.Like form d) : form.of c.peek = form.of d.peek := by
  have hhead (tokens : List (Token K)) (marker : Token K) :
      form.of (tokens.headD marker) = (tokens.map form.of).headD (form.of marker) := by
    cases tokens <;> rfl
  rw [h.valid.peek_eq, h.valid'.peek_eq, hhead, hhead, h.ahead, h.marker]

theorem peek_kind (h : c.Like form d) : c.peek.kind = d.peek.kind := form.kind_eq h.peek

theorem peekNth (h : c.Like form d) (n : Nat) : form.of (c.peekNth n) = form.of (d.peekNth n) := by
  have hget (tokens : List (Token K)) (marker : Token K) :
      form.of (tokens.getD n marker) = (tokens.map form.of).getD n (form.of marker) := by
    simp
  rw [Cursor.peekNth, Cursor.peekNth, hget, hget, h.ahead, h.marker]

theorem length_ahead (h : c.Like form d) : c.ahead.length = d.ahead.length := by
  simpa using congrArg List.length h.ahead

theorem skip (h : c.Like form d) (n : Nat) : (c.skip n).Like form (d.skip n) where
  valid := h.valid.skip n
  valid' := h.valid'.skip n
  ahead := by rw [h.valid.ahead_skip, h.valid'.ahead_skip, List.map_drop, List.map_drop, h.ahead]
  marker := by rw [marker_skip, marker_skip, h.marker]

theorem advance (h : c.Like form d) : c.advance.Like form d.advance := h.skip 1

end Cursor.Like

/-- Token lists of one form are shown alike. -/
theorem Cursor.like_ofTokens {form : Form K} {tokens tokens' : List (Token K)}
    (channels : Channels) (h : tokens.map form.of = tokens'.map form.of)
    (hmarker : form.of (Token.endOf tokens) = form.of (Token.endOf tokens')) :
    (ofTokens channels tokens).Like form (ofTokens channels tokens') where
  valid := valid_ofTokens _ _
  valid' := valid_ofTokens _ _
  ahead := by
    have hend (t : Token K) : (form.of t).isEnd = t.isEnd := by
      simp only [Token.isEnd, form.kind_of]
    have hshows (t : Token K) : shows channels (form.of t) = shows channels t := by
      rw [shows, shows, hend, form.channels_of]
    have hshown (tokens : List (Token K)) :
        (shown channels tokens).map form.of = shown channels (tokens.map form.of) := by
      simp only [shown, List.takeWhile_map, List.filter_map, Function.comp_def, hend, hshows]
    rw [ahead_ofTokens, ahead_ofTokens, hshown, hshown, h]
  marker := hmarker

/-- What a report counts: how it predicts, and what was reported, by gravity. -/
def Report.summary (r : Report) : Prediction × Nat × List Severity :=
  (r.mode, r.errorCount, r.diagnostics.map Diagnostic.severity)

theorem Report.summary_eq_iff {r s : Report} : r.summary = s.summary ↔
    r.mode = s.mode ∧ r.errorCount = s.errorCount ∧
      r.diagnostics.map Diagnostic.severity = s.diagnostics.map Diagnostic.severity := by
  simp only [summary, Prod.mk.injEq]

theorem Report.summary_add {r s : Report} {d e : Diagnostic} (h : r.summary = s.summary)
    (hd : d.severity = e.severity) : (r.add d).summary = (s.add e).summary := by
  obtain ⟨hmode, hcount, hdiagnostics⟩ := summary_eq_iff.1 h
  have hiserror : d.isError = e.isError := by simp only [Diagnostic.isError, hd]
  refine summary_eq_iff.2 ⟨hmode, ?_, ?_⟩
  · rw [errorCount_add, errorCount_add, hcount, hiserror]
  · rw [diagnostics_add, diagnostics_add, List.map_append, List.map_append, hdiagnostics,
      List.map_singleton, List.map_singleton, hd]

/-- Two parsers that see tokens of one form and have reported as much. -/
structure Parser.Like (form : Form K) (p q : Parser K) : Prop where
  cursor : p.cursor.Like form q.cursor
  report : p.report.summary = q.report.summary

theorem Parser.Like.mode {form : Form K} {p q : Parser K} (h : p.Like form q) :
    p.report.mode = q.report.mode := (Report.summary_eq_iff.1 h.report).1

namespace Parse

/-- Two results that are alike: values in a relation, or two failures. -/
inductive Outcome (form : Form K) (V : α → β → Prop) :
    EStateM.Result ParseError (Parser K) α → EStateM.Result ParseError (Parser K) β → Prop
  | ok {a b p q} : V a b → p.Like form q → Outcome form V (.ok a p) (.ok b q)
  | error {d e p q} : p.Like form q → Outcome form V (.error d p) (.error e q)

/-- Two actions that give alike results to parsers that are alike. -/
def InStep (form : Form K) (V : α → β → Prop) (x : Parse K α) (y : Parse K β) : Prop :=
  ∀ ⦃p q⦄, p.Like form q → Outcome form V (x p) (y q)

/-- Tokens of one form. -/
def SameForm (form : Form K) (t u : Token K) : Prop := form.of t = form.of u

namespace InStep

variable {form : Form K} {V : α → β → Prop} {W : γ → δ → Prop} {x : Parse K α} {y : Parse K β}

/-! ## Composition -/

theorem pure {a : α} {b : β} (h : V a b) : InStep form V (Pure.pure a) (Pure.pure b) :=
  fun _ _ hp => .ok h hp

theorem bind {f : α → Parse K γ} {g : β → Parse K δ} (h : InStep form V x y)
    (hn : ∀ a b, V a b → InStep form W (f a) (g b)) : InStep form W (x >>= f) (y >>= g) := by
  intro p q hp
  have houtcome := h hp
  rw [bind_apply, bind_apply]
  generalize x p = r, y q = s at houtcome ⊢
  cases houtcome with
  | ok hv hp => exact hn _ _ hv hp
  | error hp => exact .error hp

theorem within {name : String} (h : InStep form V x y) :
    InStep form V (Parse.within name x) (Parse.within name y) := by
  intro p q hp
  have hopened : Parser.Like form { p with scopes := p.scopes ++ [name] }
      { q with scopes := q.scopes ++ [name] } := ⟨hp.cursor, hp.report⟩
  have houtcome := h hopened
  unfold Parse.within
  generalize x _ = r, y _ = s at houtcome ⊢
  cases houtcome with
  | ok hv hp => exact .ok hv ⟨hp.cursor, hp.report⟩
  | error hp => exact .error ⟨hp.cursor, hp.report⟩

/-- Two values, or none. -/
def Both (V : α → β → Prop) : Except ParseError α → Except ParseError β → Prop
  | .ok a, .ok b => V a b
  | .error _, .error _ => True
  | _, _ => False

theorem attempt (h : InStep form V x y) :
    InStep form (Both V) (Parse.attempt x) (Parse.attempt y) := by
  intro p q hp
  have houtcome := h hp
  unfold Parse.attempt
  generalize x p = r, y q = s at houtcome ⊢
  cases houtcome with
  | ok hv hp => exact .ok hv hp
  | error hp => exact .ok trivial hp

/-! ## Looking and moving -/

theorem peek : InStep form (SameForm form) Parse.peek Parse.peek :=
  fun _ _ hp => .ok hp.cursor.peek hp

theorem peekKind : InStep form Eq (Parse.peekKind : Parse K K) Parse.peekKind :=
  fun _ _ hp => .ok hp.cursor.peek_kind hp

theorem remaining : InStep form Eq (Parse.remaining : Parse K Nat) Parse.remaining :=
  fun _ _ hp => .ok hp.cursor.length_ahead hp

theorem at? (kind : K) : InStep form Eq (Parse.at? kind) (Parse.at? kind) :=
  fun _ _ hp => .ok (by rw [hp.cursor.peek_kind]) hp

theorem next : InStep form (SameForm form) Parse.next Parse.next :=
  fun _ _ hp => .ok hp.cursor.peek ⟨hp.cursor.advance, hp.report⟩

theorem skipAll : InStep form Eq (Parse.skipAll : Parse K Unit) Parse.skipAll := by
  intro p q hp
  refine .ok rfl ⟨?_, hp.report⟩
  rw [hp.cursor.length_ahead]
  exact hp.cursor.skip _

theorem eat (kind : K) :
    InStep form (Option.Rel (SameForm form)) (Parse.eat kind) (Parse.eat kind) := by
  intro p q hp
  unfold Parse.eat
  rw [hp.cursor.peek_kind]
  split
  · exact .ok (.some hp.cursor.peek) ⟨hp.cursor.advance, hp.report⟩
  · exact .ok .none hp

theorem lookahead (n : Nat) :
    InStep form (SameForm form) (Parse.lookahead n) (Parse.lookahead n) := by
  intro p q hp
  unfold Parse.lookahead Parse.lookaheadCharged
  rw [hp.mode]
  split
  · exact .error hp
  · exact .ok (hp.cursor.peekNth n) hp

/-! ## Faults -/

/-- All faults are errors, whatever they are about. -/
theorem fail (fault fault' : Fault K) :
    InStep form V (Parse.fail fault : Parse K α) (Parse.fail fault') :=
  fun _ _ hp => .error ⟨hp.cursor, Report.summary_add hp.report rfl⟩

theorem failHere (fault fault' : Token K → Fault K) :
    InStep form V (Parse.failHere fault : Parse K α) (Parse.failHere fault') :=
  fun p q hp => fail (fault p.cursor.peek) (fault' q.cursor.peek) hp

theorem emit (fault fault' : Fault K) :
    InStep form Eq (Parse.emit fault.diagnostic : Parse K Unit) (Parse.emit fault'.diagnostic) :=
  fun _ _ hp => .ok rfl ⟨hp.cursor, Report.summary_add hp.report rfl⟩

theorem expectOr (kind : K) (fault : Token K → Fault K) :
    InStep form (SameForm form) (Parse.expectOr kind fault) (Parse.expectOr kind fault) := by
  intro p q hp
  unfold Parse.expectOr
  rw [hp.cursor.peek_kind]
  split
  · exact .ok hp.cursor.peek ⟨hp.cursor.advance, hp.report⟩
  · exact failHere _ _ hp

end InStep
end Parse

/-! ## Parts -/

namespace Part

open BuiltInScript.Parse (InStep Outcome SameForm)

/-- Trees that are one when their tokens are put in a form. -/
def SameTrees (form : Form K) (a b : Trees R K) : Prop :=
  Tree.mapOf form.of a = Tree.mapOf form.of b

/-- A part that looks at nothing but the form of tokens. -/
abbrev Blind (form : Form K) (part : Parse K (Trees R K)) : Prop :=
  InStep form (SameTrees form) part part

variable {form : Form K} {part : Parse K (Trees R K)} {parts : List (Parse K (Trees R K))}

omit [DecidableEq K] [TokenKind K] in
theorem SameTrees.append {a b c d : Trees R K} (h : SameTrees form a b) (h' : SameTrees form c d) :
    SameTrees form (a ++ c) (b ++ d) := by
  rw [SameTrees, Tree.mapOf_append, Tree.mapOf_append, h, h']

omit [DecidableEq K] [TokenKind K] in
theorem SameTrees.token {t u : Token K} (h : SameForm form t u) :
    SameTrees (R := R) form [.token t] [.token u] := congrArg (fun t => [Tree.token t]) h

namespace Blind

theorem nothing : Blind form (pure [] : Parse K (Trees R K)) := .pure rfl

theorem any : Blind form (any : Parse K (Trees R K)) :=
  fun _ _ hp => .ok (.token hp.cursor.peek) ⟨hp.cursor.advance, hp.report⟩

theorem leafOr (kind : K) (fault : Token K → Fault K) :
    Blind form (leafOr kind fault : Parse K (Trees R K)) :=
  (InStep.expectOr kind fault).bind fun _ _ h => .pure (.token h)

theorem leaf (kind : K) : Blind form (leaf kind : Parse K (Trees R K)) := leafOr kind _

theorem optional (kind : K) : Blind form (optional kind : Parse K (Trees R K)) := by
  refine (InStep.eat kind).bind fun _ _ h => ?_
  cases h with
  | some h => exact .pure (.token h)
  | none => exact .pure rfl

theorem leavesWhile (test : K → Bool) :
    Blind form (leavesWhile test : Parse K (Trees R K)) := by
  intro p q hp
  have htake (tokens : List (Token K)) :
      (tokens.takeWhile fun t => test t.kind).map form.of =
        (tokens.map form.of).takeWhile fun t => test t.kind := by
    rw [List.takeWhile_map]
    simp only [Function.comp_def, form.kind_of]
  have hsame : (p.cursor.ahead.takeWhile fun t => test t.kind).map form.of =
      (q.cursor.ahead.takeWhile fun t => test t.kind).map form.of := by
    rw [htake, htake, hp.cursor.ahead]
  have hlength := congrArg List.length hsame
  rw [List.length_map, List.length_map] at hlength
  refine .ok ?_ ⟨?_, hp.report⟩
  · rw [SameTrees, Tree.mapOf_map_token, Tree.mapOf_map_token, hsame]
  · dsimp only
    rw [hlength]
    exact hp.cursor.skip _

theorem failHere (fault : Token K → Fault K) :
    Blind form (Parse.failHere fault : Parse K (Trees R K)) := InStep.failHere fault fault

theorem inOrder_cons (h : Blind form part) (hs : Blind form (inOrder parts)) :
    Blind form (inOrder (part :: parts)) :=
  h.bind fun _ _ ht => hs.bind fun _ _ hts => .pure (ht.append hts)

theorem byKind {part : K → Parse K (Trees R K)} (h : ∀ kind, Blind form (part kind)) :
    Blind form (byKind part) := by
  intro p q hp
  have hpart := h p.cursor.peek.kind hp
  unfold Part.byKind
  rwa [← hp.cursor.peek_kind]

theorem nodeOf (rule : R) (h : Blind form (inOrder parts)) :
    InStep form (fun m n : Node R K => m.map form.of = n.map form.of) (nodeOf rule parts)
      (nodeOf rule parts) :=
  h.bind fun _ _ hchildren => .pure (congrArg (fun children => ({ rule, children } : Node R K))
    hchildren)

theorem node (rule : R) (h : Blind form (inOrder parts)) :
    Blind form (node rule parts : Parse K (Trees R K)) := by
  refine (nodeOf rule h).bind fun m n hnode => .pure ?_
  exact congrArg (fun node : Node R K => [node.toTree]) hnode

theorem within (name : String) (h : Blind form part) : Blind form (Parse.within name part) :=
  InStep.within h

/-- The number of tokens ahead is the same for both parsers. -/
theorem counting {part : Nat → Parse K (Trees R K)} (h : ∀ n, Blind form (part n)) :
    Blind form (Parse.remaining >>= part) := by
  refine InStep.remaining.bind fun n m hn => ?_
  cases hn
  exact h n

/-- A run that is measured by the kinds of the tokens ahead. -/
theorem scan (rule : R) {read : List (Token K) → Nat × Option (Token K → Fault K)}
    (h : ∀ tokens tokens', tokens.map Token.kind = tokens'.map Token.kind →
      (read tokens).1 = (read tokens').1 ∧ (read tokens).2.isSome = (read tokens').2.isSome) :
    Blind form (scan rule read) := by
  intro p q hp
  obtain ⟨hlength, hfault⟩ := h _ _ (form.map_kind_eq hp.cursor.ahead)
  have hskip := hp.cursor.skip (read p.cursor.ahead).1
  unfold Part.scan
  dsimp only
  rw [← hlength]
  cases hread : (read p.cursor.ahead).2 <;> cases hread' : (read q.cursor.ahead).2 <;>
    rw [hread, hread'] at hfault
  · have hrun : (p.cursor.ahead.take (read p.cursor.ahead).1).map form.of =
        (q.cursor.ahead.take (read p.cursor.ahead).1).map form.of := by
      rw [List.map_take, List.map_take, hp.cursor.ahead]
    refine .ok ?_ ⟨hskip, hp.report⟩
    simp only [SameTrees, Tree.mapOf, Tree.map, Tree.mapOf_map_token, hrun]
  · cases hfault
  · cases hfault
  · exact InStep.failHere _ _ ⟨hskip, hp.report⟩

/-! ## Loops -/

/-- What turns of loops give alike: trees, and whether to go on. -/
def SameTurn (form : Form K) (a b : Trees R K × Option Unit) : Prop :=
  SameTrees form a.1 b.1 ∧ a.2 = b.2

theorem repeating {part : Unit → Parse K (Trees R K × Option Unit)}
    (h : InStep form (SameTurn form) (part ()) (part ())) : Blind form (repeating part ()) := by
  have hturns (n : Nat) : Blind form (repeatUpTo part n ()) := by
    induction n with
    | zero => exact nothing
    | succ n ih =>
      refine h.bind fun (trees, again) (trees', again') ⟨htrees, hagain⟩ => ?_
      cases hagain
      cases again with
      | none => exact .pure htrees
      | some _ => exact ih.bind fun _ _ hothers => .pure (htrees.append hothers)
  exact counting fun n => hturns (n + 1)

/-- The end of a turn: a separator, after which the loop goes on. -/
theorem eatSeparator (separator : K) {trees trees' : Trees R K} (h : SameTrees form trees trees') :
    InStep form (SameTurn form)
      (do match ← Parse.eat separator with
          | some token => return (trees ++ [.token token], some ())
          | none => return (trees, none))
      (do match ← Parse.eat separator with
          | some token => return (trees' ++ [.token token], some ())
          | none => return (trees', none)) := by
  refine (InStep.eat separator).bind fun _ _ hate => ?_
  cases hate with
  | some htoken => exact .pure ⟨h.append (.token htoken), rfl⟩
  | none => exact .pure ⟨h, rfl⟩

theorem whileAt (kind : K) (h : Blind form part) : Blind form (whileAt kind part) := by
  refine repeating ((InStep.at? kind).bind fun found _ hfound => ?_)
  cases hfound
  cases found
  · exact .pure ⟨rfl, rfl⟩
  · exact h.bind fun _ _ htrees => .pure ⟨htrees, rfl⟩

theorem separated (separator : K) (h : Blind form part) : Blind form (separated separator part) :=
  repeating (h.bind fun _ _ htrees => eatSeparator separator htrees)

theorem separatedUpTo (closer separator : K) (h : Blind form part) :
    Blind form (separatedUpTo closer separator part) := by
  refine repeating ((InStep.at? closer).bind fun found _ hfound => ?_)
  cases hfound
  cases found
  · exact h.bind fun _ _ htrees => eatSeparator separator htrees
  · exact .pure ⟨rfl, rfl⟩

/-! ## Recovery -/

/-- Going back to where a part began, and skipping from there. -/
theorem skipFrom_position {p r : Parser K} {sync : K → RecoveryPoint} {leaves : Trees R K}
    (h : p.Alike r) (hv : p.cursor.Valid)
    (hleaves : leaves = Recovery.leaves sync true p.cursor.ahead) :
    Parse.skipFrom p.cursor.position sync r =
      .ok leaves { r with cursor := p.cursor.skip leaves.length } := by
  unfold Parse.skipFrom
  dsimp only
  rw [h.seek_position hv, decide_eq_true rfl, ← hleaves]

/-- Both parsers go back to where the part began, and skip the same kinds of tokens from there. -/
theorem recovering (sync : K → RecoveryPoint) (hk : Parse.Keeps part) (h : Blind form part) :
    Blind form (recovering sync part) := by
  intro p q hp
  have houtcome := h hp
  generalize hr : part p = r, hr' : part q = s at houtcome
  cases houtcome with
  | ok htrees hp' =>
    rw [recovering_of_ok hr, recovering_of_ok hr']
    exact .ok htrees hp'
  | @error e e' r r' hp' =>
    cases hm : r.report.mode with
    | optimistic =>
      have hm' := hp'.mode.symm.trans hm
      rw [recovering_of_error_optimistic hr hm, recovering_of_error_optimistic hr' hm']
      exact .error hp'
    | general =>
      have hm' := hp'.mode.symm.trans hm
      have hkept := Parse.after_of_error hr ▸ hk p
      have hkept' := Parse.after_of_error hr' ▸ hk q
      have hleaves : SameTrees (R := R) form (Recovery.leaves sync true p.cursor.ahead)
          (Recovery.leaves sync true q.cursor.ahead) := by
        rw [SameTrees, Recovery.mapOf_leaves, Recovery.mapOf_leaves, hp.cursor.ahead]
      have hlength := congrArg List.length hleaves
      rw [Tree.length_mapOf, Tree.length_mapOf] at hlength
      rw [recovering_of_error_general hr hm, recovering_of_error_general hr' hm',
        skipFrom_position hkept hp.cursor.valid rfl,
        skipFrom_position hkept' hp.cursor.valid' rfl]
      refine .ok hleaves ⟨?_, hp'.report⟩
      dsimp only
      rw [hlength]
      exact hp.cursor.skip _

end Blind
end Part

/-! ## Whole sources -/

/-- Two parses that tell alike. -/
structure Parsed.Like (form : Form K) (a b : Parsed R K) : Prop where
  tree : a.tree.map form.of = b.tree.map form.of
  mode : a.mode = b.mode
  errorCount : a.errorCount = b.errorCount
  severities : a.diagnostics.map Diagnostic.severity = b.diagnostics.map Diagnostic.severity

namespace Language

variable {form : Form K} {lang : Language K R M F} {tokens tokens' : List (Token K)}

omit [DecidableEq K] [TokenKind K] in
theorem conclude_alike {tree tree' : Node R K} {report report' : Report}
    (htree : tree.map form.of = tree'.map form.of) (h : report.summary = report'.summary) :
    (conclude tree report).1.Like form (conclude tree' report').1 := by
  obtain ⟨hmode, hcount, hseverities⟩ := Report.summary_eq_iff.1 h
  exact ⟨htree, hmode, hcount, hseverities⟩

variable
  (h : Parse.InStep form (fun m n : Node R K => m.map form.of = n.map form.of) lang.root lang.root)
  (hc : (Cursor.onCode tokens).Like form (.onCode tokens'))
include h hc

theorem parseGeneral_alike (report report' : Report) :
    (lang.parseGeneral report (.onCode tokens)).1.Like form
      (lang.parseGeneral report' (.onCode tokens')).1 := by
  have hbegin : Parser.Like form
      { cursor := .onCode tokens, report := report.reset.setMode .general }
      { cursor := .onCode tokens', report := report'.reset.setMode .general } := ⟨hc, rfl⟩
  have houtcome := h hbegin
  unfold parseGeneral Parse.runOn
  generalize lang.root { cursor := .onCode tokens, report := report.reset.setMode .general } = r,
    lang.root { cursor := .onCode tokens', report := report'.reset.setMode .general } = s
    at houtcome ⊢
  cases houtcome with
  | ok htree hp => exact conclude_alike htree hp.report
  | error hp => exact conclude_alike rfl hp.report

/-- **Parsing goes by form.** Token lists that are shown alike are parsed alike. -/
theorem parse_alike (hk : Parse.Keeps lang.root) (report report' : Report) :
    (lang.parse report tokens).1.Like form (lang.parse report' tokens').1 := by
  have hrewind (report : Report) (tokens : List (Token K)) :
      (Parse.after lang.root { cursor := .onCode tokens, report }).cursor.rewind =
        .onCode tokens :=
    have hkept := hk { cursor := .onCode tokens, report }
    Cursor.rewind_eq_ofTokens hkept.tokens hkept.channels hkept.marker
  have hbegin : Parser.Like form
      { cursor := .onCode tokens, report := report.reset.setMode .optimistic }
      { cursor := .onCode tokens', report := report'.reset.setMode .optimistic } := ⟨hc, rfl⟩
  have houtcome := h hbegin
  have hback := hrewind (report.reset.setMode .optimistic) tokens
  have hback' := hrewind (report'.reset.setMode .optimistic) tokens'
  unfold parse Parse.runOn
  unfold Parse.after at hback hback'
  generalize lang.root { cursor := .onCode tokens, report := report.reset.setMode .optimistic } = r,
    lang.root { cursor := .onCode tokens', report := report'.reset.setMode .optimistic } = s
    at houtcome hback hback' ⊢
  cases houtcome with
  | ok htree hp =>
    dsimp only at hback hback' ⊢
    rw [(Report.summary_eq_iff.1 hp.report).2.1, hback, hback']
    split
    · exact conclude_alike htree hp.report
    · exact parseGeneral_alike h hc _ _
  | error hp =>
    dsimp only at hback hback' ⊢
    rw [hback, hback']
    exact parseGeneral_alike h hc _ _

end Language
end BuiltInScript
