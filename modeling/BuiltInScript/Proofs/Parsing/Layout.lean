import BuiltInScript.Proofs.Languages
import BuiltInScript.Proofs.Parsing.Likeness
import Mathlib.Data.List.Basic
import Mathlib.Data.List.TakeWhile

/-!
# Layout

White space, comments and deleted text stand between the tokens that a parser is shown, and the
positions that it goes back to count them. Still it is nothing but the shown tokens that a parser
makes its trees of: a rule that goes back goes back to where it began, and what is shown from there
on is what was shown before. Two parsers that are shown the same do the same. They need not even be
shown end markers on the same channels, since no rule looks at the channels of a token: all that
this changes is the end marker that the tree of a source holds.

**Results.**
* `Placeless.bind`, `placeless_repeating`, `placeless_recovering`: it is kept when actions are put
  together that they do the same wherever their tokens stand.
* `Regular.placeless`: so does every part of the grammars.
* `Items.whole_outcome`: whole sources differ in their end markers.
* `Language.parse_of_shown`: token lists of which the same is shown are parsed the same, but for the
  end marker.
* `parse_withoutLayout`: a token list is parsed as it is without its layout.
-/
namespace BuiltInScript

open BuiltInScript.Part

variable {R K M F α β σ : Type}

variable [DecidableEq K] [TokenKind K]

/-! ## Parsers that are shown the same -/

/-- Tokens that are the same but for their channels. -/
def Token.SameButChannels (t u : Token K) : Prop := { t with channels := u.channels } = u

namespace Token.SameButChannels

omit [DecidableEq K] [TokenKind K]

theorem refl (t : Token K) : t.SameButChannels t := rfl

variable {t u : Token K}

theorem kind (h : t.SameButChannels u) : t.kind = u.kind := by
  have heq : { t with channels := u.channels } = u := h
  rw [← heq]

theorem span (h : t.SameButChannels u) : t.span = u.span := by
  have heq : { t with channels := u.channels } = u := h
  rw [← heq]

end Token.SameButChannels

/-- Two parsers that are shown the same, wherever that stands in their token lists. The end markers
after it may be on different channels. -/
structure Parser.Same (p q : Parser K) : Prop where
  valid : p.cursor.Valid
  valid' : q.cursor.Valid
  ahead : p.cursor.ahead = q.cursor.ahead
  marker : p.cursor.marker.SameButChannels q.cursor.marker
  report : p.report = q.report
  scopes : p.scopes = q.scopes

namespace Parser.Same

variable {p q : Parser K}

theorem peekNth (h : p.Same q) (n : Nat) :
    (p.cursor.peekNth n).SameButChannels (q.cursor.peekNth n) := by
  rw [Cursor.peekNth, Cursor.peekNth, h.ahead, List.getD_eq_getElem?_getD,
    List.getD_eq_getElem?_getD]
  cases q.cursor.ahead[n]? with
  | none => exact h.marker
  | some t => exact .refl t

theorem peek (h : p.Same q) : p.cursor.peek.SameButChannels q.cursor.peek := by
  rw [h.valid.peek_eq, h.valid'.peek_eq, h.ahead]
  cases q.cursor.ahead with
  | nil => exact h.marker
  | cons t ts => exact .refl t

/-- Only the end marker can be different. -/
theorem peek_eq (h : p.Same q) (hne : p.cursor.ahead ≠ []) : p.cursor.peek = q.cursor.peek := by
  rw [h.valid.peek_eq, h.valid'.peek_eq, ← h.ahead]
  cases ha : p.cursor.ahead with
  | nil => exact absurd ha hne
  | cons t ts => rfl

theorem peek_kind (h : p.Same q) : p.cursor.peek.kind = q.cursor.peek.kind := h.peek.kind

/-- A token that is not of the kind of end markers is ahead of both. -/
theorem peek_eq_of_kind (h : p.Same q) {kind : K} (hk : kind ≠ TokenKind.endOfInput)
    (hpeek : p.cursor.peek.kind = kind) : p.cursor.peek = q.cursor.peek :=
  h.peek_eq (mt h.valid.peek_kind_eq_end_iff.2 (hpeek ▸ hk))

theorem skip (h : p.Same q) (n : Nat) :
    Same { p with cursor := p.cursor.skip n } { q with cursor := q.cursor.skip n } where
  valid := h.valid.skip n
  valid' := h.valid'.skip n
  ahead := by rw [h.valid.ahead_skip, h.valid'.ahead_skip, h.ahead]
  marker := by
    rw [Cursor.marker_skip, Cursor.marker_skip]
    exact h.marker
  report := h.report
  scopes := h.scopes

theorem advance (h : p.Same q) :
    Same { p with cursor := p.cursor.advance } { q with cursor := q.cursor.advance } := h.skip 1

theorem withScopes (h : p.Same q) {scopes scopes' : List String} (hs : scopes = scopes') :
    Same { p with scopes } { q with scopes := scopes' } :=
  ⟨h.valid, h.valid', h.ahead, h.marker, h.report, hs⟩

theorem withReport (h : p.Same q) {report report' : Report} (hr : report = report') :
    Same { p with report } { q with report := report' } :=
  ⟨h.valid, h.valid', h.ahead, h.marker, hr, h.scopes⟩

end Parser.Same

namespace Parse

/-- The same result, and parsers that are shown the same after it. -/
inductive SameOutcome :
    EStateM.Result ParseError (Parser K) α → EStateM.Result ParseError (Parser K) α → Prop
  | ok {a p q} : p.Same q → SameOutcome (.ok a p) (.ok a q)
  | error {e p q} : p.Same q → SameOutcome (.error e p) (.error e q)

/-- An action that does the same wherever its tokens stand and whatever channels the end marker
after them is on. `more`: a token is known to be ahead where the action begins. -/
def Placeless (more : Prop) (action : Parse K α) : Prop :=
  ∀ ⦃p q⦄, p.Same q → (more → p.cursor.ahead ≠ []) → SameOutcome (action p) (action q)

namespace Placeless

variable {more : Prop} {action : Parse K α}

theorem weaken (h : Placeless False action) : Placeless more action :=
  fun _ _ hp _ => h hp False.elim

theorem pure (a : α) : Placeless more (Pure.pure a : Parse K α) := fun _ _ hp _ => .ok hp

theorem bind {next : α → Parse K β} (h : Placeless more action)
    (hn : ∀ a, Placeless False (next a)) : Placeless more (action >>= next) := by
  intro p q hp hm
  have houtcome := h hp hm
  rw [bind_apply, bind_apply]
  generalize action p = r, action q = s at houtcome ⊢
  cases houtcome with
  | ok hp => exact hn _ hp False.elim
  | error hp => exact .error hp

theorem within {name : String} (h : Placeless more action) :
    Placeless more (within name action) := by
  intro p q hp hm
  have houtcome := h (hp.withScopes (congrArg (· ++ [name]) hp.scopes)) hm
  unfold Parse.within
  generalize action { p with scopes := p.scopes ++ [name] } = r,
    action { q with scopes := q.scopes ++ [name] } = s at houtcome ⊢
  cases houtcome with
  | ok hr => exact .ok (hr.withScopes hp.scopes)
  | error hr => exact .error (hr.withScopes hp.scopes)

/-- An action that depends on what is ahead, and does not move past it. -/
theorem remaining_bind {next : Nat → Parse K β} (h : ∀ n, Placeless more (next n)) :
    Placeless more (Parse.remaining >>= next) := by
  intro p q hp hm
  rw [bind_apply, bind_apply]
  unfold Parse.remaining
  dsimp only
  rw [hp.ahead]
  exact h _ hp hm

theorem at? (kind : K) : Placeless more (Parse.at? kind) := by
  intro p q hp _
  unfold Parse.at?
  rw [hp.peek_kind]
  exact .ok hp

theorem eat {kind : K} (hk : kind ≠ TokenKind.endOfInput) : Placeless more (Parse.eat kind) := by
  intro p q hp _
  unfold Parse.eat
  rw [← hp.peek_kind]
  split
  · rename_i hpeek
    rw [hp.peek_eq_of_kind hk hpeek]
    exact .ok hp.advance
  · exact .ok hp

/-- The fault is about the same token but for its channels, and reported within the same rules. -/
theorem failHere {fault : Token K → Fault K} [hf : Fault.IgnoresChannels fault] :
    Placeless more (Parse.failHere fault : Parse K α) := by
  intro p q hp _
  obtain ⟨hdiagnostic, hspan⟩ := hf.same p.cursor.peek q.cursor.peek.channels
  rw [hp.peek] at hdiagnostic hspan
  unfold Parse.failHere Parse.fail Parser.errorAt
  rw [hspan, hdiagnostic, hp.report, hp.scopes]
  exact .error ⟨hp.valid, hp.valid', hp.ahead, hp.marker, rfl, rfl⟩

theorem expectOr {kind : K} {fault : Token K → Fault K} [Fault.IgnoresChannels fault]
    (hk : kind ≠ TokenKind.endOfInput) : Placeless more (Parse.expectOr kind fault) := by
  intro p q hp hm
  unfold Parse.expectOr
  rw [← hp.peek_kind]
  split
  · rename_i hpeek
    rw [hp.peek_eq_of_kind hk hpeek]
    exact .ok hp.advance
  · exact failHere hp hm

theorem look_bind {view : Prediction → List (Token K) → Token K → Option β}
    {next : β → Parse K α}
    (hi : ∀ mode tokens marker channels,
      (view mode tokens { marker with channels }).map next = (view mode tokens marker).map next)
    (h : ∀ b, Placeless more (next b)) : Placeless more (Parse.look view >>= next) := by
  intro p q hp hm
  have hview := hi p.report.mode p.cursor.ahead p.cursor.marker q.cursor.marker.channels
  rw [hp.marker] at hview
  rw [bind_apply, bind_apply]
  unfold Parse.look
  rw [← hp.report, ← hp.ahead]
  cases hb : view p.report.mode p.cursor.ahead p.cursor.marker with
  | none =>
    rw [hb, Option.map_none, Option.map_eq_none_iff] at hview
    rw [hview]
    dsimp only
    rw [hp.peek.span, hp.scopes]
    exact .error hp
  | some b =>
    rw [hb, Option.map_some, Option.map_eq_some_iff] at hview
    obtain ⟨b', hb', hnext⟩ := hview
    rw [hb']
    dsimp only
    rw [hnext]
    exact h b hp hm

end Placeless
end Parse

/-! ## Parts -/

namespace Part

open BuiltInScript.Parse (Placeless SameOutcome)

variable {more : Prop}

theorem placeless_any (hmore : more) : Placeless more (any : Parse K (Trees R K)) := by
  intro p q hp hm
  unfold any
  rw [hp.peek_eq (hm hmore)]
  exact .ok hp.advance

theorem placeless_leavesWhile (test : K → Bool) :
    Placeless more (leavesWhile test : Parse K (Trees R K)) := by
  intro p q hp _
  unfold leavesWhile
  rw [hp.ahead]
  exact .ok (hp.skip _)

theorem placeless_scan (rule : R) {read : List (Token K) → Nat × Option (Token K → Fault K)}
    (hf : ∀ tokens fault, (read tokens).2 = some fault → Fault.IgnoresChannels fault) :
    Placeless more (scan rule read) := by
  intro p q hp _
  unfold scan
  rw [hp.ahead]
  dsimp only
  split
  · rename_i fault hfault
    have := hf _ fault hfault
    exact Placeless.failHere (hp.skip _) False.elim
  · exact .ok (hp.skip _)

theorem placeless_repeating {part : σ → Parse K (Trees R K × Option σ)}
    (h : ∀ state, Placeless False (part state)) (state : σ) :
    Placeless more (repeating part state) := by
  have hn (n : Nat) (state : σ) : Placeless False (repeatUpTo part n state) := by
    induction n generalizing state with
    | zero => exact .pure []
    | succ n ih =>
      refine (h state).bind fun ⟨trees, again⟩ => ?_
      cases again with
      | none => exact .pure trees
      | some state => exact (ih state).bind fun others => .pure _
  exact .remaining_bind fun n => (hn (n + 1) state).weaken

/-- A part and the separator after it, if there is one. -/
theorem placeless_thenEat {part : Parse K (Trees R K)} (h : Placeless more part) {separator : K}
    (hs : separator ≠ TokenKind.endOfInput) :
    Placeless more (do
      let trees ← part
      match ← Parse.eat separator with
      | some token => return (trees ++ [Tree.token token], some ())
      | none => return (trees, none)) := by
  refine h.bind fun trees => (Placeless.eat hs).bind fun found => ?_
  cases found <;> exact .pure _

/-- A turn is chosen by the next token, or by the end marker but for its channels. -/
theorem Turn.placeless_choosing {choose : σ → Token K → K → Turn R K σ}
    (last : ∀ state token after part, choose state token after = .last part →
      Placeless False part)
    (going : ∀ state token after part state', choose state token after = .again part state' →
      token.kind ≠ TokenKind.endOfInput)
    (again : ∀ state token after part state', choose state token after = .again part state' →
      Placeless True part)
    (hi : ∀ state token after channels, token.kind = TokenKind.endOfInput →
      choose state { token with channels } after = choose state token after) (state : σ) :
    Placeless False (Turn.choosing choose state) := by
  intro p q hp _
  have hafter : (p.cursor.peekNth 1).kind = (q.cursor.peekNth 1).kind :=
    (hp.peekNth 1).kind
  have hsame : choose state q.cursor.peek (q.cursor.peekNth 1).kind =
      choose state p.cursor.peek (q.cursor.peekNth 1).kind := by
    by_cases hend : p.cursor.peek.kind = TokenKind.endOfInput
    · rw [← hp.peek]
      exact hi _ _ _ _ hend
    · rw [hp.peek_eq_of_kind hend rfl]
  unfold Turn.choosing
  rw [hafter, hsame]
  cases hchoose : choose state p.cursor.peek (q.cursor.peekNth 1).kind with
  | stop => exact .ok hp
  | last part => exact (last _ _ _ _ hchoose).bind (fun trees => .pure _) hp False.elim
  | again part state' =>
    have hne := mt hp.valid.peek_kind_eq_end_iff.2 (going _ _ _ _ _ hchoose)
    exact (again _ _ _ _ _ hchoose).bind (fun trees => .pure _) hp fun _ => hne

/-- Both parsers go back to where the part began, so they skip the same tokens from there. -/
theorem placeless_recovering {sync : K → RecoveryPoint} {part : Parse K (Trees R K)}
    (hk : Parse.Keeps part) (h : Placeless more part) : Placeless more (recovering sync part) := by
  intro p q hp hm
  have houtcome := h hp hm
  generalize hr : part p = r, hr' : part q = s at houtcome
  cases houtcome with
  | ok hr₂ =>
    rw [recovering_of_ok hr, recovering_of_ok hr']
    exact .ok hr₂
  | @error e r r' hr₂ =>
    cases hm : r.report.mode with
    | optimistic =>
      rw [recovering_of_error_optimistic hr hm,
        recovering_of_error_optimistic hr' (hr₂.report ▸ hm)]
      exact .error hr₂
    | general =>
      have hkept := Parse.after_of_error hr ▸ hk p
      have hkept' := Parse.after_of_error hr' ▸ hk q
      rw [recovering_of_error_general hr hm,
        recovering_of_error_general hr' (hr₂.report ▸ hm),
        Blind.skipFrom_position hkept hp.valid rfl,
        Blind.skipFrom_position hkept' hp.valid' rfl, hp.ahead]
      exact .ok (((hp.skip _).withReport hr₂.report).withScopes hr₂.scopes)

/-- **Parts are placeless.** Every part of the grammars does the same wherever its tokens stand,
whatever channels the end marker after them is on. -/
theorem Regular.placeless {takes : Bool} {part : Parse K (Trees R K)}
    (h : Regular more takes part) : Placeless more part := by
  induction h with
  | nothing => exact .pure []
  | any hm => exact placeless_any hm
  | leafOr hk => exact (Placeless.expectOr hk).bind fun token => .pure _
  | optional hk =>
    refine (Placeless.eat hk).bind fun found => ?_
    cases found <;> exact .pure _
  | leavesWhile test => exact placeless_leavesWhile test
  | failHere fault => exact .failHere
  | scan _ hf => exact placeless_scan _ hf
  | weaken _ ih => exact ih
  | inOrder _ _ ih ihs => exact ih.bind fun trees => ihs.bind fun others => .pure _
  | @byKind _ _ part _ ih =>
    intro p q hp _
    have houtcome := ih p.cursor.peek.kind hp (mt hp.valid.peek_kind_eq_end_iff.2)
    unfold Part.byKind
    rwa [← hp.peek_kind]
  | looking _ _ hi ih => exact .look_bind hi ih
  | counting _ ih => exact .remaining_bind ih
  | node _ ih => exact (ih.bind fun children => .pure _).bind fun node => .pure _
  | within _ ih => exact ih.within
  | separated hs _ ih => exact placeless_repeating (fun _ => placeless_thenEat ih hs) ()
  | separatedUpTo hs _ ih =>
    refine placeless_repeating (fun _ => (Placeless.at? _).bind fun closed => ?_) ()
    cases closed
    · exact placeless_thenEat ih hs
    · exact .pure _
  | repeating _ going _ hi ihl iha =>
    exact placeless_repeating (Turn.placeless_choosing ihl going iha hi) _
  | recovering sync _ hp ih => exact placeless_recovering hp.keeps ih

end Part

/-! ## Whole sources -/

namespace Part

open BuiltInScript.Parse (Placeless)

/-- The same result but for the end marker in its value, and parsers that are shown the same after
it. -/
inductive EndOutcome (value : Trees R K → Token K → α) :
    EStateM.Result ParseError (Parser K) α → EStateM.Result ParseError (Parser K) α → Prop
  | ok (trees : Trees R K) {p q} : p.Same q →
      EndOutcome value (.ok (value trees p.cursor.marker) p) (.ok (value trees q.cursor.marker) q)
  | error {e p q} : p.Same q → EndOutcome value (.error e p) (.error e q)

variable {item : K → Parse K (Trees R K)}

/-- Turns end with the end marker, or an item comes first. -/
theorem repeatUpTo_itemTurn (item : K → Parse K (Trees R K)) (n : Nat) (p : Parser K) :
    repeatUpTo (fun _ => itemTurn item) (n + 1) () p =
      if p.cursor.peek.kind = TokenKind.endOfInput then
        .ok [.token p.cursor.peek] { p with cursor := p.cursor.advance }
      else
        (item p.cursor.peek.kind >>= fun trees =>
          repeatUpTo (fun _ => itemTurn item) n () >>= fun others => pure (trees ++ others)) p := by
  have hturn : itemTurn item p =
      if p.cursor.peek.kind = TokenKind.endOfInput then
        .ok ([.token p.cursor.peek], none) { p with cursor := p.cursor.advance }
      else (item p.cursor.peek.kind >>= fun trees => pure (trees, some ())) p := by
    unfold itemTurn
    rw [Parse.bind_apply]
    dsimp only [Parse.peekKind]
    split <;> rfl
  rw [repeatUpTo, Parse.bind_apply, hturn]
  by_cases hend : p.cursor.peek.kind = TokenKind.endOfInput
  · rw [if_pos hend, if_pos hend]
    rfl
  · rw [if_neg hend, if_neg hend, Parse.bind_apply, Parse.bind_apply]
    cases item p.cursor.peek.kind p <;> rfl

/-- Turns are the same but for the end marker that they end with. -/
theorem Items.turns_outcome (h : Items item) (hi : ∀ kind, Placeless True (item kind)) {n : Nat}
    {p q : Parser K} (hp : p.Same q) (hn : p.cursor.ahead.length < n) :
    EndOutcome (fun trees marker => trees ++ [.token marker])
      (repeatUpTo (fun _ => itemTurn item) n () p)
      (repeatUpTo (fun _ => itemTurn item) n () q) := by
  induction n generalizing p q with
  | zero => omega
  | succ n ih =>
    rw [repeatUpTo_itemTurn, repeatUpTo_itemTurn, ← hp.peek_kind]
    split
    · rename_i hend
      have hnil := hp.valid.peek_kind_eq_end_iff.1 hend
      have hpeek : p.cursor.peek = p.cursor.marker := by rw [hp.valid.peek_eq, hnil, List.headD_nil]
      have hpeek' : q.cursor.peek = q.cursor.marker := by
        rw [hp.valid'.peek_eq, ← hp.ahead, hnil, List.headD_nil]
      rw [hpeek, hpeek', ← Cursor.marker_advance p.cursor, ← Cursor.marker_advance q.cursor]
      exact .ok [] hp.advance
    · rename_i hitem
      have hne := mt hp.valid.peek_kind_eq_end_iff.2 hitem
      have houtcome := hi p.cursor.peek.kind hp fun _ => hne
      rw [Parse.bind_apply, Parse.bind_apply]
      generalize hr : item p.cursor.peek.kind p = r, item p.cursor.peek.kind q = s at houtcome ⊢
      cases houtcome with
      | error hp' => exact .error hp'
      | @ok trees p' q' hp' =>
        obtain ⟨hpass, htakes⟩ := h.reads _ hitem hp.valid (fun _ => hne) hr
        have hshorter : p'.cursor.ahead.length < n := by
          have hlength := congrArg List.length (hpass.ahead_eq hp.valid)
          have hpos := List.length_pos_iff.2 (htakes rfl)
          rw [List.length_append] at hlength
          omega
        have hrest := ih hp' hshorter
        dsimp only
        rw [Parse.bind_apply, Parse.bind_apply]
        generalize repeatUpTo (fun _ => itemTurn item) n () p' = r,
          repeatUpTo (fun _ => itemTurn item) n () q' = s at hrest ⊢
        cases hrest with
        | error hp'' => exact .error hp''
        | ok others hp'' =>
          dsimp only
          rw [← List.append_assoc, ← List.append_assoc]
          exact .ok (trees ++ others) hp''

/-- The tree of a source: its items, and the end marker. -/
def sourceTree (rule : R) (items : Trees R K) (marker : Token K) : Node R K :=
  { rule, children := items ++ [.token marker] }

/-- A whole source is the same but for the end marker that it ends with. -/
theorem Items.whole_outcome (h : Items item) (hi : ∀ kind, Placeless True (item kind))
    (name : String) (rule : R) {p q : Parser K} (hp : p.Same q) :
    EndOutcome (sourceTree rule) (whole name rule item p) (whole name rule item q) := by
  have hopened := hp.withScopes (congrArg (· ++ [name]) hp.scopes)
  have hturns := h.turns_outcome hi hopened (Nat.lt_succ_self _)
  have hnode (p : Parser K) : nodeOf rule [repeating (fun _ => itemTurn item) ()] p =
      match repeatUpTo (fun _ => itemTurn item) (p.cursor.ahead.length + 1) () p with
      | .ok trees q => .ok { rule, children := trees } q
      | .error e q => .error e q := by
    unfold nodeOf inOrder repeating
    rw [Parse.bind_apply, Parse.bind_apply, Parse.bind_apply]
    dsimp only [Parse.remaining]
    cases repeatUpTo (fun _ => itemTurn item) (p.cursor.ahead.length + 1) () p with
    | error e q => rfl
    | ok trees q =>
      dsimp only [inOrder, Parse.bind_apply, Parse.pure_apply]
      rw [Parse.bind_apply]
      dsimp only [Parse.pure_apply]
      rw [List.append_nil]
  unfold whole Parse.within
  rw [hnode, hnode]
  dsimp only at hturns ⊢
  rw [← hp.ahead]
  generalize repeatUpTo (fun _ => itemTurn item) (p.cursor.ahead.length + 1) ()
      { p with scopes := p.scopes ++ [name] } = r,
    repeatUpTo (fun _ => itemTurn item) (p.cursor.ahead.length + 1) ()
      { q with scopes := q.scopes ++ [name] } = s at hturns ⊢
  cases hturns with
  | ok items hr => exact .ok items (hr.withScopes hp.scopes)
  | error hr => exact .error (hr.withScopes hp.scopes)

end Part

/-- Parsers that begin token lists of which the same is shown. -/
theorem Parser.same_onCode {tokens tokens' : List (Token K)}
    (hshown : Cursor.shown .codeOnly tokens = Cursor.shown .codeOnly tokens')
    (hend : (Token.endOf tokens).SameButChannels (Token.endOf tokens')) (report : Report) :
    Parser.Same { cursor := .onCode tokens, report } { cursor := .onCode tokens', report } where
  valid := Cursor.valid_ofTokens _ _
  valid' := Cursor.valid_ofTokens _ _
  ahead := by rw [Cursor.onCode, Cursor.onCode, Cursor.ahead_ofTokens, Cursor.ahead_ofTokens,
    hshown]
  marker := hend
  report := rfl
  scopes := rfl

namespace Language

variable {lang : Language K R M F} {item : K → Parse K (Trees R K)} {name : String} {rule : R}
  {tokens tokens' : List (Token K)}

/-- What a parse tells besides the tree of a source. -/
def parsedOf (rule : R) (items : Trees R K) (report : Report) (marker : Token K) : Parsed R K :=
  ⟨sourceTree rule items marker, report.mode, report.errorCount, report.diagnostics⟩

variable (h : Items item) (hi : ∀ kind, Parse.Placeless True (item kind))
  (hroot : lang.root = whole name rule item)
  (hshown : Cursor.shown .codeOnly tokens = Cursor.shown .codeOnly tokens')
  (hend : (Token.endOf tokens).SameButChannels (Token.endOf tokens'))
include h hi hroot hshown hend

/-- General prediction makes the same of token lists of which the same is shown, but for the end
marker. -/
theorem parseGeneral_of_shown (report : Report) : ∃ items left,
    (lang.parseGeneral report (.onCode tokens)).1 =
        parsedOf rule items left (Token.endOf tokens) ∧
      (lang.parseGeneral report (.onCode tokens')).1 =
        parsedOf rule items left (Token.endOf tokens') := by
  have houtcome := h.whole_outcome hi name rule
    (Parser.same_onCode hshown hend (report.reset.setMode .general))
  have hkeeps : Parse.Keeps (whole name rule item) := h.keeps_whole
  have hsucceeds : Parse.Succeeds (whole name rule item) := h.succeeds_whole
  have hleft := hkeeps { cursor := .onCode tokens, report := report.reset.setMode .general }
  have hright := hkeeps { cursor := .onCode tokens', report := report.reset.setMode .general }
  obtain ⟨tree, p, htree⟩ :=
    hsucceeds { cursor := .onCode tokens, report := report.reset.setMode .general } rfl
  unfold Parse.after at hleft hright
  unfold parseGeneral Parse.runOn
  rw [hroot]
  rw [htree] at houtcome hleft ⊢
  generalize whole name rule item
    { cursor := .onCode tokens', report := report.reset.setMode .general } = s at houtcome hright ⊢
  cases houtcome with
  | @ok items p q hp =>
    dsimp only at hleft hright ⊢
    refine ⟨items, p.report, ?_, ?_⟩
    · rw [hleft.marker]
      rfl
    · rw [hright.marker, hp.report]
      rfl

/-- So do the two phases. -/
theorem parse_of_shown (report : Report) : ∃ items left,
    (lang.parse report tokens).1 = parsedOf rule items left (Token.endOf tokens) ∧
      (lang.parse report tokens').1 = parsedOf rule items left (Token.endOf tokens') := by
  have houtcome := h.whole_outcome hi name rule
    (Parser.same_onCode hshown hend (report.reset.setMode .optimistic))
  have hkeeps : Parse.Keeps (whole name rule item) := h.keeps_whole
  have hleft := hkeeps { cursor := .onCode tokens, report := report.reset.setMode .optimistic }
  have hright := hkeeps { cursor := .onCode tokens', report := report.reset.setMode .optimistic }
  have hgeneral (report : Report) := parseGeneral_of_shown h hi hroot hshown hend report
  unfold Parse.after at hleft hright
  unfold parse Parse.runOn
  rw [hroot]
  generalize whole name rule item
      { cursor := .onCode tokens, report := report.reset.setMode .optimistic } = r,
    whole name rule item
      { cursor := .onCode tokens', report := report.reset.setMode .optimistic } = s
    at houtcome hleft hright ⊢
  cases houtcome with
  | @ok items p q hp =>
    dsimp only at hleft hright ⊢
    rw [hp.report, Cursor.rewind_eq_ofTokens hleft.tokens hleft.channels hleft.marker,
      Cursor.rewind_eq_ofTokens hright.tokens hright.channels hright.marker]
    split
    · refine ⟨items, q.report, ?_, ?_⟩
      · rw [hleft.marker]
        rfl
      · rw [hright.marker]
        rfl
    · exact hgeneral _
  | error hp =>
    dsimp only at hleft hright ⊢
    rw [hp.report, Cursor.rewind_eq_ofTokens hleft.tokens hleft.channels hleft.marker,
      Cursor.rewind_eq_ofTokens hright.tokens hright.channels hright.marker]
    exact hgeneral _

end Language

/-! ## Without layout -/

/-- A token list without what is not code, up to its first end marker. -/
def withoutLayout (tokens : List (Token K)) : List (Token K) :=
  (tokens.takeWhile fun t => !t.isEnd).filter (fun t => t.channels.code) ++
    tokens.dropWhile fun t => !t.isEnd

/-- A token list that ends with an end marker. -/
def Ended (tokens : List (Token K)) : Prop := ∃ t ∈ tokens.getLast?, t.isEnd = true

instance (tokens : List (Token K)) : Decidable (Ended tokens) :=
  decidable_of_iff (tokens.getLast?.any Token.isEnd = true) <| by
    cases h : tokens.getLast? <;> simp [Ended, h]

/-- There is a marker that is left where it stands. -/
theorem Ended.dropWhile_ne_nil {tokens : List (Token K)} (h : Ended tokens) :
    tokens.dropWhile (fun t => !t.isEnd) ≠ [] := by
  obtain ⟨last, hlast, hend⟩ := h
  intro hnil
  have := List.dropWhile_eq_nil_iff.1 hnil last (List.mem_of_getLast? hlast)
  simp [hend] at this

theorem shown_withoutLayout (tokens : List (Token K)) :
    Cursor.shown .codeOnly (withoutLayout tokens) = Cursor.shown .codeOnly tokens := by
  have hcode : ∀ t ∈ (tokens.takeWhile fun t => !t.isEnd).filter fun t => t.channels.code,
      (!t.isEnd) = true := fun t ht =>
    List.all_eq_true.1 List.all_takeWhile t ((List.mem_filter.1 ht).1)
  have hmarker : (tokens.dropWhile fun t => !t.isEnd).takeWhile (fun t => !t.isEnd) = [] :=
    List.takeWhile_eq_nil_iff.2 (List.dropWhile_get_zero_not _ tokens)
  rw [Cursor.shown_codeOnly, Cursor.shown_codeOnly, withoutLayout,
    List.takeWhile_append_of_pos hcode, hmarker, List.append_nil, List.filter_filter]
  simp only [Bool.and_self]

theorem endOf_withoutLayout {tokens : List (Token K)} (h : Ended tokens) :
    Token.endOf (withoutLayout tokens) = Token.endOf tokens := by
  have hlast : (withoutLayout tokens).getLast? = tokens.getLast? := by
    have hsplit : tokens.takeWhile (fun t => !t.isEnd) ++ tokens.dropWhile (fun t => !t.isEnd) =
        tokens := List.takeWhile_append_dropWhile
    rw [← congrArg List.getLast? hsplit, withoutLayout,
      List.getLast?_append_of_ne_nil _ h.dropWhile_ne_nil,
      List.getLast?_append_of_ne_nil _ h.dropWhile_ne_nil]
  rw [Token.endOf, Token.endOf, hlast]

/-- A language in which a token list is parsed as it is without its layout. -/
def Language.IgnoresLayout (lang : Language K R M F) (tokens : List (Token K)) : Prop :=
  ∀ report report', (lang.parse report tokens).1 = (lang.parse report' (withoutLayout tokens)).1

theorem ignoresLayout_of_items {lang : Language K R M F} {item : K → Parse K (Trees R K)}
    {name : String} {rule : R} (h : Items item) (hi : ∀ kind, Parse.Placeless True (item kind))
    (hroot : lang.root = whole name rule item) {tokens : List (Token K)} (ht : Ended tokens) :
    lang.IgnoresLayout tokens := by
  intro report report'
  have hend : (Token.endOf tokens).SameButChannels (Token.endOf (withoutLayout tokens)) := by
    rw [endOf_withoutLayout ht]
    exact .refl _
  obtain ⟨items, left, hwith, hwithout⟩ :=
    Language.parse_of_shown h hi hroot (shown_withoutLayout tokens).symm hend report
  rw [lang.parse_report report' report, hwith, hwithout, endOf_withoutLayout ht]

/-- **Layout never changes a parse.** For every token list of either language that ends with an end
marker, well-formed or not, a parse in two phases gives the tree, the mode, the error count and the
diagnostics that it gives for the list without what is not code. -/
theorem parse_withoutLayout (modules : List (Token Module.Kind)) (queries : List (Token Query.Kind))
    (hm : Ended modules) (hq : Ended queries) :
    moduleLanguage.IgnoresLayout modules ∧ queryLanguage.IgnoresLayout queries :=
  ⟨ignoresLayout_of_items Module.fileItems (fun kind => (Module.fileItem_regular kind).placeless)
      Module.file_eq_whole hm,
    ignoresLayout_of_items Query.packageItems
      (fun kind => (Query.packageItem_regular kind).placeless) Query.package_eq_whole hq⟩

/-- A closer without a block, a comment and a bracket that is not closed; a query that begins with a
blank and a bracket. -/
theorem parse_withoutLayout_malformed :
    (moduleLanguage.parse {}
      [⟨.kwEndIf, .codeOnly, "КонецЕсли", {}, 0, ⟨0, 18⟩⟩,
        ⟨.lineComment, .hiddenOnly, "//", {}, 1, ⟨18, 20⟩⟩,
        ⟨.leftParen, .codeOnly, "(", {}, 2, ⟨21, 22⟩⟩,
        ⟨.endOfInput, .hiddenOnly, "", {}, 3, ⟨22, 22⟩⟩]).1 =
      (moduleLanguage.parse {}
        [⟨.kwEndIf, .codeOnly, "КонецЕсли", {}, 0, ⟨0, 18⟩⟩,
          ⟨.leftParen, .codeOnly, "(", {}, 2, ⟨21, 22⟩⟩,
          ⟨.endOfInput, .hiddenOnly, "", {}, 3, ⟨22, 22⟩⟩]).1 ∧
    (queryLanguage.parse {}
      [⟨.whiteSpace, .hiddenOnly, " ", {}, 0, ⟨0, 1⟩⟩,
        ⟨.leftParen, .codeOnly, "(", {}, 1, ⟨1, 2⟩⟩,
        ⟨.endOfInput, .hiddenOnly, "", {}, 2, ⟨2, 2⟩⟩]).1 =
      (queryLanguage.parse {}
        [⟨.leftParen, .codeOnly, "(", {}, 1, ⟨1, 2⟩⟩,
          ⟨.endOfInput, .hiddenOnly, "", {}, 2, ⟨2, 2⟩⟩]).1 := by
  have h := parse_withoutLayout
    [⟨.kwEndIf, .codeOnly, "КонецЕсли", {}, 0, ⟨0, 18⟩⟩,
      ⟨.lineComment, .hiddenOnly, "//", {}, 1, ⟨18, 20⟩⟩,
      ⟨.leftParen, .codeOnly, "(", {}, 2, ⟨21, 22⟩⟩,
      ⟨.endOfInput, .hiddenOnly, "", {}, 3, ⟨22, 22⟩⟩]
    [⟨.whiteSpace, .hiddenOnly, " ", {}, 0, ⟨0, 1⟩⟩,
      ⟨.leftParen, .codeOnly, "(", {}, 1, ⟨1, 2⟩⟩,
      ⟨.endOfInput, .hiddenOnly, "", {}, 2, ⟨2, 2⟩⟩]
    (by decide) (by decide)
  exact ⟨h.1 {} {}, h.2 {} {}⟩

end BuiltInScript
