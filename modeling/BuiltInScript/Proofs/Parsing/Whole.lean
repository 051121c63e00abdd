import BuiltInScript.Parsing.TwoPhase
import BuiltInScript.Proofs.Parsing.Agreement

/-!
# Whole sources

The rule of a whole source repeats items up to the end marker, and takes that too. From what each
kind of item does follows what the rule does with any token list, and what the two phases of a
parse do.

**Results.**
* `Items.whole_reads`: the leaves of a whole source are the tokens ahead and the end marker.
* `Items.succeeds_whole`: general prediction gives a tree for every token list.
* `parse_leaves`, `parse_eq_parseGeneral`: so do the two phases, and the tree is the one that
  general prediction makes.
-/
namespace BuiltInScript

variable {R K M F α β σ : Type}

/-! ## Parsing that cannot fail -/

/-- An action that succeeds wherever general prediction begins it. -/
def Parse.Succeeds (action : Parse K α) : Prop :=
  ∀ p, p.report.mode = .general → ∃ a q, action p = .ok a q

namespace Parse

theorem Succeeds.pure (a : α) : Succeeds (Pure.pure a : Parse K α) := fun p _ => ⟨a, p, rfl⟩

theorem Succeeds.bind {action : Parse K α} {next : α → Parse K β} (h : Succeeds action)
    (hk : Keeps action) (hn : ∀ a, Succeeds (next a)) : Succeeds (action >>= next) := by
  intro p hm
  obtain ⟨a, q, ha⟩ := h p hm
  have hq := (after_of_ok ha ▸ hk p).mode
  obtain ⟨b, r, hb⟩ := hn a q (hq.trans hm)
  exact ⟨b, r, bind_eq_ok.2 ⟨a, q, ha, hb⟩⟩

theorem Succeeds.within {name : String} {action : Parse K α} (h : Succeeds action) :
    Succeeds (within name action) := by
  intro p hm
  obtain ⟨a, q, ha⟩ := h { p with scopes := p.scopes ++ [name] } hm
  exact ⟨a, _, within_eq_ok.2 ⟨q, ha, rfl⟩⟩

end Parse

variable [DecidableEq K] [TokenKind K]

namespace Part

open BuiltInScript.Parse (Succeeds Keeps Reads Agrees bind_eq_ok)

theorem succeeds_recovering {sync : K → RecoveryPoint} {part : Parse K (Trees R K)}
    (hk : Keeps part) : Succeeds (recovering sync part) := by
  intro p hm
  cases hpart : part p with
  | ok trees q => exact ⟨trees, q, recovering_of_ok hpart⟩
  | error e q =>
    have hmode := (Parse.after_of_error hpart ▸ hk p).mode
    rw [recovering_of_error_general hpart (hmode.trans hm)]
    exact ⟨_, _, rfl⟩

omit [DecidableEq K] [TokenKind K] in
theorem succeeds_repeatUpTo {part : σ → Parse K (Trees R K × Option σ)}
    (hk : ∀ state, Keeps (part state)) (h : ∀ state, Succeeds (part state)) (n : Nat) (state : σ) :
    Succeeds (repeatUpTo part n state) := by
  induction n generalizing state with
  | zero => exact .pure []
  | succ n ih =>
    refine (h state).bind (hk state) fun ⟨trees, again⟩ => ?_
    cases again with
    | none => exact .pure trees
    | some state =>
      exact (ih state).bind (keeps_repeatUpTo hk n state) fun others => .pure _

/-! ## Items -/

/-- An item, or the end marker, which is the last. -/
def itemTurn (item : K → Parse K (Trees R K)) : Parse K (Trees R K × Option Unit) := do
  let kind ← Parse.peekKind
  if kind = TokenKind.endOfInput then return (← any, none) else return (← item kind, some ())

/-- The rule of a whole source. -/
def whole (name : String) (rule : R) (item : K → Parse K (Trees R K)) : Parse K (Node R K) :=
  Parse.within name <| nodeOf rule [repeating (fun _ => itemTurn item) ()]

/-- What the items of a source have in common. -/
structure Items (item : K → Parse K (Trees R K)) : Prop where
  keeps : ∀ kind, kind ≠ TokenKind.endOfInput → Keeps (item kind)
  reads : ∀ kind, kind ≠ TokenKind.endOfInput → Reads Tree.leavesOf True true (item kind)
  agrees : ∀ kind, kind ≠ TokenKind.endOfInput → Agrees (item kind)
  succeeds : ∀ kind, kind ≠ TokenKind.endOfInput → Succeeds (item kind)

variable {item : K → Parse K (Trees R K)}

theorem Items.keeps_turn (h : Items item) : Keeps (itemTurn item) := by
  refine Keeps.bind (fun p => .refl p) fun kind => ?_
  split
  · exact Keeps.bind (fun p => .advance p) fun trees => .pure _
  · rename_i hk
    exact (h.keeps kind hk).bind fun trees => .pure _

theorem Items.agrees_turn (h : Items item) : Agrees (itemTurn item) := by
  refine Agrees.peekKind.bind fun kind => ?_
  split
  · exact agrees_any.bind fun trees => .pure _
  · rename_i hk
    exact (h.agrees kind hk).bind fun trees => .pure _

theorem Items.succeeds_turn (h : Items item) : Succeeds (itemTurn item) := by
  refine Succeeds.bind (fun p _ => ⟨_, p, rfl⟩) (fun p => .refl p) fun kind => ?_
  split
  · exact Succeeds.bind (fun p _ => ⟨_, _, rfl⟩) (fun p => .advance p) fun trees => .pure _
  · rename_i hk
    exact (h.succeeds kind hk).bind (h.keeps kind hk) fun trees => .pure _

/-- The end marker ends the loop, and before it every turn reads an item. -/
theorem itemTurn_eq_ok {p q : Parser K} {trees : Trees R K} {again : Option Unit}
    (h : itemTurn item p = .ok (trees, again) q) :
    p.cursor.peek.kind = TokenKind.endOfInput ∧ trees = [.token p.cursor.peek] ∧ again = none ∨
      p.cursor.peek.kind ≠ TokenKind.endOfInput ∧ item p.cursor.peek.kind p = .ok trees q ∧
        again = some () := by
  obtain ⟨kind, p', hkind, h⟩ := bind_eq_ok.1 h
  cases hkind
  split at h
  · cases h
    exact .inl ⟨‹_›, rfl, rfl⟩
  · obtain ⟨found, r, hfound, h⟩ := bind_eq_ok.1 h
    cases h
    exact .inr ⟨‹_›, hfound, rfl⟩

/-- Turns end with the end marker, and before it all tokens are read. -/
theorem Items.reads_turns (h : Items item) {n : Nat} {p q : Parser K} {trees : Trees R K}
    (hv : p.cursor.Valid) (hn : p.cursor.ahead.length < n)
    (hr : repeatUpTo (fun _ => itemTurn item) n () p = .ok trees q) :
    Tree.leavesOf trees = p.cursor.ahead ++ [p.cursor.marker] := by
  induction n generalizing p trees with
  | zero => omega
  | succ n ih =>
    obtain hlast | ⟨first, again, r, others, hfirst, hothers, rfl⟩ := repeatUpTo_succ_eq_ok hr
    · obtain ⟨hend, rfl, -⟩ | ⟨-, -, hagain⟩ := itemTurn_eq_ok hlast
      · -- Nothing is ahead of the end marker.
        have hnil := hv.peek_kind_eq_end_iff.1 hend
        simp [Tree.leavesOf, Tree.leaves, hv.peek_eq, hnil]
      · cases hagain
    · obtain ⟨-, -, hagain⟩ | ⟨hitem, hfound, -⟩ := itemTurn_eq_ok hfirst
      · cases hagain
      · have hne := mt hv.peek_kind_eq_end_iff.2 hitem
        obtain ⟨hpass, htakes⟩ := h.reads _ hitem hv (fun _ => hne) hfound
        have hahead := hpass.ahead_eq hv
        have hmarker := (Parse.after_of_ok hfound ▸ h.keeps _ hitem p).marker
        have hshorter : r.cursor.ahead.length < n := by
          have hlen := congrArg List.length hahead
          have hpos := List.length_pos_iff.2 (htakes rfl)
          rw [List.length_append] at hlen
          omega
        rw [Tree.leavesOf_append, ih (hpass.valid hv) hshorter hothers, hahead, hmarker,
          List.append_assoc]

variable {name : String} {rule : R}

/-- A whole source is a node over what its turns give. -/
theorem whole_eq_ok {p q : Parser K} {node : Node R K} (h : whole name rule item p = .ok node q) :
    ∃ trees r, repeatUpTo (fun _ => itemTurn item) (p.cursor.ahead.length + 1) ()
        { p with scopes := p.scopes ++ [name] } = .ok trees r ∧
      node = { rule, children := trees } := by
  obtain ⟨r, hnode, -⟩ := Parse.within_eq_ok.1 h
  obtain ⟨trees, htrees, rfl⟩ := nodeOf_eq_ok hnode
  exact ⟨trees, r, repeating_eq_ok (inOrder_singleton_eq_ok htrees), rfl⟩

/-- A whole source holds what is ahead, and the end marker. -/
theorem Items.whole_reads (h : Items item) {p q : Parser K} {node : Node R K}
    (hv : p.cursor.Valid) (hr : whole name rule item p = .ok node q) :
    node.leaves.1 = p.cursor.ahead ++ [p.cursor.marker] := by
  obtain ⟨trees, r, hturns, rfl⟩ := whole_eq_ok hr
  rw [Node.leaves_fresh]
  exact h.reads_turns (p := { p with scopes := p.scopes ++ [name] }) hv (Nat.lt_succ_self _) hturns

theorem Items.keeps_whole (h : Items item) : Keeps (whole name rule item) := by
  refine Keeps.within (Keeps.bind (Keeps.bind (keeps_repeating (fun _ => h.keeps_turn) ()) ?_) ?_)
  · exact fun trees => Keeps.bind (.pure []) fun others => .pure _
  · exact fun children => .pure _

theorem Items.agrees_whole (h : Items item) : Agrees (whole name rule item) := by
  refine Agrees.within
    (Agrees.bind (Agrees.bind (agrees_repeating (fun _ => h.agrees_turn) ()) ?_) ?_)
  · exact fun trees => Agrees.bind (.pure []) fun others => .pure _
  · exact fun children => .pure _

/-- General prediction always gives a tree. -/
theorem Items.succeeds_whole (h : Items item) : Succeeds (whole name rule item) := by
  have hk : Keeps (repeating (fun _ => itemTurn item) ()) :=
    keeps_repeating (fun _ => h.keeps_turn) ()
  have hs : Succeeds (repeating (fun _ => itemTurn item) ()) :=
    Succeeds.bind (fun p _ => ⟨_, p, rfl⟩) (fun p => .refl p) fun n =>
      succeeds_repeatUpTo (fun _ => h.keeps_turn) (fun _ => h.succeeds_turn) (n + 1) ()
  have hall : Keeps (inOrder [repeating (fun _ => itemTurn item) ()]) :=
    hk.bind fun trees => Keeps.bind (.pure []) fun others => .pure _
  exact Succeeds.within <|
    (hs.bind hk fun trees => Succeeds.bind (.pure []) (.pure []) fun others => .pure _).bind hall
      fun children => .pure _

end Part

/-! ## The two phases -/

namespace Language

open BuiltInScript.Part (Items whole)

section
variable {lang : Language K R M F} {item : K → Parse K (Trees R K)} {name : String} {rule : R}

theorem root_ok (h : Items item) (hroot : lang.root = whole name rule item) {report : Report}
    (hm : report.mode = .general) (cursor : Cursor K) :
    ∃ tree p, lang.root { cursor, report } = .ok tree p := by
  rw [hroot]
  exact h.succeeds_whole { cursor, report } hm

/-- A parse that general prediction makes of a token list. -/
theorem parseGeneral_eq (h : Items item) (hroot : lang.root = whole name rule item)
    (report : Report) (tokens : List (Token K)) :
    ∃ tree p, lang.root { cursor := .onCode tokens, report := { mode := .general } } = .ok tree p ∧
      lang.parseGeneral report (.onCode tokens) = conclude tree p.report := by
  obtain ⟨tree, p, hp⟩ :=
    root_ok h hroot (rfl : ({ mode := .general } : Report).mode = _) (.onCode tokens)
  refine ⟨tree, p, hp, ?_⟩
  unfold parseGeneral Parse.runOn
  rw [Report.setMode_reset, hp]

/-- The first phase succeeds with nothing to report. -/
theorem parse_of_ok {report : Report} {tokens : List (Token K)} {tree : Node R K} {p : Parser K}
    (hr : lang.root { cursor := .onCode tokens, report := { mode := .optimistic } } = .ok tree p)
    (hp : p.report = { mode := .optimistic }) :
    lang.parse report tokens = conclude tree { mode := .optimistic } := by
  unfold parse Parse.runOn
  rw [Report.setMode_reset, hr]
  simp only [hp, if_true]

/-- The first phase gives up, and the second one begins where it began. -/
theorem parse_of_error (h : Items item) (hroot : lang.root = whole name rule item)
    {report : Report} {tokens : List (Token K)} {e : ParseError} {p : Parser K}
    (hr : lang.root { cursor := .onCode tokens, report := { mode := .optimistic } } = .error e p) :
    lang.parse report tokens = lang.parseGeneral report (.onCode tokens) := by
  have hkeeps : Parse.Keeps lang.root := hroot ▸ h.keeps_whole
  have hp := Parse.after_of_error hr ▸ hkeeps { cursor := .onCode tokens,
                                                report := { mode := .optimistic } }
  have hrewind : p.cursor.rewind = .onCode tokens :=
    Cursor.rewind_eq_ofTokens hp.tokens hp.channels hp.marker
  unfold parse Parse.runOn
  rw [Report.setMode_reset, hr]
  simp only [hrewind]
  rfl

/-- The first phase makes the tree that general prediction makes, with nothing to report, or the
second phase begins where the first one began. -/
theorem parse_cases (h : Items item) (hroot : lang.root = whole name rule item)
    (report : Report) (tokens : List (Token K)) :
    (∃ tree p,
      lang.root { cursor := .onCode tokens, report := { mode := .general } } = .ok tree p ∧
      p.report = { mode := .general } ∧
      lang.parse report tokens = conclude tree { mode := .optimistic }) ∨
    lang.parse report tokens = lang.parseGeneral report (.onCode tokens) := by
  have hagrees : Parse.Agrees lang.root := hroot ▸ h.agrees_whole
  cases hr : lang.root { cursor := .onCode tokens, report := { mode := .optimistic } } with
  | ok tree p =>
    obtain ⟨hreport, hgeneral⟩ := hagrees rfl hr
    refine .inl ⟨tree, p.general, hgeneral, ?_, parse_of_ok hr hreport⟩
    rw [Parser.general, hreport]
    rfl
  | error e p => exact .inr (parse_of_error h hroot hr)

/-- The two phases give what general prediction alone gives. -/
theorem parse_eq_parseGeneral (h : Items item) (hroot : lang.root = whole name rule item)
    (report report' : Report) (tokens : List (Token K)) :
    (lang.parse report tokens).1 = { (lang.parseGeneral report' (.onCode tokens)).1 with
      mode := (lang.parse report tokens).1.mode } := by
  obtain ⟨tree, p, hp, hgeneral⟩ := parseGeneral_eq h hroot report' tokens
  rcases parse_cases h hroot report tokens with ⟨tree', p', hp', hreport, hparse⟩ | hparse
  · rw [hp] at hp'
    cases hp'
    rw [hparse, hgeneral, hreport]
    rfl
  · rw [hparse]
    rfl

/-- The tree of a parse holds the code of the token list, and one end marker. -/
theorem parse_leaves (h : Items item) (hroot : lang.root = whole name rule item)
    (report : Report) (tokens : List (Token K)) :
    (lang.parse report tokens).1.tree.leaves.1 =
      Cursor.shown .codeOnly tokens ++ [Token.endOf tokens] := by
  have hv : (Cursor.onCode tokens).Valid := Cursor.valid_ofTokens _ _
  obtain ⟨tree, p, hp, hgeneral⟩ := parseGeneral_eq h hroot report tokens
  rw [parse_eq_parseGeneral h hroot report report, hgeneral]
  rw [hroot] at hp
  rw [← Cursor.ahead_ofTokens]
  exact h.whole_reads hv hp

end

end Language
end BuiltInScript
