import BuiltInScript.Module.Directive
import BuiltInScript.Proofs.Parsing.Longer

/-!
# Directive lines that go on

A directive that was complete stays the same directive when its line goes on. Only its condition
needs an argument: its length and its depth are bounded by the number of tokens on the line, so it
is read with other bounds on the longer line. It ends before `Тогда`, that is, before the shorter
line does, and there the bounds make no difference.

**Results.**
* `steady_conditionWithin`: whatever makes a condition malformed is reported.
* `carries_conditionWithin`: a condition is read in the same way on a longer line.
* `runOn_directive_append`: a directive that was read without complaint is read on every longer
  line.
* `runOn_directive_block`: a line of conditional compilation holds whatever follows its keyword.
-/
namespace BuiltInScript.Module

open BuiltInScript.Parse (Steady Carries Lasts)
open BuiltInScript.Parser (Longer)

section
variable {inner inner' operand operand' : Parse Kind Condition} {n n' m m' : Nat}

/-! ## Conditions -/

theorem steady_atom (h : Steady inner) : Steady (atom inner) := by
  refine Steady.next.bind fun token => ?_
  split
  · exact h.bind fun condition => (Steady.expectOr _ _).bind fun _ => .pure condition
  · split <;> exact .pure _
  · exact .pure _
  · exact .fail _

/-- What stands in brackets is shorter by the bracket. -/
theorem carries_atom (h : Carries n n' inner inner') (hs : Steady inner) :
    Carries (n + 1) (n' + 1) (atom inner) (atom inner') := by
  refine Parse.carries_next_bind (fun token _ => ?_) (steady_atom hs)
  split
  · refine h.bind hs (fun condition => ?_) fun condition => ?_
    · exact (Parse.carries_expectOr _ _).bind (.expectOr _ _) (fun _ => .pure condition)
        fun _ => .pure condition
    · exact (Steady.expectOr _ _).bind fun _ => .pure condition
  · split <;> exact .pure _
  · exact .pure _
  · exact Parse.carries_fail _

theorem steady_negated (h : Steady inner) (n : Nat) : Steady (negated inner n) := by
  induction n with
  | zero => exact steady_atom h
  | succ n ih =>
    refine (Steady.eat Kind.dirNot).bind fun found => ?_
    cases found with
    | none => exact steady_atom h
    | some _ => exact ih.bind fun condition => .pure (Condition.not condition)

/-- Each negation takes a token, so there are never too few of them. -/
theorem carries_negated (h : Carries n n' inner inner') (hs : Steady inner) (hm : m ≤ n + 1)
    (hm' : m' ≤ n' + 1) : Carries m m' (negated inner m) (negated inner' m') := by
  induction m generalizing m' with
  | zero => exact Parse.carries_zero_left (steady_negated hs 0)
  | succ m ih =>
    cases m' with
    | zero => exact Parse.carries_zero_right (steady_negated hs _)
    | succ m' =>
      refine Parse.carries_eat_bind (fun _ => ?_) ?_ (steady_negated hs (m + 1))
      · exact (ih (by omega) (by omega)).bind (steady_negated hs m)
          (fun condition => .pure (Condition.not condition))
          fun condition => .pure (Condition.not condition)
      · exact (carries_atom h hs).mono hm hm'

theorem steady_unary (h : Steady inner) : Steady (unary inner) :=
  Steady.remaining.bind fun n => steady_negated h n

theorem carries_unary (h : Carries n n' inner inner') (hs : Steady inner) :
    Carries (n + 1) (n' + 1) (unary inner) (unary inner') :=
  Parse.carries_remaining_bind fun _ _ hm hm' => carries_negated h hs hm hm'

variable {operator : Kind} {combine : Condition → Condition → Condition}

theorem steady_chainRest (h : Steady operand) (n : Nat) (left : Condition) :
    Steady (chainRest operator combine operand n left) := by
  induction n generalizing left with
  | zero => exact .pure left
  | succ n ih =>
    refine (Steady.eat operator).bind fun found => ?_
    cases found with
    | none => exact .pure left
    | some _ => exact h.bind fun right => ih (combine left right)

theorem carries_chainRest (h : Carries n n' operand operand') (hs : Steady operand) (hm : m ≤ n)
    (hm' : m' ≤ n') (left : Condition) :
    Carries m m' (chainRest operator combine operand m left)
      (chainRest operator combine operand' m' left) := by
  induction m generalizing m' left with
  | zero => exact Parse.carries_zero_left (.pure left)
  | succ m ih =>
    cases m' with
    | zero => exact Parse.carries_zero_right (steady_chainRest hs _ left)
    | succ m' =>
      refine Parse.carries_eat_bind (fun _ => ?_) (.pure left) (steady_chainRest hs (m + 1) left)
      exact (h.mono (by omega) (by omega)).bind hs
        (fun right => ih (by omega) (by omega) (combine left right))
        fun right => steady_chainRest hs m (combine left right)

theorem steady_chain (h : Steady operand) : Steady (chain operator combine operand) :=
  h.bind fun first => Steady.remaining.bind fun n => steady_chainRest h n first

theorem carries_chain (h : Carries n n' operand operand') (hs : Steady operand) :
    Carries n n' (chain operator combine operand) (chain operator combine operand') := by
  refine h.bind hs (fun first => ?_) fun first => ?_
  · exact Parse.carries_remaining_bind fun _ _ hm hm' => carries_chainRest h hs hm hm' first
  · exact Steady.remaining.bind fun n => steady_chainRest hs n first

end

/-- Whatever makes a condition malformed is reported. -/
theorem steady_conditionWithin (depth : Nat) : Steady (conditionWithin depth) := by
  induction depth with
  | zero => exact Steady.next.bind fun token => .fail (.missingSymbol token)
  | succ depth ih => exact steady_chain (steady_chain (steady_unary ih))

/-- A condition that ends before its line does is read in the same way on a longer line. -/
theorem carries_conditionWithin (depth depth' : Nat) :
    Carries depth depth' (conditionWithin depth) (conditionWithin depth') := by
  induction depth generalizing depth' with
  | zero => exact Parse.carries_zero_left (steady_conditionWithin 0)
  | succ depth ih =>
    cases depth' with
    | zero => exact Parse.carries_zero_right (steady_conditionWithin _)
    | succ depth' =>
      have hs := steady_conditionWithin depth
      exact carries_chain (carries_chain (carries_unary (ih depth') hs) (steady_unary hs))
        (steady_chain (steady_unary hs))

theorem steady_guardCondition : Steady guardCondition :=
  (Steady.remaining.bind fun n => (steady_conditionWithin n).bind fun condition =>
    (Steady.expectOr _ _).bind fun _ => .pure condition).within

/-- The `Тогда` after a condition shows that the condition ended before the line did. -/
theorem guardCondition_longer {more : List (Token Kind)} {p p' q : Parser Kind}
    {condition : Condition} (hl : Longer more p p') (hr : guardCondition p = .ok condition q) :
    ∃ q', guardCondition p' = .ok condition q' := by
  have hl' := hl.within "condition"
  obtain ⟨_, hr, -⟩ := Parse.within_eq_ok.1 hr
  obtain ⟨n, _, hn, hr⟩ := Parse.bind_eq_ok.1 hr
  cases hn
  obtain ⟨found, r, hread, hr⟩ := Parse.bind_eq_ok.1 hr
  obtain ⟨_, _, hthen, hr⟩ := Parse.bind_eq_ok.1 hr
  cases hr
  have hvalid := ((steady_conditionWithin _).of_ok hl'.valid hread).valid
  obtain ⟨hkind, -, -⟩ := Parse.expectOr_eq_ok.1 hthen
  have hahead := Parser.ahead_ne_nil hvalid hkind nofun
  obtain ⟨r', hread', hlr⟩ := carries_conditionWithin _ p'.cursor.ahead.length hl'
    (Nat.le_refl _) (Nat.le_refl _) hread hahead
  have hkind' : r'.cursor.peek.kind = .dirThen := hlr.peek hahead ▸ hkind
  have hthen' : Parse.expectOr .dirThen .missingThen r' = .ok _ _ :=
    Parse.expectOr_eq_ok.2 ⟨hkind', rfl, rfl⟩
  exact ⟨_, Parse.within_eq_ok.2 ⟨_, Parse.bind_eq_ok.2 ⟨_, _, rfl, Parse.bind_eq_ok.2
    ⟨_, _, hread', Parse.bind_eq_ok.2 ⟨_, _, hthen', rfl⟩⟩⟩, rfl⟩⟩

/-! ## Directives -/

/-- A malformed condition would have been reported. -/
theorem lasts_condition? : Lasts condition? := by
  intro more p p' q condition hl hr hq
  unfold condition? at hr ⊢
  rw [Parse.bind_apply, Parse.attempt] at hr
  cases hread : guardCondition p with
  | error e r =>
    rw [hread] at hr
    cases hr
    exact absurd hq (steady_guardCondition.error (q := r) hread)
  | ok read r =>
    rw [hread] at hr
    cases hr
    obtain ⟨q', hread'⟩ := guardCondition_longer hl hread
    exact ⟨q', by rw [Parse.bind_apply, Parse.attempt, hread']; rfl⟩

theorem lasts_directiveBody (hash keyword : Token Kind) : Lasts (directiveBody hash keyword) := by
  unfold directiveBody
  split
  · exact lasts_condition?.map Directive.ifBlock
  · exact lasts_condition?.map Directive.elseIf
  · exact .pure _
  · exact .pure _
  · exact Parse.lasts_expectOr_bind (by decide) _ fun name => .pure (Directive.region name.text)
  · exact .pure _
  · refine Parse.lasts_next_bind (fun path _ => ?_) fun path p q d hend hr => ?_
    · split
      · exact .pure _
      · exact .pure _
      · exact Parse.lasts_fail _
    · rw [hend] at hr
      cases hr
  · intro more p p' q d _ hr _
    cases hr
    exact ⟨_, rfl⟩
  · exact Parse.lasts_fail _

/-- Whatever is left on the line, the end of a directive comes to it; it is silent only where
nothing is left. -/
theorem directiveEnd_ok (p : Parser Kind) : ∃ q, directiveEnd p = .ok () q ∧
    (q.report.diagnostics = [] → p.report.diagnostics = []) := by
  unfold directiveEnd
  rw [Parse.bind_apply, Parse.peek]
  dsimp only
  split
  · exact ⟨p, rfl, id⟩
  · exact ⟨_, rfl, fun hq => by simp at hq⟩

theorem lasts_directive : Lasts directive := by
  refine Lasts.within (Parse.lasts_expectOr_bind (by decide) _ fun hash => ?_)
  refine Parse.lasts_next_bind (fun keyword _ => ?_) fun keyword p q d hend hr => ?_
  · intro more p p' r d hl hr hq
    obtain ⟨read, q, hbody, hr⟩ := Parse.bind_eq_ok.1 hr
    obtain ⟨_, s, hend, hr⟩ := Parse.bind_eq_ok.1 hr
    cases hr
    obtain ⟨_, hend', hsilent⟩ := directiveEnd_ok q
    cases hend.symm.trans hend'
    obtain ⟨q', hbody'⟩ := lasts_directiveBody hash keyword hl hbody (hsilent hq)
    obtain ⟨r', hend', -⟩ := directiveEnd_ok q'
    have hrest : (directiveEnd >>= fun _ => pure d) q' = .ok d r' :=
      Parse.bind_eq_ok.2 ⟨(), r', hend', rfl⟩
    exact ⟨r', Parse.bind_eq_ok.2 ⟨d, q', hbody', hrest⟩⟩
  · obtain ⟨_, _, hbody, -⟩ := Parse.bind_eq_ok.1 hr
    unfold directiveBody at hbody
    rw [hend] at hbody
    cases hbody

/-! ## Lines -/

/-- A directive that was read without complaint is read on every longer line. -/
theorem runOn_directive_append {line : List (Token Kind)} (extra : List (Token Kind))
    {report : Report} {d : Directive}
    (hr : (directive.runOn report (.onCode line)).1 = .ok d)
    (hsilent : (directive.runOn report (.onCode line)).2.2.diagnostics = []) :
    (directive.runOn report (.onCode (line ++ extra))).1 = .ok d := by
  obtain ⟨more, hmore⟩ := Cursor.shown_prefix_append .codeOnly line extra
  have hl : Longer more { cursor := .onCode line, report }
      { cursor := .onCode (line ++ extra), report } := by
    refine ⟨Cursor.valid_ofTokens _ _, Cursor.valid_ofTokens _ _, ?_⟩
    exact (Cursor.ahead_ofTokens _ _).trans (by rw [← hmore, ← Cursor.ahead_ofTokens]; rfl)
  unfold Parse.runOn at hr hsilent ⊢
  cases hread : directive { cursor := .onCode line, report } with
  | error e q => simp only [hread, reduceCtorEq] at hr
  | ok found q =>
    simp only [hread] at hr hsilent
    cases hr
    obtain ⟨q', hread'⟩ := lasts_directive hl hread hsilent
    simp only [hread']

/-- The condition that some tokens begin with and the `Тогда` after it, unless they are
malformed. -/
def conditionOf (tokens : List (Token Kind)) : Option Condition :=
  (guardCondition.runOn { mode := .general } (.onCode tokens)).1.toOption

/-- The directive of a line of conditional compilation, by the kind of its keyword and what follows
the keyword. -/
def blockDirective? : Kind → List (Token Kind) → Option Directive
  | .dirIf, rest => some (.ifBlock (conditionOf rest))
  | .dirElsIf, rest => some (.elseIf (conditionOf rest))
  | .dirElse, _ => some .otherwise
  | .dirEndIf, _ => some .endIf
  | _, _ => none

theorem condition?_ok {p : Parser Kind} {tokens : List (Token Kind)} (hv : p.cursor.Valid)
    (ha : p.cursor.ahead = Cursor.shown .codeOnly tokens) :
    ∃ q, condition? p = .ok (conditionOf tokens) q := by
  have hahead := Cursor.ahead_ofTokens .codeOnly tokens
  have hvalid := Cursor.valid_ofTokens .codeOnly tokens
  have hthere : Longer [] { cursor := .onCode tokens, report := { mode := .general } } p :=
    ⟨hvalid, hv, by rw [List.append_nil, ha]; exact hahead.symm⟩
  have hback : Longer [] p { cursor := .onCode tokens, report := { mode := .general } } :=
    ⟨hv, hvalid, by rw [List.append_nil, ha]; exact hahead⟩
  unfold condition? conditionOf Parse.runOn
  rw [Parse.bind_apply, Parse.attempt]
  cases hread : guardCondition p with
  | ok condition q =>
    obtain ⟨q', hread'⟩ := guardCondition_longer hback hread
    rw [hread']
    exact ⟨q, rfl⟩
  | error e q =>
    cases hread' : guardCondition { cursor := .onCode tokens, report := { mode := .general } } with
    | error e' q' => exact ⟨_, rfl⟩
    | ok condition q' =>
      -- Then it can be read at the other place too.
      obtain ⟨r, hr⟩ := guardCondition_longer hthere hread'
      rw [hread] at hr
      cases hr

theorem directiveBody_block (hash : Token Kind) {keyword : Token Kind}
    {rest : List (Token Kind)} {d : Directive} {p : Parser Kind}
    (h : blockDirective? keyword.kind rest = some d) (hv : p.cursor.Valid)
    (ha : p.cursor.ahead = Cursor.shown .codeOnly rest) :
    ∃ q, directiveBody hash keyword p = .ok d q := by
  obtain ⟨q, hread⟩ := condition?_ok hv ha
  unfold blockDirective? at h
  split at h <;> rename_i hkeyword <;> cases h <;> unfold directiveBody <;> rw [hkeyword]
  · exact ⟨q, Parse.bind_eq_ok.2 ⟨_, q, hread, rfl⟩⟩
  · exact ⟨q, Parse.bind_eq_ok.2 ⟨_, q, hread, rfl⟩⟩
  · exact ⟨p, rfl⟩
  · exact ⟨p, rfl⟩

/-- A line of conditional compilation always holds, whatever follows its keyword. -/
theorem runOn_directive_block {hash keyword : Token Kind} {rest : List (Token Kind)}
    {d : Directive} (report : Report) (hhash : hash.kind = .hash)
    (hcode : hash.channels = .codeOnly) (hcode' : keyword.channels = .codeOnly)
    (h : blockDirective? keyword.kind rest = some d) :
    (directive.runOn report (.onCode (hash :: keyword :: rest))).1 = .ok d := by
  have hkind : keyword.kind ≠ .endOfInput := fun hk => by rw [hk] at h; cases h
  have hshown : Cursor.shown .codeOnly (hash :: keyword :: rest) =
      hash :: keyword :: Cursor.shown .codeOnly rest := by
    have hnot : hash.isEnd = false := by simp [Token.isEnd, hhash, TokenKind.endOfInput]
    have hnot' : keyword.isEnd = false := by simpa [Token.isEnd, TokenKind.endOfInput] using hkind
    simp [Cursor.shown, Cursor.shows, hnot, hnot', hcode, hcode', Channels.meets, Channels.codeOnly]
  have hv : (Cursor.onCode (hash :: keyword :: rest)).Valid := Cursor.valid_ofTokens _ _
  have ha : (Cursor.onCode (hash :: keyword :: rest)).ahead =
      hash :: keyword :: Cursor.shown .codeOnly rest := (Cursor.ahead_ofTokens _ _).trans hshown
  generalize Cursor.onCode (hash :: keyword :: rest) = c at hv ha ⊢
  have hpeek : c.peek = hash := by rw [hv.peek_eq, ha]; rfl
  have hpeek' : c.advance.peek = keyword := by rw [hv.advance.peek_eq, hv.ahead_advance, ha]; rfl
  have ha' : c.advance.advance.ahead = Cursor.shown .codeOnly rest := by
    rw [hv.advance.ahead_advance, hv.ahead_advance, ha]
    rfl
  have htaken : Parse.expect .hash { cursor := c, report, scopes := ["directive"] } =
      .ok hash { cursor := c.advance, report, scopes := ["directive"] } := by
    rw [Parse.expect, Parse.expectOr, hpeek, if_pos hhash]
  have hnext : Parse.next { cursor := c.advance, report, scopes := ["directive"] } =
      .ok keyword { cursor := c.advance.advance, report, scopes := ["directive"] } := by
    rw [Parse.next, hpeek']
  obtain ⟨q, hbody⟩ := directiveBody_block hash
    (p := { cursor := c.advance.advance, report, scopes := ["directive"] }) h hv.advance.advance ha'
  obtain ⟨r, hend, -⟩ := directiveEnd_ok q
  have hread : directive { cursor := c, report } = .ok d { r with scopes := [] } :=
    Parse.within_eq_ok.2 ⟨r, Parse.bind_eq_ok.2 ⟨hash, _, htaken, Parse.bind_eq_ok.2
      ⟨keyword, _, hnext, Parse.bind_eq_ok.2 ⟨d, q, hbody, Parse.bind_eq_ok.2
        ⟨(), r, hend, rfl⟩⟩⟩⟩, rfl⟩
  unfold Parse.runOn
  simp only [hread]

end BuiltInScript.Module
