import BuiltInScript.Proofs.Histories
import BuiltInScript.Proofs.Module.Runs

/-!
# An expression is the longest run

What may be part of an expression depends on the tokens before it: on the last of them, and on the
brackets that are open after them. So an expression is told as a beginning of the tokens ahead, all
of which may follow the ones before them, and which cannot be made longer. The scan keeps the last
token and the open brackets, and finds just that.

What makes it hard to tell is that some tokens end an expression within brackets too, and that a
closing bracket of the wrong kind does not end it, but is a fault. So the scan may stop before the
longest run does.

**Results.**
* `nested_iff`: brackets are nested if all are closed, each by one of its kind.
* `surveyed_append`: what the scan finds from any token on.
* `Blames.unique`: there is one thing wrong with a run.
* `expression_longest`: what an expression is, and what is wrong where there is none.
-/
namespace BuiltInScript.Module

/-! ## Brackets -/

/-- The brackets open after a token. A closing bracket closes the innermost one. -/
def openAfter (opened : List OpenBracket) (t : Token Kind) : List OpenBracket :=
  match t.kind.closer? with
  | some closer => ⟨closer, t⟩ :: opened
  | none => if isClosingBracket t.kind then opened.tail else opened

section
variable {opened : List OpenBracket} {t : Token Kind} {closer : Kind}

theorem openAfter_opener (h : t.kind.closer? = some closer) :
    openAfter opened t = ⟨closer, t⟩ :: opened := by
  simp [openAfter, h]

theorem openAfter_closer (h : isClosingBracket t.kind = true) :
    openAfter opened t = opened.tail := by
  simp [openAfter, closer?_eq_none_of_isClosingBracket h, h]

theorem openAfter_plain (h : t.kind.closer? = none) (hclosing : isClosingBracket t.kind = false) :
    openAfter opened t = opened := by
  simp [openAfter, h, hclosing]

end

/-- The brackets that are open after some tokens, the innermost first. -/
def openIn (tokens : List (Token Kind)) : List OpenBracket := tokens.foldl openAfter []

theorem openIn_concat (tokens : List (Token Kind)) (t : Token Kind) :
    openIn (tokens ++ [t]) = openAfter (openIn tokens) t := by
  simp [openIn]

/-- A closing bracket is of the kind that closes the innermost open one. -/
def Closes (before : List (Token Kind)) (t : Token Kind) : Prop :=
  isClosingBracket t.kind = true →
    ∃ innermost, (openIn before).head? = some innermost ∧ innermost.closer = t.kind

/-- Properly nested brackets, each closed by one of its kind. -/
inductive Nested : List (Token Kind) → Prop
  | nil : Nested []
  | plain {t rest} : t.kind.closer? = none → isClosingBracket t.kind = false → Nested rest →
      Nested (t :: rest)
  | group {opener inner closer rest} : opener.kind.closer? = some closer.kind → Nested inner →
      Nested rest → Nested (opener :: inner ++ closer :: rest)

variable {run others before : List (Token Kind)}

theorem Nested.append (h : Nested run) (ho : Nested others) : Nested (run ++ others) := by
  induction h with
  | nil => exact ho
  | plain hcloser hclosing _ ih => exact .plain hcloser hclosing ih
  | group hcloser hinner _ _ ih =>
    rw [List.append_assoc, List.cons_append]
    exact .group hcloser hinner ih

theorem isClosingBracket_of_closer? {kind closer : Kind} (h : kind.closer? = some closer) :
    isClosingBracket closer = true := by
  cases kind <;> cases h <;> rfl

theorem isClosingBracket_eq_false_of_closer? {kind closer : Kind}
    (h : kind.closer? = some closer) : isClosingBracket kind = false := by
  cases kind <;> first | rfl | cases h

/-- Nested brackets are closed by brackets of their kinds, and leave open what was open before
them. -/
theorem Nested.closes (h : Nested run) (hbefore : Throughout Closes before) :
    Throughout Closes (before ++ run) ∧ openIn (before ++ run) = openIn before := by
  induction h generalizing before with
  | nil => simpa using hbefore
  | @plain t rest hcloser hclosing _ ih =>
    have ht : Throughout Closes (before ++ [t]) :=
      throughout_concat.2 ⟨hbefore, fun h => absurd (hclosing.symm.trans h) Bool.false_ne_true⟩
    have hopen : openIn (before ++ [t]) = openIn before := by
      rw [openIn_concat, openAfter_plain hcloser hclosing]
    rw [List.append_cons, ← hopen]
    exact ih ht
  | @group opener inner closer rest hcloser _ _ ihinner ihrest =>
    have hclosing := isClosingBracket_of_closer? hcloser
    have hopened : openIn (before ++ [opener]) = ⟨closer.kind, opener⟩ :: openIn before := by
      rw [openIn_concat, openAfter_opener hcloser]
    have hfirst : Throughout Closes (before ++ [opener]) :=
      throughout_concat.2 ⟨hbefore, fun h =>
        absurd ((isClosingBracket_eq_false_of_closer? hcloser).symm.trans h) Bool.false_ne_true⟩
    obtain ⟨hin, hinOpen⟩ := ihinner hfirst
    rw [hopened] at hinOpen
    have hclosed : Throughout Closes (before ++ [opener] ++ inner ++ [closer]) :=
      throughout_concat.2 ⟨hin, fun _ => ⟨⟨closer.kind, opener⟩, by rw [hinOpen]; rfl, rfl⟩⟩
    have hclosedOpen : openIn (before ++ [opener] ++ inner ++ [closer]) = openIn before := by
      rw [openIn_concat, hinOpen, openAfter_closer hclosing, List.tail_cons]
    have hparts : before ++ (opener :: inner ++ closer :: rest) =
        before ++ [opener] ++ inner ++ [closer] ++ rest := by simp
    rw [hparts, ← hclosedOpen]
    exact ihrest hclosed

/-- Tokens that leave brackets open: what is between two of these, and before and after all of
them, is nested. -/
inductive Leaves : List OpenBracket → List (Token Kind) → Prop
  | nested {run : List (Token Kind)} : Nested run → Leaves [] run
  | opens {opened before closer opener inner} :
      Leaves opened before → opener.kind.closer? = some closer → Nested inner →
      Leaves (⟨closer, opener⟩ :: opened) (before ++ opener :: inner)

theorem Leaves.append {opened : List OpenBracket} (h : Leaves opened run) (ho : Nested others) :
    Leaves opened (run ++ others) := by
  cases h with
  | nested hrun => exact .nested (hrun.append ho)
  | opens hbefore hcloser hinner =>
    rw [List.append_assoc, List.cons_append]
    exact .opens hbefore hcloser (hinner.append ho)

/-- Where no bracket is closed by one of another kind, only the open brackets are not nested. -/
theorem leaves_openIn (h : Throughout Closes run) : Leaves (openIn run) run := by
  induction run using List.reverseRecOn with
  | nil => exact .nested .nil
  | append_singleton run t ih =>
    obtain ⟨hrun, hcloses⟩ := throughout_concat.1 h
    have hleaves := ih hrun
    rw [openIn_concat]
    cases hcloser : t.kind.closer? with
    | some closer =>
      rw [openAfter_opener hcloser]
      exact .opens hleaves hcloser .nil
    | none =>
      cases hclosing : isClosingBracket t.kind with
      | false =>
        rw [openAfter_plain hcloser hclosing]
        exact hleaves.append (.plain hcloser hclosing .nil)
      | true =>
        obtain ⟨innermost, hhead, hkind⟩ := hcloses hclosing
        rw [openAfter_closer hclosing]
        generalize openIn run = opened at hleaves hhead
        cases hleaves with
        | nested => cases hhead
        | @opens outer before closer opener inner hbefore hopener hinner =>
          cases hhead
          -- the token makes a group of what the innermost bracket has opened
          have hgroup : Nested (opener :: inner ++ [t]) :=
            .group (by rw [hopener, ← hkind]) hinner .nil
          rw [List.append_assoc]
          exact hbefore.append hgroup

/-- Brackets are nested if all that are closed are closed by brackets of their kinds, and none is
left open. -/
theorem nested_iff : Nested run ↔ Throughout Closes run ∧ openIn run = [] := by
  refine ⟨fun h => h.closes (throughout_nil Closes), fun ⟨hcloses, hopen⟩ => ?_⟩
  have hleaves := leaves_openIn hcloses
  rw [hopen] at hleaves
  cases hleaves
  assumption

/-! ## What an expression goes up to -/

/-- A token is not part of the expression that the tokens before it are part of: it cannot be part
of any, or begins an operand right after another one, or, outside brackets, closes one, separates
expressions, or is the `=` that the expression goes up to. -/
def Stops (upToAssign : Bool) (before : List (Token Kind)) (t : Token Kind) : Prop :=
  endsExpression t.kind = true ∨
    (∃ previous, before.getLast? = some previous ∧ endsOperand previous.kind = true ∧
      startsOperand t.kind = true) ∨
    (openIn before = [] ∧ (isClosingBracket t.kind = true ∨ t.kind = .comma ∨
      (upToAssign = true ∧ t.kind = .assign)))

/-- The first closing bracket of another kind than the innermost open one requires. -/
structure FirstMismatch (run before : List (Token Kind)) (innermost : OpenBracket)
    (closer : Token Kind) : Prop where
  inRun : before ++ [closer] <+: run
  closes : Throughout Closes before
  isClosing : isClosingBracket closer.kind = true
  isInnermost : (openIn before).head? = some innermost
  differs : innermost.closer ≠ closer.kind

/-- What is wrong with a run that is no expression, if this token follows it. -/
inductive Blames (run : List (Token Kind)) (next : Token Kind) : Fault Kind → Prop
  | mismatched {before innermost closer} : FirstMismatch run before innermost closer →
      Blames run next (.mismatchedBracket innermost.closer closer innermost.opener)
  | unclosed {innermost} : Throughout Closes run → (openIn run).head? = some innermost →
      Blames run next (.unclosedBracket innermost.closer next innermost.opener)
  | missing : run = [] → Blames run next (.unexpected "expression" next)

section
variable {next : Token Kind} {innermost : OpenBracket} {closer : Token Kind}

/-- Up to the first mismatch, closing brackets are of the right kinds. -/
theorem FirstMismatch.longest (h : FirstMismatch run before innermost closer) :
    Longest (fun before t => ¬Closes before t) run before where
  isPrefix := (List.prefix_append ..).trans h.inRun
  goesOn := fun first t after heq hnot => hnot (h.closes first t after heq)
  stopped := by
    intro t after heq hcloses
    obtain ⟨left, hleft⟩ := h.inRun
    have hcloser : closer = t := by
      rw [List.append_assoc, heq] at hleft
      exact (List.cons.inj (List.append_cancel_left hleft)).1
    obtain ⟨opened, hhead, hkind⟩ := hcloses (hcloser ▸ h.isClosing)
    cases h.isInnermost.symm.trans hhead
    exact h.differs (hcloser ▸ hkind)

theorem FirstMismatch.not_throughout (h : FirstMismatch run before innermost closer) :
    ¬Throughout Closes run := by
  intro hcloses
  obtain ⟨left, hleft⟩ := h.inRun
  have hrun : run = before ++ closer :: left := by rw [← hleft]; simp
  exact h.longest.stopped closer left hrun (hcloses before closer left hrun)

/-- There is one thing wrong with a run. -/
theorem Blames.unique {fault other : Fault Kind} (h : Blames run next fault)
    (ho : Blames run next other) : other = fault := by
  cases h with
  | mismatched hfirst =>
    cases ho with
    | mismatched hfirst' =>
      cases hfirst.longest.unique hfirst'.longest
      cases hfirst.isInnermost.symm.trans hfirst'.isInnermost
      obtain ⟨left, hleft⟩ := hfirst.inRun
      obtain ⟨left', hleft'⟩ := hfirst'.inRun
      rw [← hleft, List.append_assoc, List.append_assoc] at hleft'
      cases List.append_cancel_left hleft'
      rfl
    | unclosed hcloses _ => exact absurd hcloses hfirst.not_throughout
    | missing hnil => exact absurd (hnil ▸ throughout_nil Closes) hfirst.not_throughout
  | unclosed hcloses hhead =>
    cases ho with
    | mismatched hfirst' => exact absurd hcloses hfirst'.not_throughout
    | unclosed _ hhead' =>
      cases hhead.symm.trans hhead'
      rfl
    | missing hnil =>
      rw [hnil] at hhead
      cases hhead
  | missing hnil =>
    cases ho with
    | mismatched hfirst' => exact absurd (hnil ▸ throughout_nil Closes) hfirst'.not_throughout
    | unclosed _ hhead' =>
      rw [hnil] at hhead'
      cases hhead'
    | missing => rfl

end

/-! ## What the scan finds -/

/-- A scan stops where the longest run does, or at the first bracket that closes another one than
the innermost. -/
inductive Surveyed (upToAssign : Bool) (tokens : List (Token Kind)) :
    List (Token Kind) → RunEnd → Prop
  | stopped {run : List (Token Kind)} :
      Longest (Stops upToAssign) tokens run → Throughout Closes run →
      Surveyed upToAssign tokens run (.stopped (openIn run))
  | mismatched {before innermost closer run} : Longest (Stops upToAssign) tokens run →
      FirstMismatch run before innermost closer →
      Surveyed upToAssign tokens before (.mismatched innermost)

/-- The kind of the last of some tokens. -/
def lastKind (tokens : List (Token Kind)) : Option Kind := tokens.getLast?.map Token.kind

@[simp] theorem lastKind_concat (tokens : List (Token Kind)) (t : Token Kind) :
    lastKind (tokens ++ [t]) = some t.kind := by
  simp [lastKind]

variable {upToAssign : Bool} {t : Token Kind} {ts : List (Token Kind)}

theorem expressionRun_of_stops (h : Stops upToAssign before t) :
    expressionRun upToAssign (openIn before) (lastKind before) (t :: ts) =
      ([], .stopped (openIn before)) := by
  unfold expressionRun
  rcases h with hends | ⟨previous, hlast, hends, hstarts⟩ | ⟨hopen, hkind⟩
  · simp [hends]
  · simp [lastKind, hlast, hends, hstarts]
  · dsimp only
    split
    · rfl
    · have hcloser : t.kind.closer? = none := by
        rcases hkind with hclosing | hcomma | ⟨-, hassign⟩
        · exact closer?_eq_none_of_isClosingBracket hclosing
        · rw [hcomma]
          rfl
        · rw [hassign]
          rfl
      rw [hcloser, hopen]
      dsimp only
      split
      · rfl
      · rename_i hnot
        have hstop : (t.kind = .comma || (upToAssign && t.kind = .assign)) = true := by
          rcases hkind with hclosing | hcomma | ⟨hup, hassign⟩
          · exact absurd hclosing hnot
          · simp [hcomma]
          · simp [hup, hassign]
        rw [if_pos (by simpa using hstop)]

/-- A token that does not stop a run is not caught by the first test of the scan. -/
theorem not_ends_of_not_stops (h : ¬Stops upToAssign before t) :
    ¬(endsExpression t.kind ||
      ((lastKind before).any endsOperand && startsOperand t.kind)) = true := by
  intro hstop
  rw [Bool.or_eq_true] at hstop
  refine h ?_
  rcases hstop with hends | hoperands
  · exact .inl hends
  · rw [Bool.and_eq_true, lastKind, Option.any_map, Option.any_eq_true] at hoperands
    obtain ⟨⟨previous, hlast, hends⟩, hstarts⟩ := hoperands
    exact .inr (.inl ⟨previous, hlast, hends, hstarts⟩)

theorem expressionRun_of_mismatched (h : ¬Stops upToAssign before t) {innermost : OpenBracket}
    (hclosing : isClosingBracket t.kind = true) (hhead : (openIn before).head? = some innermost)
    (hdiffers : innermost.closer ≠ t.kind) :
    expressionRun upToAssign (openIn before) (lastKind before) (t :: ts) =
      ([], .mismatched innermost) := by
  obtain ⟨outer, hopen⟩ := List.head?_eq_some_iff.1 hhead
  unfold expressionRun
  dsimp only
  rw [if_neg (not_ends_of_not_stops h), closer?_eq_none_of_isClosingBracket hclosing, hopen]
  dsimp only
  rw [if_pos hclosing, if_neg hdiffers]

theorem expressionRun_of_closes (h : ¬Stops upToAssign before t) (hcloses : Closes before t) :
    expressionRun upToAssign (openIn before) (lastKind before) (t :: ts) =
      (t :: (expressionRun upToAssign (openIn (before ++ [t])) (lastKind (before ++ [t])) ts).1,
        (expressionRun upToAssign (openIn (before ++ [t])) (lastKind (before ++ [t])) ts).2) := by
  conv => lhs; unfold expressionRun
  dsimp only
  rw [if_neg (not_ends_of_not_stops h), openIn_concat, lastKind_concat, openAfter]
  cases hcloser : t.kind.closer? with
  | some closer => rfl
  | none =>
    dsimp only
    by_cases hclosing : isClosingBracket t.kind = true
    · obtain ⟨innermost, hhead, hkind⟩ := hcloses hclosing
      obtain ⟨outer, hopen⟩ := List.head?_eq_some_iff.1 hhead
      rw [if_pos hclosing, if_pos hclosing, hopen]
      dsimp only
      rw [if_pos hkind, List.tail_cons]
    · rw [if_neg hclosing, if_neg hclosing, if_neg]
      intro hstop
      simp only [Bool.and_eq_true, Bool.or_eq_true, List.isEmpty_iff, decide_eq_true_eq] at hstop
      exact h (.inr (.inr ⟨hstop.1, .inr hstop.2⟩))

/-- **The scan.** From any token on, as long as nothing was wrong before it. -/
theorem surveyed_append (before : List (Token Kind)) {tokens : List (Token Kind)}
    (hgoes : Throughout (fun before t => ¬Stops upToAssign before t) before)
    (hcloses : Throughout Closes before) :
    Surveyed upToAssign (before ++ tokens)
      (before ++ (expressionRun upToAssign (openIn before) (lastKind before) tokens).1)
      (expressionRun upToAssign (openIn before) (lastKind before) tokens).2 := by
  induction tokens generalizing before with
  | nil =>
    rw [expressionRun, List.append_nil]
    exact .stopped (.whole hgoes) hcloses
  | cons t ts ih =>
    by_cases hstops : Stops upToAssign before t
    · rw [expressionRun_of_stops hstops, List.append_nil]
      exact .stopped (.of_stops hgoes hstops ts) hcloses
    · have hnext := throughout_concat.2 ⟨hgoes, hstops⟩
      by_cases ht : Closes before t
      · rw [expressionRun_of_closes hstops ht]
        have hrest := ih _ hnext (throughout_concat.2 ⟨hcloses, ht⟩)
        simpa only [List.append_assoc, List.singleton_append] using hrest
      · -- some bracket is open, or the token would stop the run
        obtain ⟨hclosing, hno⟩ := Classical.not_imp.1 ht
        obtain ⟨innermost, hhead⟩ : ∃ innermost, (openIn before).head? = some innermost := by
          cases hopen : openIn before with
          | nil => exact absurd (.inr (.inr ⟨hopen, .inl hclosing⟩)) hstops
          | cons innermost outer => exact ⟨innermost, rfl⟩
        have hdiffers : innermost.closer ≠ t.kind := fun heq => hno ⟨innermost, hhead, heq⟩
        obtain ⟨run, hle, hlongest⟩ := exists_longest hnext ts
        rw [expressionRun_of_mismatched hstops hclosing hhead hdiffers, List.append_nil]
        rw [List.append_assoc, List.singleton_append] at hlongest
        exact .mismatched hlongest ⟨hle, hcloses, hclosing, hhead, hdiffers⟩

theorem surveyed_expressionRun (upToAssign : Bool) (tokens : List (Token Kind)) :
    Surveyed upToAssign tokens (expressionRun upToAssign [] none tokens).1
      (expressionRun upToAssign [] none tokens).2 :=
  surveyed_append [] (throughout_nil _) (throughout_nil _)

/-- What the scan makes of the tokens ahead: how much of them an expression is, or how far it goes
and what is wrong there. -/
theorem readExpression_longest (upToAssign : Bool) (tokens : List (Token Kind)) :
    ∃ run, Longest (Stops upToAssign) tokens run ∧
      (run ≠ [] ∧ Nested run → readExpression upToAssign tokens = (run.length, none)) ∧
      (¬(run ≠ [] ∧ Nested run) → ∃ n fault, readExpression upToAssign tokens = (n, some fault) ∧
        ∀ marker, ∃ found, (tokens.drop n).headD marker = found ∧ (fault found).found = found ∧
          Blames run ((tokens.drop run.length).headD marker) (fault found)) := by
  have hsurvey := surveyed_expressionRun upToAssign tokens
  generalize hresult : expressionRun upToAssign [] none tokens = result at hsurvey
  obtain ⟨scanned, stop⟩ := result
  dsimp only at hsurvey
  cases hsurvey with
  | stopped hrun hcloses =>
    refine ⟨scanned, hrun, fun ⟨hne, hnested⟩ => ?_, fun hnot => ?_⟩
    · simp [readExpression, hresult, (nested_iff.1 hnested).2, hne]
    · cases hopen : openIn scanned with
      | nil =>
        have hnil : scanned = [] := Decidable.byContradiction fun hne =>
          hnot ⟨hne, nested_iff.2 ⟨hcloses, hopen⟩⟩
        subst hnil
        refine ⟨0, .unexpected "expression", ?_, fun marker => ⟨_, rfl, rfl, .missing rfl⟩⟩
        simp only [readExpression, hresult, hopen]
        rfl
      | cons innermost outer =>
        have hhead : (openIn scanned).head? = some innermost := by rw [hopen]; rfl
        refine ⟨scanned.length, fun t => .unclosedBracket innermost.closer t innermost.opener, ?_,
          fun marker => ⟨_, rfl, rfl, .unclosed hcloses hhead⟩⟩
        simp [readExpression, hresult, hopen]
  | @mismatched innermost closer run hrun hfirst =>
    refine ⟨run, hrun, fun ⟨_, hnested⟩ => ?_, fun _ => ?_⟩
    · exact absurd (nested_iff.1 hnested).1 hfirst.not_throughout
    · refine ⟨scanned.length, fun t => .mismatchedBracket innermost.closer t innermost.opener, ?_,
        fun marker => ⟨closer, ?_, rfl, .mismatched hfirst⟩⟩
      · simp [readExpression, hresult]
      · obtain ⟨left, rfl⟩ := hfirst.inRun.trans hrun.isPrefix
        rw [List.append_assoc, List.drop_left]
        rfl

/-! ## What an expression is -/

variable {p : Parser Kind} {n : Nat}

theorem expression_of_read (h : readExpression upToAssign p.cursor.ahead = (n, none)) :
    expression upToAssign p =
      .ok [.node .expression ((p.cursor.ahead.take n).map .token) {}]
        { p with cursor := p.cursor.skip n } := by
  rw [expression_eq_scan, Parse.within]
  simp only [Part.scan, h]

theorem expression_of_fault {fault : Token Kind → Fault Kind} {found : Token Kind}
    (h : readExpression upToAssign p.cursor.ahead = (n, some fault))
    (hfound : (p.cursor.skip n).peek = found) :
    expression upToAssign p =
      .error ⟨(fault found).span, p.scopes ++ ["expression"]⟩
        { p with
          cursor := p.cursor.skip n
          report := p.report.add ((fault found).diagnostic.withNote
            (Parse.traceback (p.scopes ++ ["expression"]))) } := by
  rw [expression_eq_scan, Parse.within]
  simp only [Part.scan, h, Parse.failHere, Parse.fail, Parser.errorAt, hfound]

/-- **Expressions.** The tokens ahead begin with one longest run. If that is not empty and its
brackets are nested, the expression is a node over it and passes it; else one thing is wrong with
it, which is reported, and the expression fails there. -/
theorem expression_longest (upToAssign : Bool) (channels : Channels) (tokens : List (Token Kind))
    (place : Nat) (report : Report) (scopes : List String) :
    let p : Parser Kind :=
      { cursor := (Cursor.ofTokens channels tokens).seek place, report, scopes }
    let rules := scopes ++ ["expression"]
    ∃ run, (∀ other, Longest (Stops upToAssign) p.cursor.ahead other ↔ other = run) ∧
      let passed := p.cursor.skip run.length
      p.cursor.ahead = run ++ passed.ahead ∧
      (run ≠ [] ∧ Nested run → expression upToAssign p =
        .ok [.node .expression (run.map .token) {}] { p with cursor := passed }) ∧
      (¬(run ≠ [] ∧ Nested run) → ∃ fault cursor,
        (∀ other, Blames run passed.peek other ↔ other = fault) ∧ cursor.peek = fault.found ∧
        expression upToAssign p =
          .error ⟨fault.span, rules⟩
            { p with
              cursor
              report := report.add (fault.diagnostic.withNote (Parse.traceback rules)) }) := by
  intro p rules
  have hvalid : p.cursor.Valid := Cursor.valid_seek (Token.isEnd_endOf tokens) place
  have hpeek (n : Nat) :
      (p.cursor.skip n).peek = (p.cursor.ahead.drop n).headD p.cursor.marker := by
    rw [(hvalid.skip n).peek_eq, hvalid.ahead_skip, Cursor.marker_skip]
  obtain ⟨run, hrun, hread, hfault⟩ := readExpression_longest upToAssign p.cursor.ahead
  have htake : p.cursor.ahead.take run.length = run :=
    (List.prefix_iff_eq_take.1 hrun.isPrefix).symm
  refine ⟨run, fun other => ⟨hrun.unique, fun h => h ▸ hrun⟩, ?_, fun h => ?_, fun h => ?_⟩
  · conv => lhs; rw [← List.take_append_drop run.length p.cursor.ahead]
    rw [htake, hvalid.ahead_skip]
  · rw [expression_of_read (hread h), htake]
  · obtain ⟨n, fault, hread, hfound⟩ := hfault h
    obtain ⟨found, hhead, hself, hblames⟩ := hfound p.cursor.marker
    rw [← hpeek] at hhead hblames
    exact ⟨fault found, p.cursor.skip n, fun other => ⟨hblames.unique, fun h => h ▸ hblames⟩,
      hhead.trans hself.symm, expression_of_fault hread hhead⟩

end BuiltInScript.Module
