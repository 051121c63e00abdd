import BuiltInScript.Proofs.Module.ConditionGrammar
import BuiltInScript.Proofs.Parsing.Longer

/-!
# The grammar of directives

A directive line is a `#` and a command: a keyword with what it requires. A `DirectiveLine` is a
derivation of a line, and `directive` of its command is what the line stands for.

A line that is none of these is complained of once. What remains of it after a command, or after a
condition that cannot be read, is passed over, and the directive holds all the same.

**Results.**
* `DirectiveLine.yield_injective`: a line has one derivation.
* `DirectiveLine.takes`: a line is read in silence, as the directive that it stands for.
* `directive_cases`: reading anything else reports one error, and whenever there is a result nothing
  is left of the line.
* `directive_exact`: all this about whole token lists.
-/
namespace BuiltInScript.Module

open Condition (Phrase Level Derives)

/-! ## Lines -/

/-- A condition and the `Тогда` after it. -/
structure Guard where
  condition : Phrase (.chain .or)
  closer : Token Kind
  isThen : closer.kind = .dirThen

def Guard.yield (g : Guard) : List (Token Kind) := g.condition.yield ++ [g.closer]

/-- What stands after the `#` of a directive. -/
inductive Command where
  | ifBlock (keyword : Token Kind) (h : keyword.kind = .dirIf) (guard : Guard)
  | elseIf (keyword : Token Kind) (h : keyword.kind = .dirElsIf) (guard : Guard)
  | otherwise (keyword : Token Kind) (h : keyword.kind = .dirElse)
  | endIf (keyword : Token Kind) (h : keyword.kind = .dirEndIf)
  | region (keyword : Token Kind) (h : keyword.kind = .dirRegion) (name : Token Kind)
      (hname : name.kind = .dirIdentifier)
  | endRegion (keyword : Token Kind) (h : keyword.kind = .dirEndRegion)
  | use (keyword : Token Kind) (h : keyword.kind = .dirUse) (library : Token Kind)
      (hlibrary : library.kind = .dirUsePath ∨ library.kind = .dirString)
  | shebang (keyword : Token Kind) (h : keyword.kind = .dirExclamation) (text : List (Token Kind))

/-- A library is named by a path or by a string literal. -/
def libraryName (library : Token Kind) : String :=
  if library.kind = .dirString then unquote library.text else library.text

namespace Command

def keyword : Command → Token Kind
  | .ifBlock keyword _ _ | .elseIf keyword _ _ | .otherwise keyword _ | .endIf keyword _
  | .region keyword _ _ _ | .endRegion keyword _ | .use keyword _ _ _
  | .shebang keyword _ _ => keyword

/-- The kind of keyword that commands of a sort begin with. -/
def sort : Command → Kind
  | .ifBlock .. => .dirIf
  | .elseIf .. => .dirElsIf
  | .otherwise .. => .dirElse
  | .endIf .. => .dirEndIf
  | .region .. => .dirRegion
  | .endRegion .. => .dirEndRegion
  | .use .. => .dirUse
  | .shebang .. => .dirExclamation

/-- The tokens after the keyword. -/
def operands : Command → List (Token Kind)
  | .ifBlock _ _ guard | .elseIf _ _ guard => guard.yield
  | .otherwise _ _ | .endIf _ _ | .endRegion _ _ => []
  | .region _ _ token _ | .use _ _ token _ => [token]
  | .shebang _ _ text => text

/-- The directive that a command stands for. -/
def directive : Command → Directive
  | .ifBlock _ _ guard => .ifBlock (some guard.condition.value)
  | .elseIf _ _ guard => .elseIf (some guard.condition.value)
  | .otherwise _ _ => .otherwise
  | .endIf _ _ => .endIf
  | .region _ _ name _ => .region name.text
  | .endRegion _ _ => .endRegion
  | .use _ _ library _ => .use (libraryName library)
  | .shebang _ _ _ => .shebang

theorem keyword_kind (c : Command) : c.keyword.kind = c.sort := by
  cases c <;> assumption

theorem keyword_not_isEnd (c : Command) : c.keyword.isEnd = false := by
  rw [Token.isEnd, c.keyword_kind]
  cases c <;> rfl

end Command

/-- A derivation of a directive line. -/
structure DirectiveLine where
  hash : Token Kind
  isHash : hash.kind = .hash
  command : Command

def DirectiveLine.yield (l : DirectiveLine) : List (Token Kind) :=
  l.hash :: l.command.keyword :: l.command.operands

/-! ## Unambiguity -/

theorem Guard.yield_injective {g g' : Guard} (h : g.yield = g'.yield) : g = g' := by
  obtain ⟨s, closer, hthen⟩ := g
  obtain ⟨s', closer', hthen'⟩ := g'
  obtain ⟨rfl, hcloser⟩ := s.unique s' h (Level.ends_then hthen) (Level.ends_then hthen')
  cases hcloser
  rfl

/-- A command is determined by its keyword and what stands after it. -/
theorem Command.eq_of_yield {c c' : Command} (hk : c.keyword = c'.keyword)
    (ho : c.operands = c'.operands) : c = c' := by
  have hs : c.sort = c'.sort := by rw [← c.keyword_kind, ← c'.keyword_kind, hk]
  cases c <;> cases c' <;> cases hs <;> cases hk <;> first
    | (cases Guard.yield_injective ho; rfl)
    | (cases ho; rfl)

/-- **Unambiguity.** A line has one derivation. -/
theorem DirectiveLine.yield_injective {l l' : DirectiveLine} (h : l.yield = l'.yield) : l = l' := by
  obtain ⟨hash, isHash, c⟩ := l
  obtain ⟨hash', isHash', c'⟩ := l'
  obtain ⟨rfl, hcommand⟩ := List.cons.inj h
  obtain ⟨hk, ho⟩ := List.cons.inj hcommand
  cases Command.eq_of_yield hk ho
  rfl

/-! ## Lines are read -/

theorem Guard.takes (g : Guard) :
    Parse.Takes guardCondition g.yield g.condition.value fun _ => True := by
  refine .within (.remaining_bind fun n hn => ?_)
  have hpos : 0 < g.condition.yield.length := g.condition.yield_pos
  rw [Guard.yield, List.length_append, List.length_singleton] at hn
  obtain ⟨depth, rfl⟩ : ∃ depth, n = depth + 1 := ⟨n - 1, by omega⟩
  refine .bind (Level.takes_read fun n hn => g.condition.takes (by omega) hn) ?_
    fun _ _ => Level.ends_then g.isThen
  exact (Parse.Takes.expectOr _ g.isThen).map fun _ => g.condition.value

theorem Guard.takes_condition? (g : Guard) :
    Parse.Takes condition? g.yield (some g.condition.value) fun _ => True := by
  intro p rest hp _
  rw [condition?, Parse.bind_apply, Parse.attempt, g.takes hp trivial]
  rfl

theorem takes_skipAll (tokens : List (Token Kind)) :
    Parse.Takes Parse.skipAll tokens () (· = []) := by
  rintro p rest hp rfl
  rw [List.append_nil] at hp
  rw [Parse.skipAll, hp.ahead]
  rfl

theorem Command.takes (hash : Token Kind) (c : Command) :
    Parse.Takes (directiveBody hash c.keyword) c.operands c.directive (· = []) := by
  unfold directiveBody
  rw [c.keyword_kind]
  cases c with
  | ifBlock _ _ guard => exact (guard.takes_condition?.map Directive.ifBlock).anywhere
  | elseIf _ _ guard => exact (guard.takes_condition?.map Directive.elseIf).anywhere
  | otherwise => exact .pure _
  | endIf => exact .pure _
  | region _ _ name hname =>
    exact (Parse.Takes.expectOr _ hname).map fun name => Directive.region name.text
  | endRegion => exact .pure _
  | use _ _ library hlibrary =>
    refine .next_bind ?_
    rcases hlibrary with hpath | hstring
    · simp only [Command.directive, libraryName, hpath, reduceCtorEq, if_false]
      exact .pure _
    · simp only [Command.directive, libraryName, hstring, if_true]
      exact .pure _
  | shebang _ _ text => exact (takes_skipAll text).map fun _ => Directive.shebang

theorem takes_directiveEnd : Parse.Takes directiveEnd [] () (· = []) := by
  rintro p rest hp rfl
  have hend : p.cursor.peek.isEnd = true := hp.valid.atEnd_iff.2 hp.ahead
  rw [directiveEnd, Parse.bind_apply, Parse.peek]
  simp only [hend, if_true]
  rfl

/-- **Completeness.** A directive line is read in silence, as the directive that it stands for. -/
theorem DirectiveLine.takes (l : DirectiveLine) :
    Parse.Takes directive l.yield l.command.directive (· = []) := by
  have hend := takes_directiveEnd.map fun _ => l.command.directive
  have hbody : Parse.Takes (directiveBody l.hash l.command.keyword >>= fun directive => do
      directiveEnd
      return directive) (l.command.operands ++ []) l.command.directive (· = []) :=
    (l.command.takes l.hash).bind hend fun _ h => h
  rw [List.append_nil] at hbody
  have hhash : Parse.Takes (Parse.expect .hash) [l.hash] l.hash fun _ => True :=
    .expectOr _ l.isHash
  exact .within (hhash.bind (.next_bind hbody) fun _ _ => trivial)

/-! ## What else is read -/

/-- Reading went wrong: one error is reported, and if there is a result all the same then nothing is
left of the line. -/
inductive Complains {α : Type} (p : Parser Kind) :
    EStateM.Result ParseError (Parser Kind) α → Prop
  | held {q : Parser Kind} {a : α} {d : Diagnostic} : q.Faces [] → d.isError = true →
      q.report = p.report.add d → Complains p (.ok a q)
  | failed {q : Parser Kind} {e : ParseError} {d : Diagnostic} : d.isError = true →
      q.report = p.report.add d → Complains p (.error e q)

/-- Reading comes to what `means` describes, in silence, or it goes wrong. -/
inductive Comes {α : Type} (means : List (Token Kind) → α → Prop) (p : Parser Kind) :
    EStateM.Result ParseError (Parser Kind) α → Prop
  | read {q : Parser Kind} {a : α} {tokens : List (Token Kind)} :
      p.cursor.Passes q.cursor tokens → means tokens a → q.report = p.report →
      Comes means p (.ok a q)
  | wrong {r : EStateM.Result ParseError (Parser Kind) α} : Complains p r → Comes means p r

section
variable {α β : Type} {means : List (Token Kind) → α → Prop}
  {means' : List (Token Kind) → β → Prop} {action : Parse Kind α} {p : Parser Kind}

theorem Comes.of_finds (h : Parse.Finds means action) (hv : p.cursor.Valid) :
    Comes means p (action p) := by
  cases hr : action p with
  | ok a q =>
    obtain ⟨_, hpq, hm, hsilent⟩ := h.read hv hr
    exact .read hpq hm hsilent
  | error e q =>
    obtain ⟨-, d, hd, hreport⟩ := h.fault hv hr
    exact .wrong (.failed hd hreport)

theorem Comes.map (h : Comes means p (action p)) {f : α → β}
    (hm : ∀ tokens a, means tokens a → means' tokens (f a)) :
    Comes means' p ((action >>= fun a => pure (f a)) p) := by
  rw [Parse.bind_apply]
  cases hr : action p with
  | ok a q =>
    rw [hr] at h
    cases h with
    | read hpq ha hsilent => exact .read hpq (hm _ _ ha) hsilent
    | wrong hc =>
      cases hc with
      | held hq hd hreport => exact .wrong (.held hq hd hreport)
  | error e q =>
    rw [hr] at h
    cases h with
    | wrong hc =>
      cases hc with
      | failed hd hreport => exact .wrong (.failed hd hreport)

end

theorem finds_guardCondition :
    Parse.Finds (fun tokens c => ∃ g : Guard, g.yield = tokens ∧ g.condition.value = c)
      guardCondition := by
  refine .within (.remaining_bind fun n => ?_)
  refine (Condition.finds_conditionWithin n).bind fun tokens c hc => ?_
  refine (Parse.Finds.expectOr (by decide) _).bind fun more closer hcloser => .pure ?_
  obtain ⟨s, rfl, rfl⟩ := hc
  obtain ⟨rfl, hthen⟩ := hcloser
  exact ⟨⟨s, closer, hthen⟩, by simp [Guard.yield], rfl⟩

variable {p : Parser Kind}

/-- Where no guard is ahead, there is no condition, and the whole line is passed. -/
theorem condition?_of_not_guard {rest : List (Token Kind)} (hp : p.Faces rest)
    (h : ∀ g : Guard, ¬ g.yield <+: rest) : ∃ (q : Parser Kind) (d : Diagnostic),
      condition? p = .ok none q ∧ q.Faces [] ∧ d.isError = true ∧ q.report = p.report.add d := by
  cases hread : guardCondition p with
  | ok c q =>
    obtain ⟨_, hpq, ⟨g, rfl, -⟩, -⟩ := finds_guardCondition.read hp.valid hread
    exact absurd (hp.ahead ▸ hpq.isPrefix) (h g)
  | error e q =>
    obtain ⟨hv, d, hd, hreport⟩ := finds_guardCondition.fault hp.valid hread
    refine ⟨q.skip q.cursor.ahead.length, d, ?_, Parser.Faces.skip_all ⟨hv, rfl⟩, hd, hreport⟩
    rw [condition?, Parse.bind_apply, Parse.attempt, hread]
    rfl

theorem comes_condition? (hv : p.cursor.Valid) :
    Comes (fun tokens c => ∃ g : Guard, g.yield = tokens ∧ some g.condition.value = c) p
      (condition? p) := by
  by_cases h : ∃ g : Guard, g.yield <+: p.cursor.ahead
  · obtain ⟨g, rest, hg⟩ := h
    have hp : p.Faces (g.yield ++ rest) := ⟨hv, hg.symm⟩
    rw [g.takes_condition? hp trivial]
    exact .read hp.passes ⟨g, rfl, rfl⟩ rfl
  · obtain ⟨q, d, hr, hq, hd, hreport⟩ :=
      condition?_of_not_guard ⟨hv, rfl⟩ fun g hg => h ⟨g, hg⟩
    rw [hr]
    exact .wrong (.held hq hd hreport)

/-- A command, with its keyword already read, or a complaint. -/
theorem comes_directiveBody (hash keyword : Token Kind) (hv : p.cursor.Valid) :
    Comes (fun tokens d => ∃ c : Command, c.keyword = keyword ∧ c.operands = tokens ∧
      c.directive = d) p (directiveBody hash keyword p) := by
  by_cases hif : keyword.kind = .dirIf
  · simp only [directiveBody, hif]
    refine (comes_condition? hv).map fun tokens c hc => ?_
    obtain ⟨g, rfl, rfl⟩ := hc
    exact ⟨.ifBlock keyword hif g, rfl, rfl, rfl⟩
  by_cases helse : keyword.kind = .dirElsIf
  · simp only [directiveBody, helse]
    refine (comes_condition? hv).map fun tokens c hc => ?_
    obtain ⟨g, rfl, rfl⟩ := hc
    exact ⟨.elseIf keyword helse g, rfl, rfl, rfl⟩
  refine .of_finds ?_ hv
  unfold directiveBody
  split <;> rename_i hk
  · exact absurd hk hif
  · exact absurd hk helse
  · exact .pure ⟨.otherwise keyword hk, rfl, rfl, rfl⟩
  · exact .pure ⟨.endIf keyword hk, rfl, rfl, rfl⟩
  · refine (Parse.Finds.expectOr (by decide) _).bind fun tokens name hname => .pure ?_
    obtain ⟨rfl, hname⟩ := hname
    exact ⟨.region keyword hk name hname, rfl, rfl, rfl⟩
  · exact .pure ⟨.endRegion keyword hk, rfl, rfl, rfl⟩
  · refine .next_bind (fun library _ => ?_) fun library hend => ?_
    · split <;> rename_i hlibrary
      · refine .pure ⟨.use keyword hk library (.inl hlibrary), rfl, rfl, ?_⟩
        simp [Command.directive, libraryName, hlibrary]
      · refine .pure ⟨.use keyword hk library (.inr hlibrary), rfl, rfl, ?_⟩
        simp [Command.directive, libraryName, hlibrary]
      · exact .fail _
    · have hkind : library.kind = .endOfInput := by
        simpa [Token.isEnd, TokenKind.endOfInput] using hend
      simp only [hkind]
      exact .fail _
  · refine Parse.Finds.skipAll.bind fun tokens _ _ => .pure ?_
    exact ⟨.shebang keyword hk tokens, rfl, by simp [Command.operands], rfl⟩
  · exact .fail _

/-- The end of a directive is silent where nothing is left, and complains of anything else. -/
theorem directiveEnd_cases (hv : p.cursor.Valid) :
    (p.cursor.ahead = [] ∧ directiveEnd p = .ok () p) ∨ Complains p (directiveEnd p) := by
  unfold directiveEnd
  rw [Parse.bind_apply, Parse.peek]
  dsimp only
  split
  · rename_i hend
    exact .inl ⟨hv.atEnd_iff.1 hend, rfl⟩
  · have hp : p.Faces p.cursor.ahead := ⟨hv, rfl⟩
    exact .inr (.held ⟨hp.skip_all.valid, hp.skip_all.ahead⟩ rfl rfl)

/-- What follows the keyword, to the end of the line. -/
def commandRest (hash keyword : Token Kind) : Parse Kind Directive := do
  let directive ← directiveBody hash keyword
  directiveEnd
  return directive

theorem commandRest_cases (hash keyword : Token Kind) {rest : List (Token Kind)}
    (hp : p.Faces rest) :
    (∃ c : Command, c.keyword = keyword ∧ c.operands = rest) ∨
      Complains p (commandRest hash keyword p) := by
  have hbody := comes_directiveBody hash keyword hp.valid
  rw [commandRest, Parse.bind_apply]
  generalize directiveBody hash keyword p = r at hbody ⊢
  cases hbody with
  | @read q d tokens hpq hc hsilent =>
    have hahead := hpq.ahead_eq hp.valid
    dsimp only
    rcases directiveEnd_cases (hpq.valid hp.valid) with ⟨hend, -⟩ | hcomplains
    · obtain ⟨c, hk, rfl, -⟩ := hc
      exact .inl ⟨c, hk, by rw [← hp.ahead, hahead, hend, List.append_nil]⟩
    · rw [Parse.bind_apply]
      generalize directiveEnd q = r at hcomplains ⊢
      cases hcomplains with
      | held hr hd hreport => exact .inr (.held hr hd (hsilent ▸ hreport))
      | failed hd hreport => exact .inr (.failed hd (hsilent ▸ hreport))
  | wrong hcomplains =>
    cases hcomplains with
    | held hq hd hreport =>
      dsimp only
      rw [Parse.bind_apply, takes_directiveEnd.whole hq]
      exact .inr (.held hq hd hreport)
    | failed hd hreport => exact .inr (.failed hd hreport)

theorem Complains.congr {α : Type} {q : Parser Kind}
    {r : EStateM.Result ParseError (Parser Kind) α} (h : Complains p r)
    (hreport : q.report = p.report) : Complains q r := by
  cases h with
  | held hq hd ha => exact .held hq hd (hreport ▸ ha)
  | failed hd ha => exact .failed hd (hreport ▸ ha)

theorem Complains.within {α : Type} {action : Parse Kind α} {name : String}
    (h : Complains { p with scopes := p.scopes ++ [name] }
      (action { p with scopes := p.scopes ++ [name] })) :
    Complains p (Parse.within name action p) := by
  unfold Parse.within
  generalize action { p with scopes := p.scopes ++ [name] } = r at h ⊢
  cases h with
  | held hq hd hreport => exact .held (hq.opened _) hd hreport
  | failed hd hreport => exact .failed hd hreport

/-- After a `#` its line is read from the keyword on. -/
theorem directive_of_hash {hash : Token Kind} {rest : List (Token Kind)}
    (hp : p.Faces (hash :: rest)) (hhash : hash.kind = .hash) :
    directive p = Parse.within "directive" (Parse.next >>= commandRest hash) (p.skip 1) := by
  have hexpect : Parse.Takes (Parse.expect .hash) [hash] hash fun _ => True :=
    .expectOr _ hhash
  unfold directive Parse.within
  have hopened : Parser.Faces { p with scopes := p.scopes ++ ["directive"] } ([hash] ++ rest) :=
    hp.opened _
  rw [Parse.bind_apply, hexpect hopened trivial]
  rfl

/-- **Soundness.** Reading what is no directive line reports one error, and if there is a directive
all the same then nothing is left of the line. -/
theorem directive_cases {line : List (Token Kind)} (hp : p.Faces line) :
    (∃ l : DirectiveLine, l.yield = line) ∨ Complains p (directive p) := by
  by_cases hhash : p.cursor.peek.kind = .hash
  · cases line with
    | nil => exact absurd hp.ahead (Parser.ahead_ne_nil hp.valid hhash (by decide))
    | cons hash rest =>
      rw [hp.peek_cons] at hhash
      have hrest : ((p.skip 1).Faces rest) := hp.next
      rw [directive_of_hash hp hhash]
      cases rest with
      | nil =>
        have hend := hrest.valid.atEnd_iff.2 hrest.ahead
        rcases commandRest_cases hash (p.skip 1).cursor.peek (hrest.opened _) with ⟨c, hk, -⟩ | hc
        · exact absurd (hk ▸ c.keyword_not_isEnd) (by simpa [Cursor.atEnd] using hend)
        · refine .inr ((Complains.within (p := p.skip 1) ?_).congr rfl)
          rw [Parse.bind_apply, Parse.next, Cursor.advance_of_atEnd hend]
          exact hc
      | cons keyword rest =>
        have hnext : ((p.skip 1).skip 1).Faces rest := hrest.next
        rcases commandRest_cases hash keyword (hnext.opened _) with ⟨c, rfl, rfl⟩ | hc
        · exact .inl ⟨⟨hash, hhash, c⟩, rfl⟩
        · refine .inr ((Complains.within (p := p.skip 1) ?_).congr rfl)
          rw [Parse.bind_apply, Parse.next, (hrest.opened _).peek_cons]
          exact hc.congr rfl
  · refine .inr (.within ?_)
    rw [Parse.bind_apply, Parse.expect, Parse.expectOr, if_neg hhash]
    exact .failed rfl rfl

/-- The directives that have a condition, by the kind of their keyword. -/
def conditional? : Kind → Option (Option Condition → Directive)
  | .dirIf => some .ifBlock
  | .dirElsIf => some .elseIf
  | _ => none

theorem directiveBody_conditional (hash : Token Kind) {keyword : Token Kind}
    {block : Option Condition → Directive} (h : conditional? keyword.kind = some block) :
    directiveBody hash keyword = condition? >>= fun c => pure (block c) := by
  unfold conditional? at h
  split at h <;> rename_i hk <;> cases h <;> simp only [directiveBody, hk]

/-- Such a directive holds without a condition where none can be read. -/
theorem directive_unguarded {hash keyword : Token Kind} {rest : List (Token Kind)}
    {block : Option Condition → Directive} (hp : p.Faces (hash :: keyword :: rest))
    (hhash : hash.kind = .hash) (hblock : conditional? keyword.kind = some block)
    (h : ∀ g : Guard, ¬ g.yield <+: rest) : ∃ q, directive p = .ok (block none) q := by
  have hrest : ((p.skip 1).Faces (keyword :: rest)) := hp.next
  have hnext : ((p.skip 1).skip 1).Faces rest := hrest.next
  obtain ⟨q, d, hr, hq, -⟩ := condition?_of_not_guard (hnext.opened (p.scopes ++ ["directive"])) h
  have hread : (Parse.next >>= commandRest hash)
      { p.skip 1 with scopes := p.scopes ++ ["directive"] } = .ok (block none) q := by
    rw [Parse.bind_apply, Parse.next, (hrest.opened _).peek_cons]
    refine Parse.bind_eq_ok.2 ⟨block none, q, ?_, ?_⟩
    · rw [directiveBody_conditional hash hblock]
      exact Parse.bind_eq_ok.2 ⟨none, q, hr, rfl⟩
    · exact Parse.bind_eq_ok.2 ⟨(), q, takes_directiveEnd.whole hq, rfl⟩
  rw [directive_of_hash hp hhash]
  exact ⟨_, Parse.within_eq_ok.2 ⟨q, hread, rfl⟩⟩

/-! ## Token lists -/

/-- What reading the tokens of a line as a directive comes to: the result, where the cursor is
then, and what is reported. -/
structure ReadAsDirective (line : List (Token Kind)) (result : Except ParseError Directive)
    (cursor : Cursor Kind) (report : Report) : Prop where
  /-- Read in silence is what has a derivation, as what its derivation stands for. -/
  accepted : ∀ d, result = .ok d ∧ report.diagnostics = [] ↔
    ∃ l : DirectiveLine, l.yield = line ∧ l.command.directive = d
  unambiguous : ∀ l l' : DirectiveLine, l.yield = line → l'.yield = line → l = l'
  /-- Anything else is complained of once. -/
  rejected : (¬ ∃ l : DirectiveLine, l.yield = line) →
    ∃ d, report.diagnostics = [d] ∧ d.isError = true
  /-- A directive with a condition holds even if no condition can be read. -/
  unguarded : ∀ hash keyword rest block, line = hash :: keyword :: rest → hash.kind = .hash →
    conditional? keyword.kind = some block → (¬ ∃ g : Guard, g.yield <+: rest) →
      result = .ok (block none)
  /-- A directive takes the whole line. -/
  atEnd : ∀ d, result = .ok d → cursor.atEnd = true

/-- **Exactness.** A reset parser reads a token list as a directive if what it is shown is a
directive line, and complains of it once otherwise. -/
theorem directive_exact (former : Report) (tokens : List (Token Kind)) :
    let (result, cursor, report) :=
      directive.runOn (former.reset.setMode .general) (.onCode tokens)
    ReadAsDirective (Cursor.shown .codeOnly tokens) result cursor report := by
  have hp : Parser.Faces { cursor := .onCode tokens, report := former.reset.setMode .general }
      (Cursor.shown .codeOnly tokens) :=
    ⟨Cursor.valid_ofTokens _ _, Cursor.ahead_ofTokens _ _⟩
  generalize Cursor.shown .codeOnly tokens = line at hp ⊢
  have hunguarded : ∀ hash keyword rest block, line = hash :: keyword :: rest →
      hash.kind = .hash → conditional? keyword.kind = some block →
      (¬ ∃ g : Guard, g.yield <+: rest) → (directive.runOn (former.reset.setMode .general)
        (.onCode tokens)).1 = .ok (block none) := by
    rintro hash keyword rest block rfl hhash hblock hguard
    obtain ⟨q, hr⟩ := directive_unguarded hp hhash hblock fun g hg => hguard ⟨g, hg⟩
    rw [Parse.runOn, hr]
  have hunambiguous : ∀ l l' : DirectiveLine, l.yield = line → l'.yield = line → l = l' :=
    fun l l' hl hl' => DirectiveLine.yield_injective (hl.trans hl'.symm)
  by_cases hline : ∃ l : DirectiveLine, l.yield = line
  · obtain ⟨l, rfl⟩ := hline
    have hr := l.takes.whole hp
    have hend := hp.skip_all.valid.atEnd_iff.2 hp.skip_all.ahead
    rw [Parse.runOn, hr] at hunguarded ⊢
    refine ⟨fun d => ⟨fun h => ⟨l, rfl, ?_⟩, fun ⟨l', hl', hd⟩ => ⟨?_, rfl⟩⟩, hunambiguous,
      fun h => absurd ⟨l, rfl⟩ h, hunguarded, fun _ _ => hend⟩
    · exact Except.ok.inj h.1
    · rw [← hd, DirectiveLine.yield_injective hl']
  · have hc := (directive_cases hp).resolve_left hline
    rw [Parse.runOn] at hunguarded ⊢
    generalize directive { cursor := .onCode tokens, report := former.reset.setMode .general } = r
      at hc hunguarded ⊢
    -- What is reported is one error, so nothing is read in silence.
    have hrejected {result : Except ParseError Directive} {diagnostics : List Diagnostic}
        {d : Diagnostic} (hd : diagnostics = [d]) (found : Directive) :
        result = .ok found ∧ diagnostics = [] ↔
          ∃ l : DirectiveLine, l.yield = line ∧ l.command.directive = found :=
      ⟨fun h => absurd (hd.symm.trans h.2) (List.cons_ne_nil _ _),
        fun ⟨l, hl, _⟩ => absurd ⟨l, hl⟩ hline⟩
    cases hc with
    | @held q a d hq hd hreport =>
      have hdiagnostics : q.report.diagnostics = [d] := by rw [hreport]; rfl
      exact ⟨hrejected hdiagnostics, hunambiguous, fun _ => ⟨d, hdiagnostics, hd⟩, hunguarded,
        fun _ _ => hq.valid.atEnd_iff.2 hq.ahead⟩
    | @failed q e d hd hreport =>
      have hdiagnostics : q.report.diagnostics = [d] := by rw [hreport]; rfl
      exact ⟨hrejected hdiagnostics, hunambiguous, fun _ => ⟨d, hdiagnostics, hd⟩, hunguarded,
        fun _ h => nomatch h⟩

end BuiltInScript.Module
