import BuiltInScript.Languages
import BuiltInScript.Proofs.Module.Lexis
import BuiltInScript.Proofs.Module.Regular
import BuiltInScript.Proofs.Parsing.Whole
import BuiltInScript.Proofs.Query.Lexis
import BuiltInScript.Proofs.Query.Regular

/-!
# Lexing and parsing modules and queries

What the two languages promise about their tokens, for every text, and about their trees, for
every token list, well-formed or not.

**Results.**
* `parse_lossless`: general prediction always makes a tree, and the tree of a parse holds the code
  of the token list, nothing lost, doubled or exchanged, and one end marker after it.
* `parse_phases_agree`: the fast first phase never changes a result.
* `lexing_lossless`: the tokens of a text tile it, whatever modes the lexer is told to be in.
-/
namespace BuiltInScript

open BuiltInScript.Part

/-! ## The items of modules and packages -/

/-- What an item of a module is, by the kind of its first token. -/
def Module.fileItem (kind : Module.Kind) : Parse Module.Kind Module.Trees :=
  if kind = .hash then Module.directiveLine
  else if Module.startsMethod kind then recovering Module.methodSync Module.method
  else if kind = .kwVar then recovering Module.statementSync Module.vars
  else recovering Module.statementSync (Module.looseStatement kind)

theorem Module.file_eq_whole : Module.file = whole "file" .file Module.fileItem := by
  have hturn : Module.fileTurn = itemTurn Module.fileItem := by
    funext p
    unfold Module.fileTurn itemTurn Module.fileItem
    rw [Parse.bind_apply, Parse.bind_apply]
    dsimp only [Parse.peekKind]
    cases p.cursor.peek.kind <;> rfl
  unfold Module.file whole
  rw [hturn]

/-- An item of a module is a directive line, or it is recovered from. -/
theorem Module.fileItem_cases (kind : Module.Kind) :
    Module.fileItem kind = Module.directiveLine ∨
      ∃ sync part, Module.fileItem kind = recovering sync part ∧ Regular True true part := by
  unfold Module.fileItem
  split
  · exact .inl rfl
  · split
    · exact .inr ⟨_, _, rfl, Module.method_regular⟩
    · split
      · exact .inr ⟨_, _, rfl, Module.vars_regular⟩
      · exact .inr ⟨_, _, rfl, Module.looseStatement_regular kind⟩

theorem Module.fileItem_regular (kind : Module.Kind) :
    Regular True true (Module.fileItem kind) := by
  rcases Module.fileItem_cases kind with h | ⟨sync, part, h, hp⟩
  · exact h ▸ Module.directiveLine_regular trivial
  · exact h ▸ .recovering sync trivial hp

theorem Module.fileItems : Items Module.fileItem where
  keeps kind _ := (Module.fileItem_regular kind).keeps
  reads kind _ := (Module.fileItem_regular kind).reads
  agrees kind _ := (Module.fileItem_regular kind).agrees
  succeeds kind _ := by
    rcases Module.fileItem_cases kind with h | ⟨sync, part, h, hp⟩
    · exact h ▸ fun p _ => ⟨_, _, rfl⟩
    · exact h ▸ succeeds_recovering hp.keeps

/-- What an item of a package is, by the kind of its first token. -/
def Query.packageItem (kind : Query.Kind) : Parse Query.Kind Query.Trees :=
  if kind = .semicolon then any else recovering Query.querySync Query.query

theorem Query.package_eq_whole :
    Query.package = whole "query_package" .package Query.packageItem := by
  have hturn : Query.packageTurn = itemTurn Query.packageItem := by
    funext p
    unfold Query.packageTurn itemTurn Query.packageItem
    rw [Parse.bind_apply, Parse.bind_apply]
    dsimp only [Parse.peekKind]
    cases p.cursor.peek.kind <;> rfl
  unfold Query.package whole
  rw [hturn]

theorem Query.packageItem_regular (kind : Query.Kind) :
    Regular True false (Query.packageItem kind) := by
  unfold Query.packageItem
  split
  · exact .weaken (.any trivial)
  · exact .recovering _ trivial Query.query_regular

theorem Query.packageItems : Items Query.packageItem where
  keeps kind _ := (Query.packageItem_regular kind).keeps
  reads kind _ := by
    unfold Query.packageItem
    split
    · exact (Regular.any trivial).reads
    · exact reads_recovering trivial Query.query_regular.keeps Query.query_reads
  agrees kind _ := (Query.packageItem_regular kind).agrees
  succeeds kind _ := by
    unfold Query.packageItem
    split
    · exact fun p _ => ⟨_, _, rfl⟩
    · exact succeeds_recovering Query.query_regular.keeps

/-! ## Trees keep tokens -/

variable {K R M F : Type} [DecidableEq K] [TokenKind K]

/-- A language whose trees keep the tokens of a list: general prediction makes a tree, and the tree
of a parse holds the code of the list in order and one end marker. -/
structure Language.Lossless (lang : Language K R M F) (tokens : List (Token K)) : Prop where
  general_ok : ∀ report : Report, report.mode = .general →
    ∃ tree, (lang.root.runOn report (.onCode tokens)).1 = .ok tree
  leaves_eq : ∀ report, (lang.parse report tokens).1.tree.leaves.1 =
    codeOf tokens ++ [Token.endOf tokens]

theorem lossless_of_items {lang : Language K R M F} {item : K → Parse K (Trees R K)}
    {name : String} {rule : R} (h : Items item) (hroot : lang.root = whole name rule item)
    {tokens : List (Token K)} (ht : EndsLast tokens) : lang.Lossless tokens where
  general_ok report hm := by
    obtain ⟨tree, p, hp⟩ := Language.root_ok h hroot hm (.onCode tokens)
    exact ⟨tree, by rw [Parse.runOn, hp]⟩
  leaves_eq report := by
    rw [Language.parse_leaves h hroot, shown_codeOnly_eq_codeOf ht]

/-- **Nothing is lost.** For every token list of either language, well-formed or not and on
whatever channels, general prediction makes a tree, and the leaves of the tree of a parse are
exactly the code of the list, in order, and one end marker. -/
theorem parse_lossless (modules : List (Token Module.Kind)) (queries : List (Token Query.Kind))
    (hm : EndsLast modules) (hq : EndsLast queries) :
    moduleLanguage.Lossless modules ∧ queryLanguage.Lossless queries :=
  ⟨lossless_of_items Module.fileItems Module.file_eq_whole hm,
    lossless_of_items Query.packageItems Query.package_eq_whole hq⟩

/-- A block closer without a block, and a query that begins with a bracket. -/
theorem parse_lossless_malformed :
    (moduleLanguage.parse {}
      [⟨.kwEndIf, .codeOnly, "КонецЕсли", {}, 0, ⟨0, 18⟩⟩,
        ⟨.whiteSpace, .hiddenOnly, " ", {}, 1, ⟨18, 19⟩⟩,
        ⟨.leftParen, .codeOnly, "(", {}, 2, ⟨19, 20⟩⟩]).1.tree.leaves.1 =
      [⟨.kwEndIf, .codeOnly, "КонецЕсли", {}, 0, ⟨0, 18⟩⟩,
        ⟨.leftParen, .codeOnly, "(", {}, 2, ⟨19, 20⟩⟩,
        ⟨.endOfInput, .hiddenOnly, "", { line := 1, column := 1 }, 3, ⟨20, 20⟩⟩] ∧
    (queryLanguage.parse {}
      [⟨.leftParen, .codeOnly, "(", {}, 0, ⟨0, 1⟩⟩,
        ⟨.endOfInput, .hiddenOnly, "", {}, 1, ⟨1, 1⟩⟩]).1.tree.leaves.1 =
      [⟨.leftParen, .codeOnly, "(", {}, 0, ⟨0, 1⟩⟩,
        ⟨.endOfInput, .hiddenOnly, "", {}, 1, ⟨1, 1⟩⟩] := by
  have h := parse_lossless
    [⟨.kwEndIf, .codeOnly, "КонецЕсли", {}, 0, ⟨0, 18⟩⟩,
      ⟨.whiteSpace, .hiddenOnly, " ", {}, 1, ⟨18, 19⟩⟩,
      ⟨.leftParen, .codeOnly, "(", {}, 2, ⟨19, 20⟩⟩]
    [⟨.leftParen, .codeOnly, "(", {}, 0, ⟨0, 1⟩⟩,
      ⟨.endOfInput, .hiddenOnly, "", {}, 1, ⟨1, 1⟩⟩]
    (by decide) (by decide)
  exact ⟨h.1.leaves_eq {}, h.2.leaves_eq {}⟩

/-! ## Phases agree -/

/-- A token list for which the two phases of a parse give what one general parse gives. Only the
mode that is told with the result may differ. -/
structure Language.PhasesAgree (lang : Language K R M F) (tokens : List (Token K)) : Prop where
  same_result : ∀ report report', (lang.parse report tokens).1 =
    { (lang.parseGeneral report' (.onCode tokens)).1 with
      mode := (lang.parse report tokens).1.mode }
  /-- Where the first phase succeeds without errors, general prediction builds the same tree, and
  has nothing to report. -/
  same_tree : ∀ tree cursor left,
    lang.root.runOn { mode := .optimistic } (.onCode tokens) = (.ok tree, cursor, left) →
    left.errorCount = 0 →
    lang.root.runOn { mode := .general } (.onCode tokens) =
      (.ok tree, cursor, { mode := .general, errorCount := 0, diagnostics := [] })

theorem phasesAgree_of_items {lang : Language K R M F} {item : K → Parse K (Trees R K)}
    {name : String} {rule : R} (h : Items item) (hroot : lang.root = whole name rule item)
    (tokens : List (Token K)) : lang.PhasesAgree tokens where
  same_result report report' := Language.parse_eq_parseGeneral h hroot report report' tokens
  same_tree tree cursor left hr _ := by
    have hagrees : Parse.Agrees lang.root := hroot ▸ h.agrees_whole
    unfold Parse.runOn at hr ⊢
    cases hp : lang.root { cursor := .onCode tokens, report := { mode := .optimistic } } with
    | error e p =>
      rw [hp] at hr
      cases hr
    | ok tree' p =>
      rw [hp] at hr
      cases hr
      obtain ⟨hreport, hgeneral⟩ := hagrees rfl hp
      dsimp only [Parser.general, Report.setMode] at hgeneral
      rw [hgeneral]
      simp [hreport]

/-- **The fast phase changes nothing.** For every token list of either language, a parse in two
phases gives the tree, the diagnostics and the error count of one general parse. -/
theorem parse_phases_agree (modules : List (Token Module.Kind))
    (queries : List (Token Query.Kind)) :
    moduleLanguage.PhasesAgree modules ∧ queryLanguage.PhasesAgree queries :=
  ⟨phasesAgree_of_items Module.fileItems Module.file_eq_whole modules,
    phasesAgree_of_items Query.packageItems Query.package_eq_whole queries⟩

/-- `А = Б`, which the first phase parses by itself. -/
theorem parse_phases_agree_assignment :
    ∃ tree cursor,
      moduleLanguage.root.runOn { mode := .optimistic } (.onCode
        [⟨.identifier, .codeOnly, "А", {}, 0, ⟨0, 2⟩⟩, ⟨.assign, .codeOnly, "=", {}, 1, ⟨2, 3⟩⟩,
          ⟨.identifier, .codeOnly, "Б", {}, 2, ⟨3, 5⟩⟩]) =
        (.ok tree, cursor, { mode := .optimistic }) ∧
      moduleLanguage.root.runOn { mode := .general } (.onCode
        [⟨.identifier, .codeOnly, "А", {}, 0, ⟨0, 2⟩⟩, ⟨.assign, .codeOnly, "=", {}, 1, ⟨2, 3⟩⟩,
          ⟨.identifier, .codeOnly, "Б", {}, 2, ⟨3, 5⟩⟩]) =
        (.ok tree, cursor, { mode := .general }) :=
  ⟨_, _, rfl, (parse_phases_agree _ []).1.same_tree _ _ _ rfl rfl⟩

/-! ## Lexing loses nothing -/

/-- **Lexing is lossless and gets on.** For every text and both languages, whatever modes the lexer
is told to be in between two tokens, the tokens up to the end marker tile the text without its byte
order mark; and there are at most as many tokens as characters, and the end marker. -/
theorem lexing_lossless (name text : String) :
    Module.lexicalRules.Lossless name text ∧ Query.lexicalRules.Lossless name text :=
  ⟨Module.lexicalRules_plain.lossless name text, Query.lexicalRules_plain.lossless name text⟩

end BuiltInScript
