import BuiltInScript.Proofs.Module.Asynchrony
import BuiltInScript.Proofs.Query.Moves

/-!
# Names of members

After a `.` a word is the name of a member, even if it is spelled like a keyword. Both lexers go
into a mode of their own for that, but leave it before the word comes: at a comment, and that of
modules also at the end of a line and at an insertion marker. The parser passes over all of these,
so for it the word still follows the `.`; for the lexer it is a word like any other, and may be a
keyword.

**Results.**
* `Module.code_of_lastIs_dot`: between a `.` and the word that the parser finds after it a module
  stays in code.
* `Module.kind_of_lastIs_dot`, `Query.kind_eq`: so what the word is depends on what stands between.
* `names_after_dots`: both languages.
-/
namespace BuiltInScript

namespace Module

theorem Area.after_of_hidden {kind : Kind} {next : Area} (h : Area.code.after kind = some next)
    (hhidden : kind.channels.hidden) : next = .code := by
  cases kind <;> first | (cases h <;> rfl) | cases hhidden

/-- A `.` stands in code, and code goes on after it as long as nothing is on other channels. -/
theorem code_of_lastIs_dot {before : List (Token Kind)} {area : Area}
    (hchannels : ∀ t ∈ before, t.channels = t.kind.channels)
    (hrun : Area.code.run before = some area) (h : LastIs (·.channels.hidden) .dot before) :
    area = .code ∧ ¬AfterAmpersand before := by
  induction before using List.reverseRecOn generalizing area with
  | nil => exact absurd h not_lastIs_nil
  | append_singleton before t ih =>
    obtain ⟨hbefore, ht⟩ := List.forall_mem_append.1 hchannels
    have ht := List.forall_mem_singleton.1 ht
    rw [Area.run_concat, Option.bind_eq_some_iff] at hrun
    obtain ⟨here, hhere, hafter⟩ := hrun
    rw [afterAmpersand_concat]
    rw [lastIs_concat] at h
    split at h
    · rename_i hhidden
      obtain ⟨rfl, -⟩ := ih hbefore hhere h
      rw [ht] at hhidden
      refine ⟨Area.after_of_hidden hafter hhidden, fun hkind => ?_⟩
      rw [hkind] at hhidden
      cases hhidden
    · rw [h] at hafter ⊢
      refine ⟨?_, nofun⟩
      cases here <;> cases hafter
      rfl

variable {name text : String} {before after : List (Token Kind)} {t : Token Kind}

theorem kind_of_lastIs_dot (h : lexicalRules.tokenize name text = before ++ t :: after)
    (hdot : LastIs (·.channels.hidden) .dot before) (hword : t.BeginsWord) :
    t.kind = if AfterDot before then .identifier
      else wordKind (remembered before) (foldWord t.text) := by
  have hchannels : ∀ u ∈ before ++ t :: after, u.channels = u.kind.channels := by
    rw [← h]
    exact Lexer.tokensUpTo_channels _ _
  have hinitial : Told [] (Lexer.ofText lexicalRules name text).state := .initial
  obtain ⟨l, hl, rfl⟩ := hinitial.tokensUpTo h
  obtain ⟨harea, hname⟩ :=
    code_of_lastIs_dot (List.forall_mem_append.1 hchannels).1 hl.area hdot
  obtain ⟨c, cs, hc, hkind, htext⟩ := Lexer.next_reads_word hword
  change l.next.1.kind = (read l.state c cs).1.kind at hkind
  change foldWord l.next.1.text = c :: cs.take (read l.state c cs).1.more at htext
  split
  · rename_i hafter
    rw [hkind, read_member cs hc (hl.dot.2 hafter)]
  · rename_i hafter
    have hplain : l.state.mode.isPlain :=
      hl.isPlain_iff.2 ⟨hl.area.trans (congrArg some harea), hafter, hname⟩
    have hread := read_word cs hc hplain
    rw [hread, Text.take_length_takeWhile] at htext
    rw [hkind, hread, htext, hl.memory, List.nil_append]

end Module

namespace Query

variable {name text : String} {before after : List (Token Kind)} {t : Token Kind}

theorem kind_eq (h : lexicalRules.tokenize name text = before ++ t :: after)
    (hword : t.BeginsWord) :
    t.kind = if AfterDot before then .identifier else wordKind (foldWord t.text) := by
  have hinitial : Told [] (Lexer.ofText lexicalRules name text).state := .initial
  obtain ⟨l, hl, rfl⟩ :=
    Lexer.exists_next_of_tokensUpTo (P := Told) (fun _ _ => Told.next) hinitial h
  obtain ⟨c, cs, hc, hkind, htext⟩ := Lexer.next_reads_word hword
  change l.next.1.kind = (read l.state c cs).1.kind at hkind
  change foldWord l.next.1.text = c :: cs.take (read l.state c cs).1.more at htext
  split
  · rename_i hafter
    rw [hkind, read_member c cs hc (hl.dot.2 hafter)]
  · rename_i hafter
    have hread := read_word c cs hc fun hmode => hafter (hl.dot.1 hmode)
    rw [hread, Text.take_length_takeWhile] at htext
    rw [hkind, hread, htext]

end Query

/-! ## Both languages -/

/-- **Words after `.`.** Where a `.` is the last token before a word that is not hidden, the word is
a name in a module if there is only white space since the `.` and the line goes on; else it is the
word of code that its spelling makes it. In a query a word is a name if there is only white space
since the last `.`, and else what its spelling makes it. -/
theorem names_after_dots (name text : String) :
    (∀ before t after, Module.lexicalRules.tokenize name text = before ++ t :: after →
      LastIs (·.channels.hidden) .dot before → t.BeginsWord →
      t.kind = if Module.AfterDot before then .identifier
        else Module.wordKind (Module.remembered before) (foldWord t.text)) ∧
    (∀ before t after, Query.lexicalRules.tokenize name text = before ++ t :: after →
      t.BeginsWord →
      t.kind = if Query.AfterDot before then .identifier
        else Query.wordKind (foldWord t.text)) :=
  ⟨fun _ _ _ => Module.kind_of_lastIs_dot, fun _ _ _ => Query.kind_eq⟩

/-- Names spelled like keywords: on the line of the `.`, and in a query on the next line too. -/
theorem names_after_dots_keyword :
    let inModule := Module.lexicalRules.tokenize "" ". Если"
    let inQuery := Query.lexicalRules.tokenize "" ".\nВыбрать"
    (∃ t ∈ inModule[2]?, t.kind = .identifier) ∧ ∃ t ∈ inQuery[2]?, t.kind = .identifier := by
  intro inModule inQuery
  have hmodule : (∃ t ∈ inModule[2]?, t.BeginsWord) ∧ Module.AfterDot (inModule.take 2) ∧
      LastIs (·.channels.hidden) .dot (inModule.take 2) := by decide +kernel
  have hquery : (∃ t ∈ inQuery[2]?, t.BeginsWord) ∧ Query.AfterDot (inQuery.take 2) := by
    decide +kernel
  have hmoduleText : Module.lexicalRules.tokenize "" ". Если" = inModule := rfl
  have hqueryText : Query.lexicalRules.tokenize "" ".\nВыбрать" = inQuery := rfl
  clear_value inModule inQuery
  obtain ⟨⟨t, ht, hword⟩, hafter, hdot⟩ := hmodule
  obtain ⟨⟨u, hu, huword⟩, huafter⟩ := hquery
  have hkind := (names_after_dots "" _).1 _ _ _
    (hmoduleText.trans (eq_take_append_cons ht)) hdot hword
  have hukind := (names_after_dots "" _).2 _ _ _
    (hqueryText.trans (eq_take_append_cons hu)) huword
  rw [if_pos hafter] at hkind
  rw [if_pos huafter] at hukind
  exact ⟨⟨t, ht, hkind⟩, u, hu, hukind⟩

/-- Keywords after a `.`: on the next line of a module, and after a comment in a query. -/
theorem keyword_after_dot :
    let inModule := Module.lexicalRules.tokenize "" "А.\nЕсли"
    let inQuery := Query.lexicalRules.tokenize "" ".//\nВыбрать"
    (∃ t ∈ inModule[3]?, t.channels.code ∧ t.BeginsWord ∧
      LastIs (·.channels.hidden) .dot (inModule.take 3) ∧ t.kind = .kwIf) ∧
    ∃ t ∈ inQuery[3]?, t.channels.code ∧ t.BeginsWord ∧
      LastIs (·.channels.hidden) .dot (inQuery.take 3) ∧ t.kind = .kwSelect := by
  decide +kernel

end BuiltInScript
