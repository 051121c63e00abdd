import BuiltInScript.Proofs.Lexing.Folding
import BuiltInScript.Proofs.Lexing.Words
import BuiltInScript.Proofs.Module.Moves
import Mathlib.Data.List.Induction

/-!
# When `Ждать` is a keyword

`Ждать` is a keyword inside an asynchronous method only. The lexer knows no methods: it remembers
two things about the words that it has read. So whether a word is a keyword is told by the tokens
before it alone: by whether the last method that begins among them has not ended, and by whether an
`Асинх` was pending at its head.

An `Асинх` stays pending until a method begins, whatever stands between them. Inside a method with
`Асинх` right before its head the word is a keyword, and it is one too where an `Асинх` was left
over from before.

**Results.**
* `before?_eq_some_iff`: what looking back through tokens finds.
* `Told.next`, `Told.tokensUpTo`: the tokens that were read tell the mode and the memory of the
  lexer, step by step and for a whole text.
* `Told.await`: so they tell what a word spelled `Ждать` is.
* `await_iff`: where such a word is a keyword, and when this is to stand in a method with `Асинх`
  right before its head.
-/
namespace BuiltInScript.Module

open Text

/-! ## Looking back -/

/-- What stands before the last token that passes `p`, if no token after it passes `q`. -/
def before? (p q : Token Kind → Bool) (tokens : List (Token Kind)) : Option (List (Token Kind)) :=
  back tokens.reverse
where
  /-- Goes through the tokens from the last one on. -/
  back : List (Token Kind) → Option (List (Token Kind))
    | [] => none
    | t :: earlier => if p t then some earlier.reverse else if q t then none else back earlier

section
variable {p q : Token Kind → Bool} {tokens pre : List (Token Kind)} {t : Token Kind}

@[simp] theorem before?_nil : before? p q [] = none := rfl

theorem before?_concat :
    before? p q (tokens ++ [t]) =
      if p t then some tokens else if q t then none else before? p q tokens := by
  simp [before?, before?.back]

theorem isSome_before?_concat :
    (before? p q (tokens ++ [t])).isSome ↔ p t ∨ q t = false ∧ (before? p q tokens).isSome := by
  rw [before?_concat]
  cases p t <;> cases q t <;> simp

theorem before?_eq_some_iff :
    before? p q tokens = some pre ↔
      ∃ t body, tokens = pre ++ t :: body ∧ p t ∧ ∀ u ∈ body, p u = false ∧ q u = false := by
  induction tokens using List.reverseRecOn with
  | nil => simp
  | append_singleton tokens last ih =>
    rw [before?_concat]
    constructor
    · intro h
      split at h
      · rename_i hp
        cases h
        exact ⟨last, [], rfl, hp, List.forall_mem_nil _⟩
      · rename_i hp
        split at h
        · cases h
        · rename_i hq
          obtain ⟨t, body, rfl, ht, hbody⟩ := ih.1 h
          refine ⟨t, body ++ [last], by simp, ht, ?_⟩
          rw [List.forall_mem_append, List.forall_mem_singleton]
          exact ⟨hbody, Bool.eq_false_iff.2 hp, Bool.eq_false_iff.2 hq⟩
    · rintro ⟨t, body, heq, ht, hbody⟩
      rcases body.eq_nil_or_concat with rfl | ⟨body, u, rfl⟩
      · obtain ⟨rfl, hlast⟩ := List.append_inj' heq rfl
        cases hlast
        rw [if_pos ht]
      · rw [List.concat_eq_append, ← List.cons_append, ← List.append_assoc] at heq
        obtain ⟨rfl, hlast⟩ := List.append_inj' heq rfl
        cases hlast
        rw [List.concat_eq_append, List.forall_mem_append, List.forall_mem_singleton] at hbody
        obtain ⟨hbody, hp, hq⟩ := hbody
        rw [hp, hq]
        exact ih.2 ⟨t, body, rfl, ht, hbody⟩

end

/-! ## What the tokens tell -/

/-- What stands before the last method head, if the method has not ended. -/
def openMethod? (tokens : List (Token Kind)) : Option (List (Token Kind)) :=
  before? (·.kind.beginsMethod) (·.kind.endsMethod) tokens

/-- No method has begun since the last `Асинх`. -/
def AsyncPending (tokens : List (Token Kind)) : Prop :=
  (before? (·.kind = .kwAsync) (·.kind.beginsMethod) tokens).isSome

/-- The last token on the code channel is `Асинх`. -/
def AsyncLast (tokens : List (Token Kind)) : Prop :=
  (before? (·.kind = .kwAsync) (·.channels.code) tokens).isSome

/-- White space that does not begin with a line break. -/
def keepsLine (t : Token Kind) : Bool :=
  t.kind = .whiteSpace && !t.text.toList.head?.any isLineBreak

/-- There is only white space since the last `.`, and the line goes on. -/
def AfterDot (tokens : List (Token Kind)) : Prop :=
  (before? (·.kind = .dot) (!keepsLine ·) tokens).isSome

def AfterAmpersand (tokens : List (Token Kind)) : Prop :=
  (before? (·.kind = .ampersand) (fun _ => true) tokens).isSome

instance : DecidablePred AsyncPending := fun _ => inferInstanceAs (Decidable (_ = true))

instance : DecidablePred AsyncLast := fun _ => inferInstanceAs (Decidable (_ = true))

instance : DecidablePred AfterDot := fun _ => inferInstanceAs (Decidable (_ = true))

instance : DecidablePred AfterAmpersand := fun _ => inferInstanceAs (Decidable (_ = true))

theorem afterAmpersand_concat (tokens : List (Token Kind)) (t : Token Kind) :
    AfterAmpersand (tokens ++ [t]) ↔ t.kind = .ampersand := by
  unfold AfterAmpersand
  rw [isSome_before?_concat]
  simp

/-- After these tokens a word is read as a word of code. -/
structure ReadsCode (tokens : List (Token Kind)) : Prop where
  area : Area.code.run tokens = some .code
  notAfterDot : ¬AfterDot tokens
  notAfterAmpersand : ¬AfterAmpersand tokens

instance : DecidablePred ReadsCode := fun tokens =>
  decidable_of_iff (Area.code.run tokens = some .code ∧ ¬AfterDot tokens ∧ ¬AfterAmpersand tokens)
    ⟨fun ⟨harea, hdot, hname⟩ => ⟨harea, hdot, hname⟩,
      fun ⟨harea, hdot, hname⟩ => ⟨harea, hdot, hname⟩⟩

/-- A word spelled `Ждать` or `Await`, in any case. -/
def SpellsAwait (t : Token Kind) : Prop := (awaitWords.find? (foldWord t.text)).isSome

instance : DecidablePred SpellsAwait := fun _ => inferInstanceAs (Decidable (_ = true))

/-- What the lexer remembers of the tokens before. -/
def remembered (tokens : List (Token Kind)) : AsyncMemory where
  pending := decide (AsyncPending tokens)
  inMethod := decide (∃ pre ∈ openMethod? tokens, AsyncPending pre)

theorem remembered_concat (tokens : List (Token Kind)) (t : Token Kind) :
    remembered (tokens ++ [t]) = (remembered tokens).after t.kind := by
  have hpending : AsyncPending (tokens ++ [t]) ↔
      t.kind = .kwAsync ∨ t.kind.beginsMethod = false ∧ AsyncPending tokens := by
    unfold AsyncPending
    rw [isSome_before?_concat, decide_eq_true_iff]
  rw [AsyncMemory.after_eq]
  unfold remembered openMethod?
  rw [before?_concat]
  simp only [hpending]
  cases t.kind.beginsMethod <;> cases t.kind.endsMethod <;> simp

/-! ## Texts -/

/-- The tokens that were read tell the state of the lexer. -/
structure Told (tokens : List (Token Kind)) (s : State) : Prop where
  stacked : s.Stacked
  area : Area.code.run tokens = some s.mode.area
  memory : s.memory = remembered tokens
  dot : s.mode = .dot ↔ AfterDot tokens
  annotationName : s.mode = .annotationName ↔ AfterAmpersand tokens

theorem Told.initial : Told [] lexicalRules.initial where
  stacked := ⟨List.forall_mem_nil _, rfl⟩
  area := rfl
  memory := rfl
  dot := by decide
  annotationName := by decide

/-- The state is told on after each token, unless the text ends. -/
theorem Told.next {l : Lexer lexicalRules} {tokens : List (Token Kind)} (h : Told tokens l.state) :
    l.next.1.kind = .endOfInput ∨ Told (tokens ++ [l.next.1]) l.next.2.state := by
  rcases l.next_reads with ⟨hend, -⟩ | ⟨c, cs, hhead, hkind, -, hstate⟩
  · exact .inl hend
  · refine .inr ?_
    have hleads := (read_leads (foldCase c) cs h.stacked.layered).after
    have hmoves := read_moves l.state (foldCase c) cs
    have hkeeps : keepsLine l.next.1 = true ↔
        l.next.1.kind = .whiteSpace ∧ isLineBreak (foldCase c) = false := by
      rw [keepsLine, hhead, isLineBreak_foldCase]
      simp
    change l.next.1.kind = (read l.state (foldCase c) cs).1.kind at hkind
    change l.next.2.state = (read l.state (foldCase c) cs).2 at hstate
    rw [← hkind] at hleads hmoves
    rw [hstate]
    refine ⟨hmoves.stacked h.stacked, ?_, ?_, ?_, ?_⟩
    · rw [Area.run_concat, h.area]
      exact hleads
    · rw [remembered_concat, ← h.memory]
      exact hmoves.memory hleads
    · rw [hmoves.dot_iff h.stacked hleads, h.dot, ← hkeeps]
      unfold AfterDot
      rw [isSome_before?_concat]
      simp
    · rw [hmoves.annotationName_iff h.stacked hleads, afterAmpersand_concat]

/-- Wherever a token stands, the tokens before it tell the state in which it is read. -/
theorem Told.tokensUpTo {l : Lexer lexicalRules} {tokens before after : List (Token Kind)}
    {t : Token Kind} {n : Nat} (h : Told tokens l.state)
    (heq : (l.tokensUpTo n).1 = before ++ t :: after) :
    ∃ l' : Lexer lexicalRules, Told (tokens ++ before) l'.state ∧ l'.next.1 = t := by
  refine Lexer.exists_next_of_tokensUpTo (P := Told) (fun l tokens h => ?_) h heq
  exact h.next.imp_left fun hend => decide_eq_true hend

/-! ## Words -/

/-- `Ждать` is a word, and no keyword everywhere. -/
theorem await_of_find? {c : Char} {word : List Char}
    (h : (awaitWords.find? (c :: word)).isSome) :
    keywords.find? (c :: word) = none ∧ isWordStart c := by
  have hall : ∀ row ∈ awaitWords, keywords.find? row.1 = none ∧
      row.1.head?.any isWordStart := by decide +kernel
  obtain ⟨kind, hkind⟩ := Option.isSome_iff_exists.1 h
  obtain ⟨before, after, heq, -⟩ := List.lookup_eq_some_iff.1 hkind
  exact hall (c :: word, kind) (by rw [heq]; exact List.mem_append_cons_self)

section
variable {s : State} {c : Char} (cs : List Char) (hc : isWordStart c)
include hc

theorem readCode_word (s : State) : readCode s c cs = readWord s c cs := by
  have hsigns : ∀ row ∈ signs, isWordStart row.1 = false := by decide
  have hsign : signs.lookup c = none :=
    List.lookup_eq_none_iff.2 fun row hrow =>
      bne_iff_ne.2 (ne_of_isWordStart hc (hsigns row hrow))
  have hslash : c ≠ '/' := ne_of_isWordStart hc (by decide)
  unfold readCode
  rw [if_neg (by simp [isBlank_of_isWordStart hc]), if_neg (by simp [startsComment, hslash]),
    if_neg (by simp [isDigit_of_isWordStart hc])]
  split
  · exact absurd rfl (ne_of_isWordStart hc (by decide))
  · exact absurd rfl (ne_of_isWordStart hc (by decide))
  · exact absurd rfl (ne_of_isWordStart hc (by decide))
  · exact absurd rfl (ne_of_isWordStart hc (by decide))
  · exact absurd rfl (ne_of_isWordStart hc (by decide))
  · exact absurd rfl (ne_of_isWordStart hc (by decide))
  · exact absurd rfl (ne_of_isWordStart hc (by decide))
  · rw [hsign]
    exact if_pos hc

/-- In plain modes a word is read as a word of code. -/
theorem read_word (hs : s.mode.isPlain) :
    (read s c cs).1 =
      ⟨wordKind s.memory (c :: cs.takeWhile isWordChar), (cs.takeWhile isWordChar).length⟩ := by
  unfold read
  cases hmode : s.mode with
  | default =>
    dsimp only
    rw [readCode_word cs hc s]
    rfl
  | string =>
    have hslash : c ≠ '/' := ne_of_isWordStart hc (by decide)
    have hbetween : readBetweenLines s c cs = readCode s.popMode c cs := by
      unfold readBetweenLines
      rw [if_neg (by simp [isBlank_of_isWordStart hc]), if_neg (by simp [startsComment, hslash]),
        if_neg (ne_of_isWordStart hc (by decide)), if_neg (ne_of_isWordStart hc (by decide))]
    dsimp only
    rw [hbetween, readCode_word cs hc s.popMode]
    rfl
  | dot | annotationName | directive | region | use | delete => rw [hmode] at hs; cases hs

/-- After `.` a word is a name. -/
theorem read_member (hs : s.mode = .dot) :
    (read s c cs).1 = ⟨.identifier, (cs.takeWhile isWordChar).length⟩ := by
  unfold read
  rw [hs]
  dsimp only
  rw [readAfterDot, if_neg (by simp [isInlineBlank_of_isWordStart hc]), if_pos hc]
  rfl

/-- In other modes no word is the keyword `Ждать`. -/
theorem read_ne_await (hs : s.Stacked) (hplain : s.mode.isPlain = false) :
    (read s c cs).1.kind ≠ .kwAwait := by
  have hleads := (read_leads c cs hs.layered).after
  intro hkind
  rw [hkind] at hleads
  cases hmode : s.mode with
  | default | string => rw [hmode] at hplain; cases hplain
  | directive | region | use | delete => rw [hmode] at hleads; cases hleads
  | dot =>
    rw [read_member cs hc hmode] at hkind
    cases hkind
  | annotationName =>
    unfold read at hkind
    rw [hmode] at hkind
    simp only [readAfterAmpersand, hc, if_true] at hkind
    exact annotationKind_of_forall (P := (· ≠ .kwAwait)) (by decide) nofun _ hkind

end

namespace Told

variable {tokens : List (Token Kind)}

theorem isPlain_iff {s : State} (h : Told tokens s) : s.mode.isPlain ↔ ReadsCode tokens := by
  rw [Mode.isPlain_iff]
  constructor
  · rintro ⟨harea, hdot, hname⟩
    exact ⟨h.area.trans (congrArg some harea), fun hafter => hdot (h.dot.2 hafter),
      fun hafter => hname (h.annotationName.2 hafter)⟩
  · rintro ⟨harea, hdot, hname⟩
    exact ⟨Option.some.inj (h.area.symm.trans harea), fun hmode => hdot (h.dot.1 hmode),
      fun hmode => hname (h.annotationName.1 hmode)⟩

/-- What the next token is if it spells `Ждать`. -/
theorem await {l : Lexer lexicalRules} (h : Told tokens l.state) (hword : SpellsAwait l.next.1) :
    (l.next.1.kind = .kwAwait ↔ ReadsCode tokens ∧ ∃ pre ∈ openMethod? tokens, AsyncPending pre) ∧
      (ReadsCode tokens → l.next.1.kind = .kwAwait ∨ l.next.1.kind = .identifier) := by
  unfold SpellsAwait at hword
  rcases l.next_reads with ⟨-, htext⟩ | ⟨c, cs, -, hkind, htext, -⟩
  · rw [htext] at hword
    cases hword
  · change l.next.1.kind = (read l.state (foldCase c) cs).1.kind at hkind
    change foldWord l.next.1.text = foldCase c :: cs.take (read l.state (foldCase c) cs).1.more
      at htext
    rw [htext] at hword
    obtain ⟨hkeyword, hc⟩ := await_of_find? hword
    rw [← h.isPlain_iff, hkind]
    cases hplain : l.state.mode.isPlain with
    | false => simp [read_ne_await cs hc h.stacked hplain]
    | true =>
      have hread := read_word cs hc hplain
      rw [hread, take_length_takeWhile] at hword hkeyword
      have hmemory : l.state.memory.inMethod =
          decide (∃ pre ∈ openMethod? tokens, AsyncPending pre) := by rw [h.memory, remembered]
      rw [hread, wordKind, hkeyword, hword, hmemory, Bool.and_true]
      dsimp only
      split
      · rename_i hmethod
        have hmethod := of_decide_eq_true hmethod
        exact ⟨⟨fun _ => ⟨rfl, hmethod⟩, fun _ => rfl⟩, fun _ => .inl rfl⟩
      · rename_i hmethod
        have hmethod := of_decide_eq_false (Bool.eq_false_iff.2 hmethod)
        exact ⟨⟨nofun, fun h => absurd h.2 hmethod⟩, fun _ => .inr rfl⟩

end Told

/-- Where `Асинх` is the last token on the code channel, no method has begun since. -/
theorem AsyncLast.asyncPending {tokens : List (Token Kind)}
    (hchannels : ∀ t ∈ tokens, t.channels = t.kind.channels) (h : AsyncLast tokens) :
    AsyncPending tokens := by
  obtain ⟨pre, hpre⟩ := Option.isSome_iff_exists.1 h
  obtain ⟨t, body, rfl, ht, hbody⟩ := before?_eq_some_iff.1 hpre
  refine Option.isSome_iff_exists.2
    ⟨pre, before?_eq_some_iff.2 ⟨t, body, rfl, ht, fun u hu => ⟨(hbody u hu).1, ?_⟩⟩⟩
  have hcode := (hbody u hu).2
  rw [hchannels u (by simp [hu])] at hcode
  cases hkind : u.kind <;> first | rfl | (rw [hkind] at hcode; cases hcode)

/-- **`Ждать`.** A word spelled so is a keyword if and only if it is a word of code in a method at
whose head an `Асинх` was pending, and any other word of code spelled so is an identifier. To be a
keyword just in the methods with `Асинх` right before their heads is the same, unless the `Асинх`
that was pending stands elsewhere. -/
theorem await_iff {name text : String} {before after : List (Token Kind)} {t : Token Kind}
    (h : lexicalRules.tokenize name text = before ++ t :: after) (hword : SpellsAwait t) :
    (t.kind = .kwAwait ↔ ReadsCode before ∧ ∃ pre ∈ openMethod? before, AsyncPending pre) ∧
      (ReadsCode before → t.kind = .kwAwait ∨ t.kind = .identifier) ∧
      (ReadsCode before → ((t.kind = .kwAwait ↔ ∃ pre ∈ openMethod? before, AsyncLast pre) ↔
        ∀ pre ∈ openMethod? before, AsyncPending pre → AsyncLast pre)) := by
  have hchannels : ∀ u ∈ before ++ t :: after, u.channels = u.kind.channels := by
    rw [← h]
    exact Lexer.tokensUpTo_channels _ _
  have hlastPending : ∀ pre ∈ openMethod? before, AsyncLast pre → AsyncPending pre := by
    intro pre hpre hlast
    obtain ⟨header, body, rfl, -, -⟩ := before?_eq_some_iff.1 hpre
    exact hlast.asyncPending fun u hu => hchannels u (by simp [hu])
  have hinitial : Told [] (Lexer.ofText lexicalRules name text).state := .initial
  obtain ⟨l, hl, rfl⟩ := hinitial.tokensUpTo h
  obtain ⟨hawait, hkind⟩ := hl.await hword
  refine ⟨hawait, hkind, fun hcode => ⟨fun hclaim pre hpre hpending => ?_, fun hright => ?_⟩⟩
  · obtain ⟨other, hother, hlast⟩ := hclaim.1 (hawait.2 ⟨hcode, pre, hpre, hpending⟩)
    rwa [Option.mem_unique hpre hother]
  · rw [hawait]
    constructor
    · rintro ⟨-, pre, hpre, hpending⟩
      exact ⟨pre, hpre, hright pre hpre hpending⟩
    · rintro ⟨pre, hpre, hlast⟩
      exact ⟨hcode, pre, hpre, hlastPending pre hpre hlast⟩

/-- A word in an asynchronous procedure. -/
theorem await_iff_procedure :
    let tokens := lexicalRules.tokenize "" "Асинх Процедура Ждать"
    ∃ t ∈ tokens[4]?, SpellsAwait t ∧ ReadsCode (tokens.take 4) ∧ t.kind = .kwAwait := by
  intro tokens
  have hrun : (∃ t ∈ tokens[4]?, SpellsAwait t) ∧ ReadsCode (tokens.take 4) ∧
      ∃ pre ∈ openMethod? (tokens.take 4), AsyncPending pre := by decide +kernel
  have htokens : lexicalRules.tokenize "" "Асинх Процедура Ждать" = tokens := rfl
  clear_value tokens
  obtain ⟨⟨t, ht, hword⟩, hcode, hmethod⟩ := hrun
  have hdrop : tokens.drop 4 = t :: tokens.drop 5 := by
    rw [List.drop_eq_getElem?_toList_append, ht]
    rfl
  have hsplit : tokens = tokens.take 4 ++ t :: tokens.drop 5 := by
    rw [← hdrop, List.take_append_drop]
  exact ⟨t, ht, hword, hcode, (await_iff (htokens.trans hsplit) hword).1.2 ⟨hcode, hmethod⟩⟩

/-- A word in a procedure that has no `Асинх` right before it. -/
theorem await_without_async :
    let tokens := lexicalRules.tokenize "" "Асинх; Процедура А() Ждать = 1; КонецПроцедуры"
    ∃ t ∈ tokens[9]?, SpellsAwait t ∧ ReadsCode (tokens.take 9) ∧
      (¬∃ pre ∈ openMethod? (tokens.take 9), AsyncLast pre) ∧ t.kind = .kwAwait := by
  decide +kernel

end BuiltInScript.Module
