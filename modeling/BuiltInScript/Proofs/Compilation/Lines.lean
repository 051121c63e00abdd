import BuiltInScript.Compilation.Piece

/-!
# Directive lines

Where directive lines stand in a token list, told without cutting the list into pieces: a line
begins with a `#` and goes on up to the next token that begins or ends a line.

**Results.**
* `lineOpen_concat`: a `#` opens a line, a line break, a patch marker or an end marker closes it.
* `lines_append`: no line runs across a place where none is open.
* `lineRest_split`: the scanner takes a line and what ends it, and nothing else.
-/
namespace BuiltInScript.Compilation

open BuiltInScript.Module

/-- Begins or ends a directive line. -/
def breaksLine (t : Token Kind) : Bool :=
  t.kind = .hash || t.kind = .dirNewline || t.kind.isPatchMarker || t.isEnd

/-- Whether a directive line goes on after some tokens: the last of them that begins or ends a line
is a `#`. -/
def lineOpen (before : List (Token Kind)) : Bool :=
  (before.reverse.find? breaksLine).any fun t => t.kind = .hash

/-- Whether a token lies on a directive line, given the tokens before it. The line break at the end
of a line belongs to it. -/
def onLine (before : List (Token Kind)) (t : Token Kind) : Bool :=
  t.kind = .hash || (lineOpen before && !t.kind.isPatchMarker && !t.isEnd)

/-- The directive lines among some tokens, each without its hidden tokens and the line break. -/
def lines : List (Token Kind) → List (List (Token Kind))
  | [] => []
  | t :: ts =>
    if t.kind = .hash then
      (t :: (ts.takeWhile fun u => !breaksLine u).filter fun u => u.channels ≠ .hiddenOnly) ::
        lines ts
    else lines ts

/-! ## Open lines -/

theorem breaksLine_of_hash {t : Token Kind} (h : t.kind = .hash) : breaksLine t = true := by
  simp [breaksLine, h]

theorem lineOpen_concat (before : List (Token Kind)) (t : Token Kind) :
    lineOpen (before ++ [t]) =
      if breaksLine t then decide (t.kind = .hash) else lineOpen before := by
  unfold lineOpen
  rw [List.reverse_append, List.reverse_singleton, List.singleton_append, List.find?_cons]
  cases breaksLine t <;> rfl

theorem lineOpen_cons (t : Token Kind) (ts : List (Token Kind)) :
    lineOpen (t :: ts) = (lineOpen ts || (!ts.any breaksLine && decide (t.kind = .hash))) := by
  unfold lineOpen
  rw [List.reverse_cons, List.find?_append]
  cases hfind : ts.reverse.find? breaksLine with
  | some u =>
    have hany : ts.any breaksLine = true :=
      List.any_eq_true.2 ⟨u, List.mem_reverse.1 (List.mem_of_find?_eq_some hfind),
        List.find?_some hfind⟩
    simp [hany]
  | none =>
    have hany : ts.any breaksLine = false := by
      rw [List.find?_eq_none] at hfind
      rw [List.any_eq_false]
      exact fun u hu => hfind u (List.mem_reverse.2 hu)
    by_cases hhash : t.kind = .hash
    · simp [hany, hhash, breaksLine_of_hash hhash]
    · cases hb : breaksLine t <;> simp [hany, hhash, hb]

/-- Tokens without a `#` make no lines. -/
theorem lines_eq_nil {tokens : List (Token Kind)} (h : ∀ t ∈ tokens, t.kind ≠ .hash) :
    lines tokens = [] := by
  induction tokens with
  | nil => rfl
  | cons t ts ih =>
    rw [lines, if_neg (h t List.mem_cons_self)]
    exact ih fun u hu => h u (List.mem_cons_of_mem t hu)

/-- No line runs across a place where none is open, or where the next token begins or ends one. -/
theorem lines_append {before after : List (Token Kind)}
    (h : lineOpen before = false ∨ ∀ t, after.head? = some t → breaksLine t = true) :
    lines (before ++ after) = lines before ++ lines after := by
  induction before with
  | nil => rfl
  | cons t ts ih =>
    have hts : lineOpen ts = false ∨ ∀ t, after.head? = some t → breaksLine t = true := by
      rcases h with h | h
      · rw [lineOpen_cons, Bool.or_eq_false_iff] at h
        exact .inl h.1
      · exact .inr h
    rw [List.cons_append, lines, lines, ih hts]
    split
    · rename_i hhash
      have htake : (ts ++ after).takeWhile (fun u => !breaksLine u) =
          ts.takeWhile fun u => !breaksLine u := by
        rw [List.takeWhile_append]
        split
        · rename_i hall
          have hself := (List.takeWhile_prefix fun u => !breaksLine u).eq_of_length hall
          rcases h with h | h
          · -- The line is open unless one of `ts` ends it.
            rw [lineOpen_cons, Bool.or_eq_false_iff] at h
            obtain ⟨u, hu, hbreak⟩ := List.any_eq_true.1 (by simpa [hhash] using h.2)
            have hnone := List.all_eq_true.1 List.all_takeWhile u (hself.symm ▸ hu)
            simp [hbreak] at hnone
          · have hafter : after.takeWhile (fun u => !breaksLine u) = [] := by
              cases after with
              | nil => rfl
              | cons u us => simp [h u rfl]
            rw [hafter, List.append_nil, hself]
        · rfl
      rw [htake, List.cons_append]
    · rfl

/-- What the scanner takes after a `#`: tokens that neither begin nor end a line, then a line break
if there is one; else the list ends, or what is next begins or ends a line. -/
theorem lineRest_split (tokens : List (Token Kind)) :
    ∃ content ends rest, tokens = content ++ ends ++ rest ∧
      tokens.drop (lineRest tokens).2 = rest ∧
      (lineRest tokens).1 = content.filter (fun u => u.channels ≠ .hiddenOnly) ∧
      (∀ t ∈ content, breaksLine t = false) ∧
      ((∃ t, ends = [t] ∧ t.kind = .dirNewline) ∨
        ends = [] ∧ ∀ t, rest.head? = some t → breaksLine t = true ∧ t.kind ≠ .dirNewline) := by
  induction tokens with
  | nil => exact ⟨[], [], [], rfl, rfl, rfl, by simp, .inr ⟨rfl, by simp⟩⟩
  | cons t ts ih =>
    unfold lineRest
    split
    · rename_i hnewline
      exact ⟨[], [t], ts, rfl, rfl, rfl, by simp, .inl ⟨t, rfl, hnewline⟩⟩
    · rename_i hnewline
      split
      · rename_i hbreak
        refine ⟨[], [], t :: ts, rfl, rfl, rfl, by simp, .inr ⟨rfl, fun u hu => ?_⟩⟩
        cases hu
        simp only [Bool.or_eq_true, decide_eq_true_eq] at hbreak
        simp only [breaksLine, Bool.or_eq_true, decide_eq_true_eq]
        refine ⟨?_, hnewline⟩
        rcases hbreak with (hhash | hend) | hmarker
        · exact .inl (.inl (.inl hhash))
        · exact .inr hend
        · exact .inl (.inr hmarker)
      · rename_i hbreak
        obtain ⟨content, ends, rest, heq, hdrop, hline, hcontent, hends⟩ := ih
        have ht : breaksLine t = false := by
          simp only [Bool.or_eq_true, decide_eq_true_eq, not_or] at hbreak
          simp [breaksLine, hnewline, hbreak]
        refine ⟨t :: content, ends, rest, by rw [heq]; rfl, ?_, ?_,
          List.forall_mem_cons.2 ⟨ht, hcontent⟩, hends⟩
        · dsimp only
          rw [List.drop_succ_cons, hdrop]
        · dsimp only
          rw [List.filter_cons, hline]
          by_cases hhidden : t.channels = .hiddenOnly <;> simp [hhidden]

end BuiltInScript.Compilation
