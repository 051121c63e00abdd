import BuiltInScript.Proofs.Module.Productions
import BuiltInScript.Proofs.Module.Regular
import BuiltInScript.Proofs.Parsing.Reading

/-!
# Parts that keep to the grammar

A part keeps to a production if the trees that it makes, side by side, are a word of it, and all
nodes within them derive from their own productions. The parts of the grammar are put together as
the productions of the table are, so this is shown once for each way of putting parts together.

What follows a node matters for the end of a statement. So trees are looked at together with the
tokens before and after them: those that are upcoming where the part begins and where it ends.

**Results.**
* `Made.append`: what is made one after another is a word of the productions one after another.
* `Makes.inOrder_cons`, `Makes.node`, `Makes.repeating`, `Makes.recovering`: a lemma for each way
  of putting parts together.
* `Makes.whileAt`, `Makes.separated`, `Makes.separatedUpTo`: the loops of the grammar.
* `Ends.last`, `Ends.after`: a statement ends as its last part does.
-/
namespace BuiltInScript

namespace Cursor

variable {K : Type} [DecidableEq K] [TokenKind K]

/-- What is still to be shown, the end marker included. -/
def upcoming (c : Cursor K) : List (Token K) := c.ahead ++ [c.marker]

theorem upcoming_onCode (tokens : List (Token K)) :
    (onCode tokens).upcoming = shown .codeOnly tokens ++ [Token.endOf tokens] := by
  rw [upcoming, onCode, ahead_ofTokens]
  rfl

theorem Valid.head?_upcoming {c : Cursor K} (h : c.Valid) : c.upcoming.head? = some c.peek := by
  rw [upcoming, h.peek_eq]
  cases c.ahead <;> rfl

theorem Passes.upcoming_eq {c d : Cursor K} {tokens : List (Token K)} (h : Passes c d tokens)
    (hv : c.Valid) : c.upcoming = tokens ++ d.upcoming := by
  have hmarker : d.marker = c.marker := by rw [h.eq_skip, marker_skip]
  rw [upcoming, upcoming, h.ahead_eq hv, hmarker, List.append_assoc]

end Cursor

namespace Module

open BuiltInScript.Part
open BuiltInScript.Parse (bind_eq_ok within_eq_ok)

/-! ## Trees that are made -/

/-- Trees that are a word of a production, between these tokens. -/
structure Made (P : Production) (before : List (Token Kind)) (trees : Trees)
    (after : List (Token Kind)) : Prop where
  leaves : before = Tree.leavesOf trees ++ after
  word : trees.map symbol ∈ P.matches'
  nodes : ∀ place ∈ Tree.occurrencesOf after trees, Derives place.1 place.2

namespace Made

variable {P Q : Production} {before between after : List (Token Kind)} {trees others : Trees}

theorem mono (h : Made P before trees after) (hw : ∀ word ∈ P.matches', word ∈ Q.matches') :
    Made Q before trees after := ⟨h.leaves, hw _ h.word, h.nodes⟩

theorem append (h : Made P before trees between) (h' : Made Q between others after) :
    Made (P * Q) before (trees ++ others) after where
  leaves := by rw [h.leaves, h'.leaves, Tree.leavesOf_append, List.append_assoc]
  word := by
    rw [List.map_append]
    exact Language.append_mem_mul h.word h'.word
  nodes place hplace := by
    rw [Tree.occurrencesOf_append, ← h'.leaves] at hplace
    exact (List.mem_append.1 hplace).elim (h.nodes place) (h'.nodes place)

/-- Trees that are all leaves. -/
theorem of_leaves (hleaves : before = Tree.leavesOf trees ++ after)
    (hword : trees.map symbol ∈ P.matches') (hnone : ∀ t ∈ trees, t.node? = none) :
    Made P before trees after :=
  ⟨hleaves, hword, fun place hplace => by
    rw [Tree.occurrencesOf_eq_nil after hnone] at hplace
    cases hplace⟩

theorem nil (after : List (Token Kind)) : Made 1 after [] after :=
  of_leaves rfl ((Language.mem_one _).2 rfl) (by simp)

theorem token (t : Token Kind) (after : List (Token Kind)) :
    Made (.leaf t.kind) (t :: after) [.token t] after :=
  of_leaves rfl (show [Symbol.leaf t.kind] ∈ ({[Symbol.leaf t.kind]} : Set (List Symbol)) from rfl)
    (by simp [Tree.node?])

theorem absent (after : List (Token Kind)) : Made (.optional P) after [] after :=
  (nil after).mono fun _ hword => .inl hword

theorem present (h : Made P before trees after) : Made (.optional P) before trees after :=
  h.mono fun _ hword => .inr hword

/-- A node is a symbol by itself. -/
theorem node {rule : Rule} (h : Made P before trees after)
    (hderives : Derives { rule, children := trees } after) :
    Made (.node rule) before [.node rule trees {}] after where
  leaves := by simpa [Tree.leavesOf, Tree.leaves] using h.leaves
  word := show [Symbol.node rule] ∈ ({[Symbol.node rule]} : Set (List Symbol)) from rfl
  nodes place hplace := by
    rw [Tree.occurrencesOf_singleton, Tree.occurrences, List.mem_cons] at hplace
    rcases hplace with rfl | hplace
    · exact hderives
    · exact h.nodes place hplace

end Made

/-! ## Parts -/

/-- Begun at such a token, the part makes a word of the production of what it passes. -/
def Makes (start : Kind → Prop) (P : Production) (part : Parse Kind Trees) : Prop :=
  ∀ ⦃p q trees⦄, p.cursor.Valid → start p.cursor.peek.kind → part p = .ok trees q →
    q.cursor.Valid ∧ Made P p.cursor.upcoming trees q.cursor.upcoming

namespace Makes

variable {start start' : Kind → Prop} {P Q : Production} {part : Parse Kind Trees}
  {parts : List (Parse Kind Trees)} {kind : Kind}

theorem mono (h : Makes start P part) (hw : ∀ word ∈ P.matches', word ∈ Q.matches') :
    Makes start Q part := fun _ _ _ hv hs hr =>
  (h hv hs hr).imp id fun hmade => hmade.mono hw

/-- One of several symbols. -/
theorem among {s : Symbol} {items : List Symbol} (h : Makes start (.char s) part)
    (hs : s ∈ items) : Makes start (.oneOf items) part :=
  h.mono fun _ hword => mem_oneOf.2 ⟨s, hs, hword⟩

theorem wider {items items' : List Symbol} (h : Makes start (.oneOf items) part)
    (hs : ∀ s ∈ items, s ∈ items') : Makes start (.oneOf items') part :=
  h.mono fun _ hword =>
    let ⟨s, hmem, hone⟩ := mem_oneOf.1 hword
    mem_oneOf.2 ⟨s, hs s hmem, hone⟩

theorem nothing : Makes start 1 (pure []) := by
  intro p q trees hv _ hr
  cases hr
  exact ⟨hv, .nil _⟩

theorem absent : Makes start (.optional P) (pure []) := by
  intro p q trees hv _ hr
  cases hr
  exact ⟨hv, .absent _⟩

theorem present (h : Makes start P part) : Makes start (.optional P) part :=
  fun _ _ _ hv hs hr => (h hv hs hr).imp id Made.present

theorem any (hk : kind ≠ .endOfInput) : Makes (· = kind) (.leaf kind) any := by
  rintro p q trees hv rfl hr
  cases hr
  have hpasses := Cursor.Passes.advance hv (mt hv.peek_kind_eq_end_iff.2 hk)
  exact ⟨hv.advance, hpasses.upcoming_eq hv ▸ .token _ _⟩

theorem leafOr (hk : kind ≠ .endOfInput) (fault : Token Kind → Fault Kind) :
    Makes start (.leaf kind) (leafOr kind fault) := by
  intro p q trees hv _ hr
  obtain ⟨hkind, rfl, rfl⟩ := leafOr_eq_ok hr
  exact any hk hv hkind rfl

theorem leaf (hk : kind ≠ .endOfInput) : Makes start (.leaf kind) (leaf kind) := leafOr hk _

theorem failHere (fault : Token Kind → Fault Kind) : Makes start P (Parse.failHere fault) :=
  fun _ _ _ _ _ hr => nomatch hr

theorem leavesWhile {test : Kind → Bool} :
    Makes start (Production.leafThat test).star (leavesWhile test) := by
  intro p q trees hv _ hr
  cases hr
  refine ⟨hv.skip _, .of_leaves ?_ ?_ (by simp [Tree.node?])⟩
  · rw [Tree.leavesOf_map_token]
    exact Cursor.Passes.upcoming_eq ⟨rfl, List.takeWhile_prefix _⟩ hv
  · refine mem_star_oneOf fun s hs => ?_
    simp only [List.map_map, List.mem_map, Function.comp] at hs
    obtain ⟨t, ht, rfl⟩ := hs
    have htest := List.all_eq_true.1 List.all_takeWhile t ht
    exact List.mem_map_of_mem (List.mem_filter.2 ⟨t.kind.mem_all, htest⟩)

/-! ## Putting parts together -/

theorem inOrder_nil : Makes start (.inOrder []) (inOrder []) := nothing

theorem inOrder_cons {Ps : List Production} (h : Makes start P part)
    (hs : Makes (fun _ => True) (.inOrder Ps) (inOrder parts)) :
    Makes start (.inOrder (P :: Ps)) (inOrder (part :: parts)) := by
  intro p r trees hv hstart hr
  obtain ⟨first, q, others, hp, hq, rfl⟩ := inOrder_cons_eq_ok hr
  obtain ⟨hvq, hfirst⟩ := h hv hstart hp
  obtain ⟨hvr, hothers⟩ := hs hvq trivial hq
  exact ⟨hvr, hfirst.append hothers⟩

theorem byKind {part : Kind → Parse Kind Trees}
    (h : ∀ kind, start kind → Makes (· = kind) P (part kind)) : Makes start P (byKind part) :=
  fun _ _ _ hv hstart hr => h _ hstart hv rfl hr

/-- A part that is there if a token of a kind is next. -/
theorem onlyAt (h : Makes (· = kind) P part) :
    Makes start (.optional P)
      (Part.byKind fun next => if next = kind then part else pure []) := by
  refine .byKind fun next _ => ?_
  split
  · rename_i hk
    exact hk ▸ h.present
  · exact .absent

theorem eat (hk : kind ≠ .endOfInput) {p q : Parser Kind} {found : Option (Token Kind)}
    (hv : p.cursor.Valid) (hr : Parse.eat kind p = .ok found q) :
    q.cursor.Valid ∧
      match found with
      | some t => Made (.leaf kind) p.cursor.upcoming [.token t] q.cursor.upcoming
      | none => q = p := by
  obtain ⟨hkind, rfl, rfl⟩ | ⟨-, rfl, rfl⟩ := Parse.eat_eq_ok hr
  · exact any hk hv hkind rfl
  · exact ⟨hv, rfl⟩

theorem optional (hk : kind ≠ .endOfInput) :
    Makes start (.optional (.leaf kind)) (Part.optional kind) := by
  intro p q trees hv _ hr
  obtain ⟨found, r, heat, hr⟩ := bind_eq_ok.1 hr
  obtain ⟨hvr, hfound⟩ := eat hk hv heat
  cases found with
  | none =>
    cases hr
    cases hfound
    exact ⟨hv, .absent _⟩
  | some t =>
    cases hr
    exact ⟨hvr, hfound.present⟩

theorem within {name : String} (h : Makes start P part) :
    Makes start P (Parse.within name part) := by
  intro p r trees hv hstart hr
  obtain ⟨q, hq, rfl⟩ := within_eq_ok.1 hr
  exact h (p := { p with scopes := p.scopes ++ [name] }) (q := q) hv hstart hq

theorem counting {part : Nat → Parse Kind Trees} (h : ∀ n, Makes start P (part n)) :
    Makes start P (Parse.remaining >>= part) :=
  fun _ _ _ hv hstart hr => h _ hv hstart hr

/-- Looking does not move. -/
theorem looking {α : Type} {look : Parse Kind α} {next : α → Parse Kind Trees}
    (hstays : ∀ ⦃p q a⦄, look p = .ok a q → q = p) (h : ∀ a, Makes start P (next a)) :
    Makes start P (look >>= next) := by
  intro p q trees hv hstart hr
  obtain ⟨a, p', ha, hr⟩ := bind_eq_ok.1 hr
  cases hstays ha
  exact h a hv hstart hr

end Makes

/-! ## Ends of statements -/

/-- What the part makes ends with `;`, or what follows ends the block. -/
def Ends (part : Parse Kind Trees) : Prop :=
  ∀ ⦃p q trees⦄, part p = .ok trees q →
    (trees.map symbol).getLast? = some (.leaf .semicolon) ∨ endsBlock q.cursor.peek.kind

namespace Ends

variable {part : Parse Kind Trees} {parts : List (Parse Kind Trees)}

theorem after (h : Ends (inOrder parts)) : Ends (inOrder (part :: parts)) := by
  intro p r trees hr
  obtain ⟨first, q, others, -, hq, rfl⟩ := inOrder_cons_eq_ok hr
  exact (h hq).imp (fun hlast => by simp [List.getLast?_append, hlast]) id

theorem last (h : Ends part) : Ends (inOrder [part]) :=
  fun _ _ _ hr => h (inOrder_singleton_eq_ok hr)

end Ends

/-- A node of a rule whose parts keep to its production. -/
theorem Makes.node {start : Kind → Prop} {rule : Rule} {parts : List (Parse Kind Trees)}
    (h : Makes start (production rule) (inOrder parts)) (hne : rule ≠ .expression)
    (hends : rule.isEnded = true → Ends (inOrder parts)) :
    Makes start (.node rule) (node rule parts) := by
  intro p q trees hv hstart hr
  obtain ⟨children, hparts, rfl⟩ := node_eq_ok hr
  obtain ⟨hvq, hmade⟩ := h hv hstart hparts
  refine ⟨hvq, hmade.node ⟨hmade.word, fun he => absurd he hne, fun t ht => ?_, fun he => ?_⟩⟩
  · exact error_mem hmade.word (List.mem_map_of_mem (f := symbol) ht)
  · rw [hvq.head?_upcoming]
    exact (hends he hparts).imp id fun hnext => ⟨_, rfl, hnext⟩

/-! ## Loops -/

/-- The turns of a loop after which it goes on make words of one production, each with a token at
least, and the last turn makes one of another. Where the last turn ends is left open, because the
end marker is not passed. -/
structure Turns {σ : Type} (turn : σ → Parse Kind (Trees × Option σ)) (A B : Production)
    (ends : Parser Kind → List (Token Kind) → Prop) : Prop where
  again : ∀ ⦃s s' p q trees⦄, p.cursor.Valid → turn s p = .ok (trees, some s') q →
    q.cursor.Valid ∧ Made A p.cursor.upcoming trees q.cursor.upcoming ∧ Tree.leavesOf trees ≠ []
  last : ∀ ⦃s p q trees⦄, p.cursor.Valid → turn s p = .ok (trees, none) q →
    ∃ after, ends q after ∧ Made B p.cursor.upcoming trees after

section
variable {σ : Type} {turn : σ → Parse Kind (Trees × Option σ)} {A B : Production}
  {ends : Parser Kind → List (Token Kind) → Prop}

theorem Turns.repeatUpTo (h : Turns turn A B ends) {n : Nat} {s : σ} {p q : Parser Kind}
    {trees : Trees} (hv : p.cursor.Valid) (hn : p.cursor.ahead.length < n)
    (hr : repeatUpTo turn n s p = .ok trees q) :
    ∃ after, ends q after ∧ Made (A.star * B) p.cursor.upcoming trees after := by
  induction n generalizing s p trees with
  | zero => omega
  | succ n ih =>
    obtain hlast | ⟨first, s', r, others, hturn, hothers, rfl⟩ := repeatUpTo_succ_eq_ok hr
    · obtain ⟨after, hends, hmade⟩ := h.last hv hlast
      exact ⟨after, hends, hmade.mono fun word hword =>
        Language.append_mem_mul (Language.nil_mem_kstar _) hword⟩
    · obtain ⟨hvr, hfirst, hne⟩ := h.again hv hturn
      have hshorter : r.cursor.ahead.length < n := by
        have hlen := congrArg List.length hfirst.leaves
        have hpos := List.length_pos_iff.2 hne
        simp only [Cursor.upcoming, List.length_append, List.length_singleton] at hlen
        omega
      obtain ⟨after, hends, hmade⟩ := ih hvr hshorter hothers
      refine ⟨after, hends, (hfirst.append hmade).mono fun word hword => ?_⟩
      -- One more word of the first production before the others.
      obtain ⟨a, ha, b, hb, rfl⟩ := Language.mem_mul.1 hword
      obtain ⟨c, hc, d, hd, rfl⟩ := Language.mem_mul.1 hb
      obtain ⟨words, rfl, hwords⟩ := Language.mem_kstar.1 hc
      rw [← List.append_assoc]
      refine Language.append_mem_mul (Language.mem_kstar.2 ⟨a :: words, rfl, ?_⟩) hd
      simpa using ⟨ha, hwords⟩

/-- A place where the last turn of a loop within a rule ends. -/
def endsThere (q : Parser Kind) (after : List (Token Kind)) : Prop :=
  q.cursor.Valid ∧ after = q.cursor.upcoming

theorem Makes.repeating {start : Kind → Prop} {s : σ} (h : Turns turn A B endsThere) :
    Makes start (A.star * B) (repeating turn s) := by
  intro p q trees hv _ hr
  obtain ⟨after, ⟨hvq, rfl⟩, hmade⟩ := h.repeatUpTo hv (Nat.lt_succ_self _) (repeating_eq_ok hr)
  exact ⟨hvq, hmade⟩

end

namespace Makes

variable {start : Kind → Prop} {P : Production} {part : Parse Kind Trees}

/-- A loop that goes on while tokens of a kind are next. -/
theorem whileAt {kind : Kind} (h : Makes (· = kind) P part)
    (hreads : Parse.Reads Tree.leavesOf (kind ≠ .endOfInput) true part) (hk : kind ≠ .endOfInput) :
    Makes start P.star (whileAt kind part) := by
  have hloop : Makes start (P.star * 1) (Part.whileAt kind part) := by
    refine .repeating ⟨fun s s' p q trees hv hr => ?_, fun s p q trees hv hr => ?_⟩
    · obtain ⟨hkind, hpart, -⟩ | ⟨-, hagain, -⟩ := whileTurn_eq_ok hr
      · obtain ⟨hvq, hmade⟩ := h hv hkind hpart
        have hahead : p.cursor.ahead ≠ [] := fun he =>
          hk (hkind ▸ hv.peek_kind_eq_end_iff.2 he)
        exact ⟨hvq, hmade, (hreads hv (fun _ => hahead) hpart).2 rfl⟩
      · cases hagain
    · obtain ⟨-, -, hagain⟩ | ⟨rfl, -, rfl⟩ := whileTurn_eq_ok hr
      · cases hagain
      · exact ⟨_, ⟨hv, rfl⟩, .nil _⟩
  exact hloop.mono fun word hword => by simpa using hword

/-- A turn that reads a part, and a separator if there is one. -/
theorem thenEat (h : Makes (fun _ => True) P part) {p q : Parser Kind} {trees : Trees}
    {again : Option Unit} (hv : p.cursor.Valid)
    (hr : ∃ first r found, part p = .ok first r ∧ Parse.eat .comma r = .ok found q ∧
      trees = first ++ found.toList.map .token ∧ again = found.map fun _ => ()) :
    q.cursor.Valid ∧
      match again with
      | some _ => Made (P * .leaf .comma) p.cursor.upcoming trees q.cursor.upcoming ∧
          Tree.leavesOf trees ≠ []
      | none => Made P p.cursor.upcoming trees q.cursor.upcoming := by
  obtain ⟨first, r, found, hpart, heat, rfl, rfl⟩ := hr
  obtain ⟨hvr, hfirst⟩ := h hv trivial hpart
  obtain ⟨hvq, hfound⟩ := eat (by decide) hvr heat
  cases found with
  | none =>
    cases hfound
    simpa using ⟨hvq, hfirst⟩
  | some t => exact ⟨hvq, hfirst.append hfound, by simp [Tree.leavesOf, Tree.leaves]⟩

theorem separated (h : Makes (fun _ => True) P part) :
    Makes start (.separated P) (Part.separated .comma part) := by
  refine .repeating ⟨fun s s' p q trees hv hr => ?_, fun s p q trees hv hr => ?_⟩
  · exact h.thenEat hv (thenEat_eq_ok hr)
  · obtain ⟨hvq, hmade⟩ := h.thenEat hv (thenEat_eq_ok hr)
    exact ⟨_, ⟨hvq, rfl⟩, hmade⟩

theorem separatedUpTo {closer : Kind} (h : Makes (fun _ => True) P part) :
    Makes start (.separatedUpTo P) (Part.separatedUpTo closer .comma part) := by
  refine .repeating ⟨fun s s' p q trees hv hr => ?_, fun s p q trees hv hr => ?_⟩
  · obtain ⟨closed, p', hclosed, hr⟩ := bind_eq_ok.1 hr
    cases hclosed
    split at hr
    · cases hr
    · exact h.thenEat hv (thenEat_eq_ok hr)
  · obtain ⟨closed, p', hclosed, hr⟩ := bind_eq_ok.1 hr
    cases hclosed
    split at hr
    · cases hr
      exact ⟨_, ⟨hv, rfl⟩, .absent _⟩
    · obtain ⟨hvq, hmade⟩ := h.thenEat hv (thenEat_eq_ok hr)
      exact ⟨_, ⟨hvq, rfl⟩, hmade.present⟩

/-! ## Recovery -/

/-- What recovery makes is skipped, but for the token that it stops after. -/
theorem symbol_leaves {sync : Kind → RecoveryPoint} (held : Bool) {tokens : List (Token Kind)}
    {t : Tree Rule Kind} (ht : t ∈ Recovery.leaves sync held tokens) :
    t.node? = none ∧
      (symbol t = .error ∨ ∃ kind, symbol t = .leaf kind ∧ sync kind = .stopAfter) := by
  induction tokens generalizing held with
  | nil => cases ht
  | cons u us ih =>
    unfold Recovery.leaves at ht
    cases hs : sync u.kind with
    | skip =>
      simp only [hs, List.mem_cons] at ht
      rcases ht with rfl | ht
      · exact ⟨rfl, .inl rfl⟩
      · exact ih _ ht
    | stopBefore =>
      simp only [hs] at ht
      split at ht
      · rcases List.mem_cons.1 ht with rfl | ht
        · exact ⟨rfl, .inl rfl⟩
        · exact ih _ ht
      · cases ht
    | stopAfter =>
      simp only [hs, List.mem_singleton] at ht
      subst ht
      exact ⟨rfl, .inr ⟨_, rfl, hs⟩⟩

/-- A part that makes one of the items, or else skips tokens. -/
theorem recovering {sync : Kind → RecoveryPoint} {items : List Symbol}
    (h : Makes start (.oneOf items) part) (hkeeps : Parse.Keeps part)
    (herror : .error ∈ items) (hstop : ∀ kind, sync kind = .stopAfter → .leaf kind ∈ items) :
    Makes start (Production.oneOf items).star (Part.recovering sync part) := by
  intro p r trees hv hstart hr
  cases hpart : part p with
  | ok found q =>
    rw [recovering_of_ok hpart] at hr
    cases hr
    exact (h hv hstart hpart).imp id fun hmade => hmade.mono fun _ => mem_star
  | error e q =>
    cases hmode : q.report.mode with
    | optimistic =>
      rw [recovering_of_error_optimistic hpart hmode] at hr
      cases hr
    | general =>
      rw [recovering_of_error_general hpart hmode] at hr
      have hseek := (Parse.after_of_error hpart ▸ hkeeps p).seek_position hv
      simp only [Parse.skipFrom, hseek, decide_true] at hr
      cases hr
      have hleaves := Recovery.leavesOf_leaves (R := Rule) sync true p.cursor.ahead
      have hpasses := Cursor.Passes.take p.cursor
        (length_leaves_le (R := Rule) sync true p.cursor.ahead)
      refine ⟨hv.skip _, .of_leaves (by rw [hleaves]; exact hpasses.upcoming_eq hv)
        (mem_star_oneOf fun s hs => ?_) fun t ht => (symbol_leaves true ht).1⟩
      obtain ⟨t, ht, rfl⟩ := List.mem_map.1 hs
      rcases (symbol_leaves true ht).2 with he | ⟨kind, hkind, hsync⟩
      · exact he ▸ herror
      · exact hkind ▸ hstop kind hsync

end Makes

end Module
end BuiltInScript
