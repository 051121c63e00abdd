import BuiltInScript.Proofs.Parsing.Action
import BuiltInScript.Proofs.Parsing.Regular

/-!
# What parts read

The trees that a part gives hold exactly the tokens that it passes, in order: nothing is left out,
read twice or exchanged, also where a fault was recovered from.

**Results.**
* `Regular.keeps`: a part never touches the token list, the open rules or the prediction.
* `Regular.reads`: the leaves of what a part gives are the tokens that its cursor passes, and there
  is at least one of them if the part says so.
-/
namespace BuiltInScript

variable {R K : Type} [DecidableEq K] [TokenKind K] {α σ : Type}

/-! ## What stays -/

theorem Parse.Keeps.look {β : Type}
    (view : Prediction → List (Token K) → Token K → Option β) : Parse.Keeps (Parse.look view) := by
  intro p
  unfold Parse.after Parse.look
  cases view p.report.mode p.cursor.ahead p.cursor.marker <;> exact .refl p

theorem Parse.eq_of_look_eq_ok {β : Type}
    {view : Prediction → List (Token K) → Token K → Option β} {p q : Parser K} {b : β}
    (h : Parse.look view p = .ok b q) : q = p := by
  unfold Parse.look at h
  split at h <;> cases h
  rfl

namespace Part

theorem keeps_optional (kind : K) : Parse.Keeps (optional kind : Parse K (Trees R K)) := by
  refine Parse.Keeps.bind (Parse.Keeps.eat _) fun token => ?_
  cases token <;> exact .pure _

theorem keeps_scan (rule : R) (read : List (Token K) → Nat × Option (Token K → Fault K)) :
    Parse.Keeps (scan rule read) := by
  intro p
  unfold Parse.after scan
  dsimp only
  split <;> rename_i heq <;> split at heq <;> cases heq
  · exact .skip p _
  · exact (Parser.Alike.skip p _).trans ⟨rfl, rfl, rfl, rfl, rfl⟩

/-- A part with the separator after it, if there is one. -/
theorem keeps_thenEat {part : Parse K (Trees R K)} (separator : K) (h : Parse.Keeps part) :
    Parse.Keeps (do
      let trees ← part
      match ← Parse.eat separator with
      | some token => return (trees ++ [Tree.token token], some ())
      | none => return (trees, none)) := by
  refine h.bind fun trees => Parse.Keeps.bind (Parse.Keeps.eat _) fun token => ?_
  cases token <;> exact .pure _

theorem Turn.keeps_choosing {choose : σ → Token K → K → Turn R K σ}
    (last : ∀ state token after part, choose state token after = .last part → Parse.Keeps part)
    (again : ∀ state token after part state', choose state token after = .again part state' →
      Parse.Keeps part) (state : σ) : Parse.Keeps (Turn.choosing choose state) := by
  intro p
  unfold Parse.after Turn.choosing
  cases hc : choose state p.cursor.peek (p.cursor.peekNth 1).kind with
  | stop => exact .refl p
  | last part => exact (last _ _ _ _ hc).bind (fun trees => .pure _) p
  | again part state' => exact (again _ _ _ _ _ hc).bind (fun trees => .pure _) p

/-- A part never touches the token list, the open rules or the prediction. -/
theorem Regular.keeps {more : Prop} {takes : Bool} {part : Parse K (Trees R K)}
    (h : Regular more takes part) : Parse.Keeps part := by
  induction h with
  | nothing => exact .pure []
  | any _ => exact fun p => .advance p
  | leafOr _ => exact Parse.Keeps.bind (Parse.Keeps.expectOr _ _) fun token => .pure _
  | optional _ => exact keeps_optional _
  | leavesWhile test => exact fun p => .skip p _
  | failHere fault => exact .failHere fault
  | scan _ => exact keeps_scan _ _
  | weaken _ ih => exact ih
  | inOrder _ _ ih ihs => exact ih.bind fun trees => ihs.bind fun others => .pure _
  | byKind _ ih => exact fun p => ih p.cursor.peek.kind p
  | looking _ _ _ ih => exact (Parse.Keeps.look _).bind ih
  | counting _ ih => exact Parse.Keeps.bind (fun p => .refl p) ih
  | node _ ih => exact (ih.bind fun children => .pure _).bind fun node => .pure _
  | within _ ih => exact ih.within
  | separated _ _ ih => exact keeps_repeating (fun _ => keeps_thenEat _ ih) ()
  | separatedUpTo _ _ ih =>
    refine keeps_repeating (fun _ => (Parse.Keeps.at? _).bind fun closed => ?_) ()
    cases closed
    · exact keeps_thenEat _ ih
    · exact .pure _
  | repeating _ _ _ _ ihl iha => exact keeps_repeating (Turn.keeps_choosing ihl iha) _
  | recovering sync _ _ ih =>
    refine Parse.Keeps.bind (fun p => .refl p) fun start => ih.attempt.bind fun result => ?_
    refine Parse.Keeps.bind (Parse.Keeps.recover _ _ _) fun outcome => ?_
    cases outcome <;> exact .pure _

end Part

/-! ## What is read -/

/-- When an action begun where `more` holds succeeds, what its value shows are the tokens that the
cursor passed, and there are some if `takes`. -/
def Parse.Reads (shown : α → List (Token K)) (more : Prop) (takes : Bool) (action : Parse K α) :
    Prop :=
  ∀ ⦃p q a⦄, p.cursor.Valid → (more → p.cursor.ahead ≠ []) → action p = .ok a q →
    p.cursor.Passes q.cursor (shown a) ∧ (takes = true → shown a ≠ [])

namespace Parse

theorem Reads.eat {more : Prop} {kind : K} (h : kind ≠ TokenKind.endOfInput) :
    Reads Option.toList more false (eat kind) := by
  intro p q token hv _ hr
  obtain ⟨hk, rfl, rfl⟩ | ⟨-, rfl, rfl⟩ := eat_eq_ok hr
  · exact ⟨.advance hv (mt hv.peek_kind_eq_end_iff.2 (hk ▸ h)), nofun⟩
  · exact ⟨.refl _, nofun⟩

/-- Looking does not move. -/
theorem Reads.looking {more : Prop} {takes : Bool} {β : Type} {look : Parse K β}
    {next : β → Parse K α} {shown : α → List (Token K)}
    (hstays : ∀ ⦃p q b⦄, look p = .ok b q → q = p) (h : ∀ b, Reads shown more takes (next b)) :
    Reads shown more takes (look >>= next) := by
  intro p q a hv hm hr
  obtain ⟨b, p', hb, hr⟩ := bind_eq_ok.1 hr
  cases hstays hb
  exact h b hv hm hr

theorem Reads.within {more : Prop} {takes : Bool} {name : String} {action : Parse K α}
    {shown : α → List (Token K)} (h : Reads shown more takes action) :
    Reads shown more takes (within name action) := by
  intro p q a hv hm hr
  obtain ⟨r, ha, rfl⟩ := within_eq_ok.1 hr
  exact h (p := { p with scopes := p.scopes ++ [name] }) (q := r) hv hm ha

end Parse

namespace Part

open BuiltInScript.Parse (Reads bind_eq_ok)

variable {more : Prop} {takes : Bool} {part : Parse K (Trees R K)}
  {parts : List (Parse K (Trees R K))}

/-! ### Leaves -/

theorem reads_nothing : Reads Tree.leavesOf more false (pure [] : Parse K (Trees R K)) := by
  intro p q trees _ _ hr
  cases hr
  exact ⟨.refl _, nofun⟩

theorem reads_any (hmore : more) : Reads Tree.leavesOf more true (any : Parse K (Trees R K)) := by
  intro p q trees hv hm hr
  cases hr
  exact ⟨.advance hv (hm hmore), fun _ => List.cons_ne_nil _ _⟩

theorem reads_leafOr {kind : K} (fault : Token K → Fault K) (hkind : kind ≠ TokenKind.endOfInput) :
    Reads Tree.leavesOf more true (leafOr kind fault : Parse K (Trees R K)) := by
  intro p q trees hv _ hr
  obtain ⟨hk, rfl, rfl⟩ := leafOr_eq_ok hr
  have hne : p.cursor.ahead ≠ [] := mt hv.peek_kind_eq_end_iff.2 (hk ▸ hkind)
  exact ⟨.advance hv hne, fun _ => List.cons_ne_nil _ _⟩

theorem reads_optional {kind : K} (hkind : kind ≠ TokenKind.endOfInput) :
    Reads Tree.leavesOf more false (optional kind : Parse K (Trees R K)) := by
  intro p q trees hv hm hr
  obtain ⟨token, q', ht, hr⟩ := bind_eq_ok.1 hr
  have hread := Reads.eat hkind hv hm ht
  cases token <;> cases hr <;> exact hread

theorem reads_leavesWhile (test : K → Bool) :
    Reads Tree.leavesOf more false (leavesWhile test : Parse K (Trees R K)) := by
  intro p q trees _ _ hr
  cases hr
  rw [Tree.leavesOf_map_token]
  exact ⟨⟨rfl, List.takeWhile_prefix _⟩, nofun⟩

theorem reads_failHere (fault : Token K → Fault K) :
    Reads Tree.leavesOf more takes (Parse.failHere fault : Parse K (Trees R K)) := by
  intro p q trees _ _ hr
  cases hr

/-! ### Parts put together -/

/-- A run that is read without a fault. -/
theorem reads_scan {rule : R} {read : List (Token K) → Nat × Option (Token K → Fault K)}
    (hread : ∀ tokens, (read tokens).2 = none →
      0 < (read tokens).1 ∧ (read tokens).1 ≤ tokens.length) :
    Reads Tree.leavesOf more true (scan rule read) := by
  intro p q trees _ _ hr
  unfold scan at hr
  dsimp only at hr
  split at hr
  · cases hr
  · rename_i hnone
    cases hr
    obtain ⟨hpos, hle⟩ := hread _ hnone
    have hne := List.ne_nil_of_length_pos (Nat.lt_of_lt_of_le hpos hle)
    simp only [Tree.leavesOf, Tree.leaves, Tree.leavesOf_map_token, List.append_nil]
    exact ⟨.take _ hle, fun _ => by simp [List.take_eq_nil_iff, hne, Nat.ne_of_gt hpos]⟩

theorem reads_weaken (h : Reads Tree.leavesOf more true part) :
    Reads Tree.leavesOf more false part :=
  fun _ _ _ hv hm hr => ⟨(h hv hm hr).1, nofun⟩

theorem reads_inOrder {first others : Bool} (h : Reads Tree.leavesOf more first part)
    (hs : Reads Tree.leavesOf False others (inOrder parts)) :
    Reads Tree.leavesOf more (first || others) (inOrder (part :: parts)) := by
  intro p r trees hv hm hr
  obtain ⟨a, q, b, ha, hb, rfl⟩ := inOrder_cons_eq_ok hr
  obtain ⟨hpq, hfirst⟩ := h hv hm ha
  obtain ⟨hqr, hothers⟩ := hs (hpq.valid hv) False.elim hb
  rw [Tree.leavesOf_append]
  refine ⟨hpq.trans hqr hv, fun ht => ?_⟩
  rcases Bool.or_eq_true_iff.1 ht with h1 | h2
  · exact List.append_ne_nil_of_left_ne_nil (hfirst h1) _
  · exact List.append_ne_nil_of_right_ne_nil _ (hothers h2)

theorem reads_byKind {part : K → Parse K (Trees R K)}
    (h : ∀ kind, Reads Tree.leavesOf (kind ≠ TokenKind.endOfInput) takes (part kind)) :
    Reads Tree.leavesOf more takes (byKind part) :=
  fun _ _ _ hv _ hr => h _ hv (mt hv.peek_kind_eq_end_iff.2) hr

theorem reads_node {rule : R} (h : Reads Tree.leavesOf more takes (inOrder parts)) :
    Reads Tree.leavesOf more takes (node rule parts) := by
  intro p q trees hv hm hr
  obtain ⟨children, hchildren, rfl⟩ := node_eq_ok hr
  simpa [Tree.leavesOf, Tree.leaves] using h hv hm hchildren

/-! ### Loops -/

/-- A loop reads what its turns read. -/
theorem reads_repeating {turn : σ → Parse K (Trees R K × Option σ)}
    (h : ∀ state, Reads (fun turn => Tree.leavesOf turn.1) False false (turn state)) (state : σ) :
    Reads Tree.leavesOf more false (repeating turn state) := by
  have hturns (n : Nat) (state : σ) :
      Reads Tree.leavesOf False false (repeatUpTo turn n state) := by
    induction n generalizing state with
    | zero => exact reads_nothing
    | succ n ih =>
      intro p r trees hv _ hr
      obtain hlast | ⟨first, again, q, others, hfirst, hothers, rfl⟩ := repeatUpTo_succ_eq_ok hr
      · exact h state hv False.elim hlast
      · obtain ⟨hpq, -⟩ := h state hv False.elim hfirst
        obtain ⟨hqr, -⟩ := ih again (hpq.valid hv) False.elim hothers
        rw [Tree.leavesOf_append]
        exact ⟨hpq.trans hqr hv, nofun⟩
  exact fun _ _ _ hv _ hr => hturns _ state hv False.elim (repeating_eq_ok hr)

/-- A part with the separator after it, if there is one. -/
theorem reads_thenEat {separator : K} (hseparator : separator ≠ TokenKind.endOfInput)
    (h : Reads Tree.leavesOf False true part) :
    Reads (fun turn : Trees R K × Option Unit => Tree.leavesOf turn.1) False false
      (do
        let trees ← part
        match ← Parse.eat separator with
        | some token => return (trees ++ [.token token], some ())
        | none => return (trees, none)) := by
  intro p r turn hv _ hr
  obtain ⟨first, q, found, hpart, heat, heq, -⟩ := thenEat_eq_ok hr
  obtain ⟨hpq, -⟩ := h hv False.elim hpart
  obtain ⟨hqr, -⟩ := Reads.eat hseparator (hpq.valid hv) (False.elim : False → _) heat
  dsimp only
  rw [heq, Tree.leavesOf_append, Tree.leavesOf_map_token]
  exact ⟨hpq.trans hqr hv, nofun⟩

theorem reads_separatedUpTo {closer separator : K} (hseparator : separator ≠ TokenKind.endOfInput)
    (h : Reads Tree.leavesOf False true part) :
    Reads Tree.leavesOf more false (separatedUpTo closer separator part) := by
  refine reads_repeating (fun _ => Reads.looking (fun p q closed hr => ?_) fun closed => ?_) ()
  · cases hr
    rfl
  · cases closed
    · exact reads_thenEat hseparator h
    · exact fun p q turn _ _ hr => by cases hr; exact ⟨.refl _, nofun⟩

theorem Turn.reads_choosing {choose : σ → Token K → K → Turn R K σ}
    (last : ∀ state token after part, choose state token after = .last part →
      Reads Tree.leavesOf False false part)
    (going : ∀ state token after part state', choose state token after = .again part state' →
      token.kind ≠ TokenKind.endOfInput)
    (again : ∀ state token after part state', choose state token after = .again part state' →
      Reads Tree.leavesOf True true part) (state : σ) :
    Reads (fun turn => Tree.leavesOf turn.1) False false (Turn.choosing choose state) := by
  intro p q turn hv _ hr
  unfold Turn.choosing at hr
  cases hc : choose state p.cursor.peek (p.cursor.peekNth 1).kind with
  | stop =>
    rw [hc] at hr
    cases hr
    exact ⟨.refl _, by simp⟩
  | last part =>
    rw [hc] at hr
    obtain ⟨trees, q', hp, hr⟩ := bind_eq_ok.1 hr
    cases hr
    exact last _ _ _ _ hc hv False.elim hp
  | again part state' =>
    rw [hc] at hr
    obtain ⟨trees, q', hp, hr⟩ := bind_eq_ok.1 hr
    cases hr
    have hk := going _ _ _ _ _ hc
    exact ⟨(again _ _ _ _ _ hc hv (fun _ => mt hv.peek_kind_eq_end_iff.2 hk) hp).1, by simp⟩

/-! ### Recovery -/

omit [DecidableEq K] [TokenKind K] in
theorem length_leaves_le (sync : K → RecoveryPoint) (held : Bool) (tokens : List (Token K)) :
    (Recovery.leaves (R := R) sync held tokens).length ≤ tokens.length := by
  induction tokens generalizing held with
  | nil => exact Nat.le_refl 0
  | cons t ts ih =>
    unfold Recovery.leaves
    split
    · simpa using ih false
    · split
      · simpa using ih false
      · simp
    · simp

/-- Recovery goes back to where the failed part began, and keeps all that it skips. -/
theorem reads_recovering {more : Prop} {takes : Bool} (hmore : more) {sync : K → RecoveryPoint}
    {part : Parse K (Trees R K)} (hk : Parse.Keeps part)
    (h : Reads Tree.leavesOf more takes part) :
    Reads Tree.leavesOf more takes (recovering sync part) := by
  intro p r trees hv hm hr
  cases hpart : part p with
  | ok found q =>
    rw [recovering_of_ok hpart] at hr
    cases hr
    exact h hv hm hpart
  | error e q =>
    cases hmode : q.report.mode with
    | optimistic =>
      rw [recovering_of_error_optimistic hpart hmode] at hr
      cases hr
    | general =>
      rw [recovering_of_error_general hpart hmode] at hr
      have hseek := (Parse.after_of_error hpart ▸ hk p).seek_position hv
      simp only [Parse.skipFrom, hseek, decide_true] at hr
      cases hr
      have hleaves := Recovery.leavesOf_leaves (R := R) sync true p.cursor.ahead
      have hne := Recovery.leaves_ne_nil (R := R) sync (hm hmore)
      refine ⟨hleaves ▸ .take _ (length_leaves_le sync true _), fun _ => ?_⟩
      rw [hleaves]
      simpa [List.take_eq_nil_iff, hm hmore] using hne

/-- **Reading.** The leaves of what a part gives are the tokens that it passes, and it passes at
least one if it says so. -/
theorem Regular.reads {more : Prop} {takes : Bool} {part : Parse K (Trees R K)}
    (h : Regular more takes part) : Reads Tree.leavesOf more takes part := by
  induction h with
  | nothing => exact reads_nothing
  | any hmore => exact reads_any hmore
  | leafOr hkind => exact reads_leafOr _ hkind
  | optional hkind => exact reads_optional hkind
  | leavesWhile test => exact reads_leavesWhile test
  | failHere fault => exact reads_failHere fault
  | scan hread => exact reads_scan hread
  | weaken _ ih => exact reads_weaken ih
  | inOrder _ _ ih ihs => exact reads_inOrder ih ihs
  | byKind _ ih => exact reads_byKind ih
  | looking _ _ _ ih => exact .looking (fun _ _ _ => Parse.eq_of_look_eq_ok) ih
  | counting _ ih => exact .looking (fun _ _ _ hr => by cases hr; rfl) ih
  | node _ ih => exact reads_node ih
  | within _ ih => exact ih.within
  | separated hseparator _ ih => exact reads_repeating (fun _ => reads_thenEat hseparator ih) ()
  | separatedUpTo hseparator _ ih => exact reads_separatedUpTo hseparator ih
  | repeating _ going _ _ ihl iha => exact reads_repeating (Turn.reads_choosing ihl going iha) _
  | recovering sync hmore hp ih => exact reads_recovering hmore hp.keeps ih

end Part
end BuiltInScript
