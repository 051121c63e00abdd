import BuiltInScript.Proofs.Parsing.Reading

/-!
# Optimistic and general prediction

Optimistic prediction gives up where general prediction would go on: at the first fault, and where
it would have to look too far ahead. Where it does not give up, it does what general prediction
does, and it has found nothing to report.

**Results.**
* `Agrees.bind`, `agrees_recovering`, `agrees_repeating`: agreement is kept when actions are put
  together.
* `Regular.agrees`: optimistic and general prediction agree on every part of the grammars.
-/
namespace BuiltInScript

variable {R K α β σ : Type}

/-- The parser at the same place and with the same report, but predicting in general. -/
def Parser.general (p : Parser K) : Parser K := { p with report := p.report.setMode .general }

/-- What succeeds under optimistic prediction reports nothing, and succeeds in the same way under
general prediction. -/
def Parse.Agrees (action : Parse K α) : Prop :=
  ∀ ⦃p q a⦄, p.report.mode = .optimistic → action p = .ok a q →
    q.report = p.report ∧ action p.general = .ok a q.general

namespace Parse

theorem Agrees.pure (a : α) : Agrees (Pure.pure a : Parse K α) := by
  intro p q b _ hr
  cases hr
  exact ⟨rfl, rfl⟩

theorem Agrees.bind {action : Parse K α} {next : α → Parse K β} (h : Agrees action)
    (hn : ∀ a, Agrees (next a)) : Agrees (action >>= next) := by
  intro p r b hm hr
  obtain ⟨a, q, ha, hb⟩ := bind_eq_ok.1 hr
  obtain ⟨hpq, hag⟩ := h hm ha
  obtain ⟨hqr, hbg⟩ := hn a (hpq ▸ hm) hb
  exact ⟨hqr.trans hpq, bind_eq_ok.2 ⟨a, q.general, hag, hbg⟩⟩

theorem Agrees.within {name : String} {action : Parse K α} (h : Agrees action) :
    Agrees (within name action) := by
  intro p q a hm hr
  obtain ⟨r, ha, rfl⟩ := within_eq_ok.1 hr
  obtain ⟨hpr, hag⟩ := h (p := { p with scopes := p.scopes ++ [name] }) hm ha
  exact ⟨hpr, within_eq_ok.2 ⟨r.general, hag, rfl⟩⟩

variable [DecidableEq K] [TokenKind K]

theorem Agrees.remaining : Agrees (Parse.remaining : Parse K Nat) := by
  intro p q a _ hr
  cases hr
  exact ⟨rfl, rfl⟩

theorem Agrees.peekKind : Agrees (Parse.peekKind : Parse K K) := by
  intro p q a _ hr
  cases hr
  exact ⟨rfl, rfl⟩

theorem Agrees.at? (kind : K) : Agrees (at? kind) := by
  intro p q a _ hr
  cases hr
  exact ⟨rfl, rfl⟩

theorem Agrees.failHere (fault : Token K → Fault K) : Agrees (failHere fault : Parse K α) :=
  fun _ _ _ _ hr => nomatch hr

theorem Agrees.expectOr (kind : K) (fault : Token K → Fault K) :
    Agrees (expectOr kind fault) := by
  intro p q token _ hr
  obtain ⟨hk, rfl, rfl⟩ := expectOr_eq_ok.1 hr
  exact ⟨rfl, expectOr_eq_ok.2 ⟨hk, rfl, rfl⟩⟩

theorem Agrees.eat (kind : K) : Agrees (eat kind) := by
  intro p q token _ hr
  obtain ⟨hk, rfl, rfl⟩ | ⟨hk, rfl, rfl⟩ := eat_eq_ok hr
  · exact ⟨rfl, if_pos hk⟩
  · exact ⟨rfl, if_neg hk⟩

theorem Agrees.look {view : Prediction → List (Token K) → Token K → Option β}
    (h : ∀ tokens marker b, view .optimistic tokens marker = some b →
      view .general tokens marker = some b) : Agrees (look view) := by
  intro p q b hm hr
  unfold Parse.look at hr ⊢
  split at hr
  · rename_i hb
    cases hr
    rw [hm] at hb
    refine ⟨rfl, ?_⟩
    dsimp only [Parser.general, Report.setMode]
    rw [h _ _ _ hb]
  · cases hr

end Parse

variable [DecidableEq K] [TokenKind K]

namespace Part

open BuiltInScript.Parse (Agrees bind_eq_ok)

theorem agrees_any : Agrees (any : Parse K (Trees R K)) := by
  intro p q trees _ hr
  cases hr
  exact ⟨rfl, rfl⟩

theorem agrees_optional (kind : K) : Agrees (optional kind : Parse K (Trees R K)) := by
  refine Agrees.bind (Agrees.eat _) fun token => ?_
  cases token <;> exact .pure _

theorem agrees_leavesWhile (test : K → Bool) :
    Agrees (leavesWhile test : Parse K (Trees R K)) := by
  intro p q trees _ hr
  cases hr
  exact ⟨rfl, rfl⟩

theorem agrees_scan (rule : R) (read : List (Token K) → Nat × Option (Token K → Fault K)) :
    Agrees (scan rule read) := by
  intro p q trees _ hr
  unfold scan at hr ⊢
  dsimp only [Parser.general] at hr ⊢
  split at hr
  · cases hr
  · cases hr
    exact ⟨rfl, rfl⟩

/-- A part with the separator after it, if there is one. -/
theorem agrees_thenEat {part : Parse K (Trees R K)} (separator : K) (h : Agrees part) :
    Agrees (do
      let trees ← part
      match ← Parse.eat separator with
      | some token => return (trees ++ [Tree.token token], some ())
      | none => return (trees, none)) := by
  refine h.bind fun trees => Agrees.bind (Agrees.eat _) fun token => ?_
  cases token <;> exact .pure _

theorem agrees_repeating {part : σ → Parse K (Trees R K × Option σ)}
    (h : ∀ state, Agrees (part state)) (state : σ) : Agrees (repeating part state) := by
  have hn (n : Nat) (state : σ) : Agrees (repeatUpTo part n state) := by
    induction n generalizing state with
    | zero => exact .pure []
    | succ n ih =>
      refine (h state).bind fun ⟨trees, again⟩ => ?_
      cases again with
      | none => exact .pure trees
      | some state => exact (ih state).bind fun others => .pure _
  exact Agrees.remaining.bind fun n => hn (n + 1) state

omit [DecidableEq K] [TokenKind K] in
theorem Turn.agrees_run {turn : Turn R K σ}
    (last : ∀ part, turn = .last part → Agrees part)
    (again : ∀ part state, turn = .again part state → Agrees part) : Agrees turn.run := by
  cases turn with
  | stop => exact .pure _
  | last part => exact (last part rfl).bind fun trees => .pure _
  | again part state => exact (again part state rfl).bind fun trees => .pure _

/-- Both ways of prediction take the same turn. -/
theorem Turn.agrees_choosing {choose : σ → Token K → K → Turn R K σ}
    (last : ∀ state token after part, choose state token after = .last part → Agrees part)
    (again : ∀ state token after part state', choose state token after = .again part state' →
      Agrees part) (state : σ) : Agrees (Turn.choosing choose state) := fun _ _ _ hm hr =>
  Turn.agrees_run (last state _ _) (again state _ _) hm hr

/-- Where general prediction would recover, optimistic prediction gives up. -/
theorem agrees_recovering {sync : K → RecoveryPoint} {part : Parse K (Trees R K)}
    (hk : Parse.Keeps part) (h : Agrees part) : Agrees (recovering sync part) := by
  intro p q trees hm hr
  cases hpart : part p with
  | ok found r =>
    rw [recovering_of_ok hpart] at hr
    cases hr
    obtain ⟨hreport, hgeneral⟩ := h hm hpart
    exact ⟨hreport, recovering_of_ok hgeneral⟩
  | error e r =>
    have hmode := (Parse.after_of_error hpart ▸ hk p).mode
    rw [recovering_of_error_optimistic hpart (hmode.trans hm)] at hr
    cases hr

/-- **Agreement.** Optimistic and general prediction agree on every part of the grammars. -/
theorem Regular.agrees {more : Prop} {takes : Bool} {part : Parse K (Trees R K)}
    (h : Regular more takes part) : Agrees part := by
  induction h with
  | nothing => exact .pure []
  | any _ => exact agrees_any
  | leafOr _ => exact Agrees.bind (Agrees.expectOr _ _) fun token => .pure _
  | optional _ => exact agrees_optional _
  | leavesWhile test => exact agrees_leavesWhile test
  | failHere fault => exact .failHere fault
  | scan _ => exact agrees_scan _ _
  | weaken _ ih => exact ih
  | inOrder _ _ ih ihs => exact ih.bind fun trees => ihs.bind fun others => .pure _
  | byKind _ ih => exact fun p q trees hm hr => ih p.cursor.peek.kind hm hr
  | looking hview _ _ ih => exact (Agrees.look hview).bind ih
  | counting _ ih => exact Agrees.remaining.bind ih
  | node _ ih => exact (ih.bind fun children => .pure _).bind fun node => .pure _
  | within _ ih => exact ih.within
  | separated _ _ ih => exact agrees_repeating (fun _ => agrees_thenEat _ ih) ()
  | separatedUpTo _ _ ih =>
    refine agrees_repeating (fun _ => (Agrees.at? _).bind fun closed => ?_) ()
    cases closed
    · exact agrees_thenEat _ ih
    · exact .pure _
  | repeating _ _ _ _ ihl iha => exact agrees_repeating (Turn.agrees_choosing ihl iha) _
  | recovering sync _ hp ih => exact agrees_recovering hp.keeps ih

end Part
end BuiltInScript
