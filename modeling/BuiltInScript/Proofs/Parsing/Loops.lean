import BuiltInScript.Proofs.Parsing.Exact

/-!
# What parts and loops accept, and how they fail

Parts that read a phrase, put together: nodes, loops of which every turn reads one tree of the
phrase, and recovery. And, for a phrase that is no phrase of the grammar, the one diagnostic that
an action fails with, which is known from the tokens up to a certain stop.

**Results.**
* `takes_node`, `Walks.trans`, `Walks.takes_repeating`: a node or a loop reads what its parts or its
  turns read, one after another.
* `Fails.bind`, `Fails.after`, `Walks.fails`: an action fails as its first part does, or as the
  rest does when the first part has read what it reads.
* `recovering_of_fails`: recovery goes on from where the part began, and the report is kept.
-/
namespace BuiltInScript

variable {R K α β σ : Type} [DecidableEq K] [TokenKind K]

/-! ## Parts -/

namespace Part

open BuiltInScript.Parse (Takes bind_apply)

variable {follow follow' : List (Token K) → Prop} {tokens others : List (Token K)}
  {trees us : Trees R K} {part : Parse K (Trees R K)} {parts : List (Parse K (Trees R K))}

theorem takes_any (t : Token K) :
    Takes (any : Parse K (Trees R K)) [t] [Tree.token t] follow := by
  intro p rest hp _
  rw [any, hp.peek_cons]
  rfl

theorem takes_leaf {kind : K} {t : Token K} (hk : t.kind = kind) :
    Takes (leaf kind : Parse K (Trees R K)) [t] [Tree.token t] follow :=
  (Takes.expectOr _ hk).map fun token => [Tree.token token]

theorem takes_inOrder_nil : Takes (inOrder [] : Parse K (Trees R K)) [] [] follow := .pure []

theorem takes_inOrder_cons (h : Takes part tokens trees follow)
    (hs : Takes (inOrder parts) others us follow')
    (hf : ∀ rest, follow' rest → follow (others ++ rest)) :
    Takes (inOrder (part :: parts)) (tokens ++ others) (trees ++ us) follow' :=
  h.bind (hs.map fun others => trees ++ others) hf

theorem takes_node {rule : R} (h : Takes (inOrder parts) tokens trees follow) :
    Takes (node rule parts) tokens [.node rule trees {}] follow :=
  (h.map fun children => { rule, children : Node R K }).map fun node => [node.toTree]

/-! ## Loops -/

omit [DecidableEq K] [TokenKind K] in
/-- A turn after which a loop goes on. -/
theorem repeatUpTo_again {turn : σ → Parse K (Trees R K × Option σ)} {s s' : σ} {p q : Parser K}
    (h : turn s p = .ok (trees, some s') q) (n : Nat) :
    repeatUpTo turn (n + 1) s p =
      (repeatUpTo turn n s' >>= fun others => pure (trees ++ others)) q := by
  rw [repeatUpTo, bind_apply, h]

/-- Where these tokens are ahead, and after them such as the condition allows, the turns of a loop
pass exactly these, give one of the trees each, and take it from one state to another. -/
def Walks (turn : σ → Parse K (Trees R K × Option σ)) (tokens : List (Token K)) (trees : Trees R K)
    (s s' : σ) (follow : List (Token K) → Prop) : Prop :=
  ∀ ⦃p rest⦄ n, p.Faces (tokens ++ rest) → follow rest →
    repeatUpTo turn (trees.length + n) s p =
      (repeatUpTo turn n s' >>= fun others => pure (trees ++ others)) (p.skip tokens.length)

namespace Walks

variable {turn : σ → Parse K (Trees R K × Option σ)} {s s' s'' : σ}

theorem refl (s : σ) : Walks turn [] [] s s follow := by
  intro p rest n _ _
  have hstay : p.skip 0 = p := rfl
  rw [bind_apply, List.length_nil, List.length_nil, Nat.zero_add, hstay]
  cases repeatUpTo turn n s p <;> rfl

theorem trans (h : Walks turn tokens trees s s' follow) (h' : Walks turn others us s' s'' follow')
    (hf : ∀ rest, follow' rest → follow (others ++ rest)) :
    Walks turn (tokens ++ others) (trees ++ us) s s'' follow' := by
  intro p rest n hp hfollow
  rw [List.append_assoc] at hp
  rw [List.length_append, Nat.add_assoc, h _ hp (hf rest hfollow), bind_apply,
    h' n hp.skip hfollow, List.length_append, ← Parser.skip_skip, bind_apply, bind_apply]
  cases repeatUpTo turn n s'' ((p.skip tokens.length).skip others.length) with
  | ok more q => simp [Parse.pure_apply]
  | error e q => rfl

/-- What is passed wherever it is ahead is passed where the condition holds. -/
theorem anywhere (h : Walks turn tokens trees s s' fun _ => True) :
    Walks turn tokens trees s s' follow := fun _ _ n hp _ => h n hp trivial

/-- One turn. -/
theorem of_turn {tree : Tree R K} (h : Takes (turn s) tokens ([tree], some s') follow) :
    Walks turn tokens [tree] s s' follow := by
  intro p rest n hp hfollow
  rw [List.length_singleton, Nat.add_comm]
  exact repeatUpTo_again (h hp hfollow) n

/-- A loop reads what its turns pass, if there are tokens enough for them and the last one ends
it. -/
theorem takes_repeating (h : Walks turn tokens trees s s' follow)
    (hlast : Takes (turn s') [] ([], none) follow) (hle : trees.length ≤ tokens.length) :
    Takes (repeating turn s) tokens trees follow := by
  refine Takes.remaining_bind fun n hn => ?_
  intro p rest hp hfollow
  obtain ⟨k, hk⟩ : ∃ k, n + 1 = trees.length + (k + 1) := ⟨n - trees.length, by omega⟩
  rw [hk, h _ hp hfollow]
  unfold repeatUpTo
  rw [bind_apply, bind_apply, hlast (show Parser.Faces _ ([] ++ rest) from hp.skip) hfollow]
  show EStateM.Result.ok (trees ++ []) _ = _
  rw [List.append_nil]
  rfl

end Walks
end Part

/-! ## Failing -/

/-- These tokens are ahead, and after them this one, which may be the end marker. -/
structure Parser.Meets (p : Parser K) (tokens : List (Token K)) (stop : Token K) : Prop where
  valid : p.cursor.Valid
  isPrefix : tokens <+: p.cursor.ahead
  stops : (p.skip tokens.length).cursor.peek = stop

namespace Parser.Meets

variable {p : Parser K} {t stop : Token K} {tokens others : List (Token K)}

theorem faces (h : p.Meets tokens stop) :
    ∃ rest, p.Faces (tokens ++ rest) ∧ ∀ t ∈ rest.head?, t = stop := by
  obtain ⟨rest, hrest⟩ := h.isPrefix
  have hp : p.Faces (tokens ++ rest) := ⟨h.valid, hrest.symm⟩
  refine ⟨rest, hp, fun t ht => ?_⟩
  cases rest with
  | nil => cases ht
  | cons u us =>
    cases ht
    exact hp.skip.peek_cons.symm.trans h.stops

theorem skip (h : p.Meets (tokens ++ others) stop) : (p.skip tokens.length).Meets others stop := by
  obtain ⟨rest, hp, -⟩ := h.faces
  rw [List.append_assoc] at hp
  refine ⟨hp.skip.valid, hp.skip.ahead ▸ List.prefix_append .., ?_⟩
  rw [skip_skip, ← List.length_append]
  exact h.stops

theorem peek (h : p.Meets tokens stop) : p.cursor.peek = tokens.headD stop := by
  cases tokens with
  | nil => exact h.stops
  | cons t ts =>
    obtain ⟨rest, hp, -⟩ := h.faces
    exact hp.peek_cons

theorem opened (h : p.Meets tokens stop) (scopes : List String) :
    Meets { p with scopes } tokens stop := ⟨h.valid, h.isPrefix, h.stops⟩

end Parser.Meets

namespace Parse

/-- Within these rules, where these tokens are ahead and then the stop, the action fails with one
diagnostic. -/
def Fails (action : Parse K α) (scopes : List String) (tokens : List (Token K)) (stop : Token K)
    (d : Diagnostic) : Prop :=
  ∀ ⦃p⦄, p.scopes = scopes → p.Meets tokens stop →
    ∃ e q, action p = .error e q ∧ q.report = p.report.add d

namespace Fails

variable {action : Parse K α} {next : α → Parse K β} {scopes : List String}
  {tokens others : List (Token K)} {stop : Token K} {d : Diagnostic}

theorem failHere (fault : Token K → Fault K) :
    Fails (failHere fault : Parse K α) scopes tokens stop
      ((fault (tokens.headD stop)).diagnostic.withNote (traceback scopes)) := by
  rintro p rfl hp
  rw [← hp.peek]
  exact ⟨_, _, rfl, rfl⟩

theorem bind (h : Fails action scopes tokens stop d) :
    Fails (action >>= next) scopes tokens stop d := by
  intro p hs hp
  obtain ⟨e, q, hr, hd⟩ := h hs hp
  exact ⟨e, q, by rw [bind_apply, hr], hd⟩

/-- What comes first reads what it should. -/
theorem after {a : α} {follow : List (Token K) → Prop} (h : Takes action tokens a follow)
    (hf : ∀ rest, (∀ t ∈ rest.head?, t = stop) → follow (others ++ rest))
    (hn : Fails (next a) scopes others stop d) :
    Fails (action >>= next) scopes (tokens ++ others) stop d := by
  intro p hs hp
  obtain ⟨rest, hfaces, hstop⟩ := hp.faces
  rw [List.append_assoc] at hfaces
  rw [bind_apply, h hfaces (hf rest hstop)]
  exact hn hs hp.skip

theorem peekKind_bind {next : K → Parse K β}
    (h : Fails (next (tokens.headD stop).kind) scopes tokens stop d) :
    Fails (peekKind >>= next) scopes tokens stop d := by
  intro p hs hp
  rw [← hp.peek] at h
  exact h hs hp

theorem remaining_bind {next : Nat → Parse K β}
    (h : ∀ n, tokens.length ≤ n → Fails (next n) scopes tokens stop d) :
    Fails (remaining >>= next) scopes tokens stop d :=
  fun _ hs hp => h _ hp.isPrefix.length_le hs hp

theorem within {name : String} (h : Fails action (scopes ++ [name]) tokens stop d) :
    Fails (within name action) scopes tokens stop d := by
  rintro p rfl hp
  obtain ⟨e, q, hr, hd⟩ := h rfl (hp.opened _)
  exact ⟨e, { q with scopes := p.scopes }, by rw [Parse.within, hr], hd⟩

end Fails
end Parse

namespace Part

open BuiltInScript.Parse (Fails Takes bind_apply)

variable {scopes : List String} {tokens others : List (Token K)} {stop : Token K} {d : Diagnostic}
  {part : Parse K (Trees R K)} {parts : List (Parse K (Trees R K))} {trees : Trees R K}

theorem fails_node {rule : R} (h : Fails (inOrder parts) scopes tokens stop d) :
    Fails (node rule parts) scopes tokens stop d := h.bind.bind

variable {turn : σ → Parse K (Trees R K × Option σ)} {s s' : σ}
  {follow : List (Token K) → Prop}

theorem fails_repeatUpTo (h : Fails (turn s) scopes tokens stop d) (n : Nat) :
    Fails (repeatUpTo turn (n + 1) s) scopes tokens stop d := h.bind

/-- A loop fails as the turn after some others does. -/
theorem Walks.fails (h : Walks turn tokens trees s s' follow)
    (hf : ∀ rest, (∀ t ∈ rest.head?, t = stop) → follow (others ++ rest)) {n : Nat}
    (hn : Fails (repeatUpTo turn n s') scopes others stop d) :
    Fails (repeatUpTo turn (trees.length + n) s) scopes (tokens ++ others) stop d := by
  intro p hs hp
  obtain ⟨rest, hfaces, hstop⟩ := hp.faces
  rw [List.append_assoc] at hfaces
  rw [h n hfaces (hf rest hstop)]
  exact hn.bind hs hp.skip

/-- A part that fails is given up: what is skipped begins where the part began. -/
theorem recovering_of_fails (sync : K → RecoveryPoint) (hk : Parse.Keeps part)
    (h : Fails part scopes tokens stop d) {p : Parser K} (hm : p.report.mode = .general)
    (hs : p.scopes = scopes) (hp : p.Meets tokens stop) :
    recovering sync part p =
      .ok (Recovery.leaves sync true p.cursor.ahead)
        { p.skip (Recovery.leaves (R := R) sync true p.cursor.ahead).length with
          report := p.report.add d } := by
  obtain ⟨e, q, hr, hd⟩ := h hs hp
  have hlike := Parse.after_of_error hr ▸ hk p
  rw [recovering_of_error_general hr (hlike.mode.trans hm)]
  unfold Parse.skipFrom
  simp only [hlike.seek_position hp.valid, decide_true, Parser.skip, hd, hlike.scopes]

end Part
end BuiltInScript
