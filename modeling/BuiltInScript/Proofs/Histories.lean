import Mathlib.Data.List.Induction

/-!
# Histories

Whether something may come next often depends on all that came before: a token on the brackets
that are open, a call on the calls before it. Such histories grow at their end, and are told by
where they can be cut.

**Results.**
* `concat_eq_append_cons_iff`: where a history that has grown is cut.
* `throughout_concat`: what holds throughout a history that has grown.
* `Longest.unique`, `exists_longest`: there is one longest beginning that nothing stops.
-/
namespace BuiltInScript

variable {α : Type} {may stops : List α → α → Prop} {l run other before after : List α} {a t : α}

/-- A list with one more element is cut before that, or where the list was cut. -/
theorem concat_eq_append_cons_iff : l ++ [a] = before ++ t :: after ↔
    (l = before ∧ a = t ∧ after = []) ∨
      ∃ rest, l = before ++ t :: rest ∧ after = rest ++ [a] := by
  constructor
  · intro h
    rcases List.eq_nil_or_concat after with rfl | ⟨rest, last, rfl⟩
    · obtain ⟨rfl, ht⟩ := List.append_inj' h rfl
      exact .inl ⟨rfl, (List.cons.inj ht).1, rfl⟩
    · have hparts : l ++ [a] = (before ++ t :: rest) ++ [last] := by
        rw [h]
        simp
      obtain ⟨rfl, hlast⟩ := List.append_inj' hparts rfl
      obtain ⟨rfl, -⟩ := List.cons.inj hlast
      exact .inr ⟨rest, rfl, List.concat_eq_append⟩
  · rintro (⟨rfl, rfl, rfl⟩ | ⟨rest, rfl, rfl⟩)
    · rfl
    · simp

/-- Everything in a list is allowed by what is before it. -/
def Throughout (may : List α → α → Prop) (run : List α) : Prop :=
  ∀ before t after, run = before ++ t :: after → may before t

theorem throughout_nil (may : List α → α → Prop) : Throughout may [] := by
  intro before t after h
  simp at h

theorem throughout_concat : Throughout may (run ++ [t]) ↔ Throughout may run ∧ may run t := by
  constructor
  · refine fun h => ⟨fun before u after heq => ?_, h run t [] rfl⟩
    exact h before u (after ++ [t]) (concat_eq_append_cons_iff.2 (.inr ⟨after, heq, rfl⟩))
  · rintro ⟨h, ht⟩ before u after heq
    rcases concat_eq_append_cons_iff.1 heq with ⟨rfl, rfl, -⟩ | ⟨rest, hrest, -⟩
    · exact ht
    · exact h before u rest hrest

/-- The longest beginning of a list that nothing stops. -/
structure Longest (stops : List α → α → Prop) (l run : List α) : Prop where
  isPrefix : run <+: l
  goesOn : Throughout (fun before t => ¬stops before t) run
  stopped : ∀ t after, l = run ++ t :: after → stops run t

namespace Longest

theorem whole (h : Throughout (fun before t => ¬stops before t) run) : Longest stops run run :=
  ⟨List.prefix_refl run, h, fun t after heq => by simp at heq⟩

theorem of_stops (h : Throughout (fun before t => ¬stops before t) run) (ht : stops run t)
    (after : List α) : Longest stops (run ++ t :: after) run := by
  refine ⟨List.prefix_append .., h, fun u rest heq => ?_⟩
  rwa [← (List.cons.inj (List.append_cancel_left heq)).1]

theorem not_longer (h : Longest stops l run)
    (ho : Throughout (fun before t => ¬stops before t) other) (hother : other <+: l)
    (hlonger : run <+: other) : other = run := by
  obtain ⟨_ | ⟨t, more⟩, rfl⟩ := hlonger
  · exact List.append_nil run
  · obtain ⟨left, rfl⟩ := hother
    exact absurd (h.stopped t (more ++ left) (by simp)) (ho run t more rfl)

theorem unique (h : Longest stops l run) (ho : Longest stops l other) : other = run := by
  rcases List.prefix_or_prefix_of_prefix h.isPrefix ho.isPrefix with hle | hle
  · exact h.not_longer ho.goesOn ho.isPrefix hle
  · exact (ho.not_longer h.goesOn h.isPrefix hle).symm

end Longest

/-- What nothing stops so far goes on to a longest run. -/
theorem exists_longest (h : Throughout (fun before t => ¬stops before t) before)
    (more : List α) : ∃ run, before <+: run ∧ Longest stops (before ++ more) run := by
  induction more generalizing before with
  | nil =>
    rw [List.append_nil]
    exact ⟨before, List.prefix_refl _, .whole h⟩
  | cons t more ih =>
    by_cases ht : stops before t
    · exact ⟨before, List.prefix_refl _, .of_stops h ht more⟩
    · obtain ⟨run, hle, hrun⟩ := ih (throughout_concat.2 ⟨h, ht⟩)
      rw [List.append_assoc, List.singleton_append] at hrun
      exact ⟨run, (List.prefix_append ..).trans hle, hrun⟩

end BuiltInScript
