import BuiltInScript.Token

/-!
# Spans inside a text

A span points into a text if it is not reversed and begins and ends where the text can be cut.
Whatever is made of such spans by covering two of them, or by taking the place right after one,
points into the text too.

**Results.**
* `Span.Inside.slice_eq_some`, `Span.inside_of_slice`: the spans inside a text are those that select
  a part of it.
* `Span.Inside.join`, `Span.Inside.end_`: spans made of spans inside a text are inside.
* `Token.inside_endOf`: so is the end marker of tokens inside a text.
-/
namespace BuiltInScript

open Text (byteLength splitBytes?)

/-- A byte offset where a text can be cut: a character begins there, or the text ends. -/
def Text.IsBoundary (offset : Nat) (text : String) : Prop :=
  ∃ before after, text.toList = before ++ after ∧ byteLength before = offset

/-- It is an offset at which `splitBytes?` cuts. -/
theorem Text.isBoundary_iff {offset : Nat} {text : String} :
    IsBoundary offset text ↔ (splitBytes? offset text.toList).isSome = true := by
  simp only [IsBoundary, Option.isSome_iff_exists, Prod.exists, splitBytes?_eq_some_iff]

instance (offset : Nat) (text : String) : Decidable (Text.IsBoundary offset text) :=
  decidable_of_iff _ Text.isBoundary_iff.symm

/-- A letter of two bytes is not cut apart. -/
example : Text.IsBoundary 2 "Ж" ∧ ¬Text.IsBoundary 1 "Ж" := by decide

namespace Span

/-- A span that points into a text, in bytes: it is not reversed, does not leave the text and cuts
no character apart. -/
structure Inside (text : String) (s : Span) : Prop where
  start_le_stop : s.start ≤ s.stop
  stop_le : s.stop ≤ byteLength text.toList
  start_boundary : Text.IsBoundary s.start text
  stop_boundary : Text.IsBoundary s.stop text

namespace Inside

variable {text : String} {s t : Span}

/-- Two places where a text can be cut, in order. -/
theorem of_boundaries (hle : s.start ≤ s.stop) (hstart : Text.IsBoundary s.start text)
    (hstop : Text.IsBoundary s.stop text) : s.Inside text where
  start_le_stop := hle
  stop_le := by
    obtain ⟨before, after, heq, hlength⟩ := hstop
    rw [heq, Text.byteLength_append]
    omega
  start_boundary := hstart
  stop_boundary := hstop

/-- Such a span selects a part of the text. -/
theorem slice_eq_some (h : s.Inside text) : ∃ selected, s.slice? text = some selected := by
  obtain ⟨before, after, heq, hbefore⟩ := h.start_boundary
  obtain ⟨before', after', heq', hbefore'⟩ := h.stop_boundary
  have hle := h.start_le_stop
  have hslice : ∃ selected, Text.sliceBytes? text.toList s.start s.stop = some selected := by
    simp only [Text.sliceBytes?_eq_some_iff]
    rcases List.append_eq_append_iff.1 (heq.symm.trans heq') with
      ⟨selected, rfl, rfl⟩ | ⟨excess, rfl, rfl⟩
    · rw [Text.byteLength_append] at hbefore'
      exact ⟨selected, before, after', heq', hbefore, hbefore ▸ hbefore'⟩
    · -- What lies between has no bytes.
      have hnone := hbefore
      rw [Text.byteLength_append] at hnone
      refine ⟨[], before' ++ excess, after, by simpa using heq, hbefore, ?_⟩
      rw [byteLength]
      omega
  obtain ⟨selected, hselected⟩ := hslice
  exact ⟨String.ofList selected, by rw [slice?, hselected]; rfl⟩

theorem join (h : s.Inside text) (h' : t.Inside text) : (s.join t).Inside text := by
  refine of_boundaries ?_ ?_ ?_
  · have hs := h.start_le_stop
    simp only [Span.join]
    omega
  · rcases Nat.le_total s.start t.start with hle | hle
    · rw [Span.join, Nat.min_eq_left hle]
      exact h.start_boundary
    · rw [Span.join, Nat.min_eq_right hle]
      exact h'.start_boundary
  · rcases Nat.le_total s.stop t.stop with hle | hle
    · rw [Span.join, Nat.max_eq_right hle]
      exact h'.stop_boundary
    · rw [Span.join, Nat.max_eq_left hle]
      exact h.stop_boundary

/-- The place right after a span. -/
theorem end_ (h : s.Inside text) : (⟨s.stop, s.stop⟩ : Span).Inside text :=
  of_boundaries (Nat.le_refl _) h.stop_boundary h.stop_boundary

/-- The beginning of a text. -/
theorem zero : ({} : Span).Inside text :=
  have hzero : Text.IsBoundary 0 text := ⟨[], text.toList, rfl, rfl⟩
  of_boundaries (Nat.le_refl _) hzero hzero

end Inside

/-- What selects a part of a text points into it. -/
theorem inside_of_slice {s : Span} {text selected : String} (h : s.slice? text = some selected) :
    s.Inside text := by
  unfold slice? at h
  obtain ⟨slice, hslice, -⟩ := Option.map_eq_some_iff.1 h
  obtain ⟨before, after, heq, hstart, hstop⟩ := Text.sliceBytes?_eq_some_iff.1 hslice
  refine .of_boundaries (by omega) ⟨before, slice ++ after, by rw [heq, List.append_assoc], hstart⟩
    ⟨before ++ slice, after, heq, ?_⟩
  rw [Text.byteLength_append]
  omega

end Span

/-! ## Tokens -/

variable {K : Type} [DecidableEq K] [TokenKind K]

/-- A token that stands in a text. -/
def Token.Inside (text : String) (t : Token K) : Prop := t.span.Inside text

/-- The end marker of tokens of a text stands in the text, whether it is one of them or not. -/
theorem Token.inside_endOf {text : String} {tokens : List (Token K)}
    (h : ∀ t ∈ tokens, t.Inside text) : (endOf tokens).Inside text := by
  unfold endOf
  split
  · exact Span.Inside.zero
  · rename_i last hlast
    have hinside := h last (List.mem_of_getLast? hlast)
    split
    · exact hinside
    · exact hinside.end_

end BuiltInScript
