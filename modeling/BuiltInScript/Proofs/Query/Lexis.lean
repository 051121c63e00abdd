import BuiltInScript.Query.Lexis
import BuiltInScript.Proofs.Lexing.Tiling

/-!
# The lexical rules of queries tell of what is there

**Results.**
* `readToken_fits`: a rule makes a token of a kind of its own, and counts only characters that are
  there.
* `lexicalRules_plain`: the same after `.`, where the next word is a name.
-/
namespace BuiltInScript.Query

open Text

theorem takeWhile_le_length (test : Char → Bool) (cs : List Char) :
    (cs.takeWhile test).length ≤ cs.length := (List.takeWhile_sublist _).length_le

theorem stringBody_le_length (cs : List Char) : (stringBody cs).1 ≤ cs.length := by
  fun_induction stringBody cs <;> simp_all

/-- What is true of names and of all words in the tables is true of every word. -/
theorem wordKind_of_forall {P : Kind → Prop} (hname : P .identifier)
    (hkeywords : ∀ kind ∈ keywords.map Prod.snd, P kind)
    (hmetadata : ∀ kind ∈ metadataWords.map Prod.snd, P kind) (word : List Char) :
    P (wordKind word) := by
  unfold wordKind
  cases hkeyword : keywords.find? word with
  | some kind => exact hkeywords _ (WordTable.mem_of_find? hkeyword)
  | none =>
    cases hmeta : metadataWords.find? word with
    | some kind => exact hmetadata _ (WordTable.mem_of_find? hmeta)
    | none => exact hname

theorem signKind_of_forall {P : Kind → Prop} (hsigns : ∀ kind ∈ signs.map Prod.snd, P kind)
    {c : Char} {kind : Kind} (h : signs.lookup c = some kind) : P kind :=
  hsigns kind (mem_map_snd_of_lookup h)

variable (s : State) (c : Char) (cs : List Char)

theorem readWord_fits : (readWord s c cs).1.Fits cs := by
  unfold readWord
  dsimp only
  split
  · exact ⟨nofun, takeWhile_le_length _ _⟩
  · exact ⟨wordKind_of_forall (P := (· ≠ .endOfInput)) (by decide) (by decide) (by decide) _,
      takeWhile_le_length _ _⟩

theorem readToken_fits : (readToken s c cs).1.Fits cs := by
  have hbody := stringBody_le_length cs
  unfold readToken
  split
  · exact ⟨nofun, takeWhile_le_length _ _⟩
  · split
    · exact ⟨nofun, takeWhile_le_length _ _⟩
    · split
      · exact ⟨nofun, takeWhile_le_length _ _⟩
      · split
        · split <;> rename_i n heq <;> rw [heq] at hbody <;> exact ⟨nofun, hbody⟩
        · exact ⟨nofun, takeWhile_le_length _ _⟩
        · exact ⟨nofun, Nat.zero_le _⟩
        · split
          · exact .second nofun ‹_›
          · exact .second nofun ‹_›
          · exact ⟨nofun, Nat.zero_le _⟩
        · split
          · exact .second nofun ‹_›
          · exact ⟨nofun, Nat.zero_le _⟩
        · split
          · rename_i kind hsign
            exact ⟨signKind_of_forall (P := (· ≠ .endOfInput)) (by decide) hsign, Nat.zero_le _⟩
          · split
            · exact readWord_fits s _ cs
            · exact ⟨nofun, Nat.zero_le _⟩

/-- The rules of both modes tell of what is there. -/
theorem lexicalRules_plain : lexicalRules.Plain := by
  intro s c cs
  show (read s c cs).1.Fits cs
  unfold read
  split
  · exact readToken_fits _ c cs
  · exact readToken_fits s c cs

end BuiltInScript.Query
