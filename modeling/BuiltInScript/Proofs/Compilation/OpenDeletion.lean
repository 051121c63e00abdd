import BuiltInScript.Proofs.Compilation.Extents

/-!
# Deletions that are never ended

A deletion that is still open where a module ends takes everything up to the end. Where that is, a
scan tells by the length of the token list less one, for the end marker. A token list may come
without an end marker, and then the zone stops one token short.

**Results.**
* `Scan.Patched.deleteMarker_of_open`: what is open began with a `#Удаление`.
* `reachesEnd_unclosedDeletion`: how far the zone of what is open goes.
* `reachesEnd_iff`: the zone of an open deletion reaches to the last token of the text if the token
  list has an end marker, and only then.
-/
namespace BuiltInScript.Compilation

open BuiltInScript.Module

/-- A zone from a place of a text through its last token. -/
structure Zone.ReachesEnd (body : List (Token Kind)) (first : Nat) (zone : Zone) : Prop where
  tokens : zone.tokens = ⟨first, body.length⟩
  describes : Describes body zone.span zone.tokens

/-- What is open began with a `#Удаление`. -/
theorem Scan.Patched.deleteMarker_of_open {text : String} {body : List (Token Kind)} {s : Scan}
    {opening : Opening} (h : s.Patched body) (htiles : Tiles text 0 0 body)
    (hopen : s.openDelete = some opening) :
    ∃ t, body[opening.index]? = some t ∧ t.kind = .deleteMarker ∧ opening.span = t.span := by
  obtain ⟨t, ht, hspan⟩ := (h.opened opening hopen).1.first
  have hstarts := h.starts
  rw [hopen] at hstarts
  have hmem : opening.index ∈ (body.filter fun t => t.kind = .deleteMarker).map Token.index := by
    simp [← hstarts]
  obtain ⟨u, hu, hindex⟩ := List.mem_map.1 hmem
  obtain ⟨hu, hkind⟩ := List.mem_filter.1 hu
  obtain ⟨i, hi⟩ := List.mem_iff_getElem?.1 hu
  have hplace : u.index = i := (htiles.numbered i u hi).trans (Nat.zero_add i)
  rw [← hindex, hplace, hi] at ht
  obtain rfl : u = t := Option.some.inj ht
  exact ⟨u, by rw [← hindex, hplace, hi], of_decide_eq_true hkind, hspan⟩

/-- The tokens of a text, with an end marker or without. -/
theorem lexed_with_or_without {name text : String} {body tokens : List (Token Kind)}
    {marker : Token Kind} (hbody : lexicalRules.tokenize name text = body ++ [marker])
    (htokens : tokens = body ++ [marker] ∨ tokens = hideLast (body ++ [marker]) ∨ tokens = body) :
    (∀ t ∈ body, t.isEnd = false) ∧ (Area.code.run tokens).isSome ∧
      Tiles (Text.stripByteOrderMark text) 0 0 tokens ∧
      ∃ ends, tokens = body ++ ends ∧ (ends = [] ∨ ∃ last, ends = [last] ∧ last.isEnd = true) := by
  obtain ⟨body', marker', heq, hmarker, hnot⟩ :=
    (lexicalRules_plain.lossless name text).tokenize_ends
  obtain ⟨rfl, hlast⟩ := List.append_inj' (hbody.symm.trans heq) rfl
  obtain rfl := List.singleton_inj.1 hlast
  rw [← hbody] at htokens
  refine ⟨hnot, ?_⟩
  rcases htokens with h | h | rfl
  · have htiles := lexed_tiles (lexicalRules_plain.lossless name text) (.inl h)
    refine ⟨(lexed (.inl h)).areas, htiles, ?_⟩
    exact ⟨[marker], h.trans hbody, .inr ⟨marker, rfl, hmarker⟩⟩
  · have htiles := lexed_tiles (lexicalRules_plain.lossless name text) (.inr h)
    refine ⟨(lexed (.inr h)).areas, htiles, ?_⟩
    rw [h, hbody, hideLast_concat]
    exact ⟨_, rfl, .inr ⟨_, rfl, hmarker⟩⟩
  · have hareas := tokenize_areas name text
    have htiles := lexed_tiles (lexicalRules_plain.lossless name text) (.inl rfl)
    rw [hbody] at hareas htiles
    obtain ⟨area, hrun, -⟩ := Area.run_of_append hareas
    exact ⟨by rw [hrun]; rfl, htiles.left, [], (List.append_nil _).symm, .inl rfl⟩

/-- The zone of a deletion left open goes up to one before the length of the list, so it takes what
there is if the list has its end marker. -/
theorem reachesEnd_unclosedDeletion {text : String} {body ends : List (Token Kind)}
    {opening : Opening} {t : Token Kind} (htiles : Tiles text 0 0 body)
    (hnot : ∀ t ∈ body, t.isEnd = false) (ht : body[opening.index]? = some t)
    (hspan : opening.span = t.span)
    (hends : ends = [] ∨ ∃ last, ends = [last] ∧ last.isEnd = true) :
    (Scan.unclosedDeletion opening (body ++ ends)).ReachesEnd body opening.index ↔
      ∃ last, (body ++ ends).getLast? = some last ∧ last.isEnd = true := by
  have hlt := (List.getElem?_eq_some_iff.1 ht).1
  rcases hends with rfl | ⟨last, rfl, hlast⟩
  · rw [List.append_nil]
    constructor
    · intro hreaches
      have hnext : body.length - 1 = body.length := congrArg TokenRange.next hreaches.tokens
      omega
    · rintro ⟨last, hlast, hend⟩
      exact Bool.noConfusion (hend.symm.trans (hnot last (List.mem_of_getLast? hlast)))
  · have hopening : opening.Described body body.length :=
      ⟨opening.index + 1, hlt, hspan ▸ .singleton ht⟩
    have hlength : (body ++ [last]).length - 1 = body.length := by simp
    refine ⟨fun _ => ⟨last, List.getLast?_concat, hlast⟩, fun _ => ⟨?_, ?_⟩⟩
    · exact congrArg (TokenRange.mk opening.index) hlength
    · exact Scan.Described.unclosed hopening htiles last

/-- **Deletions left open.** Of every text and for any symbols, whether the token list comes with
its end marker or without: if a deletion is still open when the scan ends, it began with a
`#Удаление`, and the last of the zones is its zone, from there up to one before the length of the
list. So it takes everything through the last token of the text, with the same bytes, if the token
list ends with an end marker, and only then. -/
theorem reachesEnd_iff (p : Preprocessor) (name text : String) {body tokens : List (Token Kind)}
    {marker : Token Kind} {opening : Opening}
    (hbody : lexicalRules.tokenize name text = body ++ [marker])
    (htokens : tokens = body ++ [marker] ∨ tokens = hideLast (body ++ [marker]) ∨ tokens = body)
    (hopen : (p.scan tokens).1.openDelete = some opening) :
    ∃ t zone, body[opening.index]? = some t ∧ t.kind = .deleteMarker ∧ opening.span = t.span ∧
      (p.preprocess tokens).1.zones.getLast? = some zone ∧ zone.kind = .delete ∧
      zone.tokens = ⟨opening.index, tokens.length - 1⟩ ∧
      (zone.ReachesEnd body opening.index ↔
        ∃ last, tokens.getLast? = some last ∧ last.isEnd = true) := by
  obtain ⟨hnot, hareas, htiles, ends, rfl, hends⟩ := lexed_with_or_without hbody htokens
  have htake : ((body ++ ends).takeWhile fun t => !t.isEnd) = body := by
    rw [List.takeWhile_append_of_pos fun t ht => by simp [hnot t ht]]
    rcases hends with rfl | ⟨last, rfl, hlast⟩
    · simp
    · simp [hlast]
  obtain ⟨s, hpatched, hscan⟩ := p.patched_scan hareas fun i t ht =>
    (htiles.numbered i t ht).trans (Nat.zero_add i)
  rw [htake] at hpatched
  -- Whether a deletion is open does not change at the end.
  rw [hscan] at hopen
  have hopen' : s.openDelete = some opening := hopen
  obtain ⟨t, ht, hkind, hspan⟩ := hpatched.deleteMarker_of_open htiles.left hopen'
  have hzones : (p.preprocess (body ++ ends)).1.zones =
      s.zones ++ [Scan.unclosedDeletion opening (body ++ ends)] := by
    have hfinish : (p.preprocess (body ++ ends)).1.zones = (s.finish (body ++ ends)).zones :=
      congrArg Scan.zones hscan
    rw [hfinish, Scan.finish, hopen']
    rfl
  refine ⟨t, Scan.unclosedDeletion opening (body ++ ends), ht, hkind, hspan, ?_, rfl, rfl, ?_⟩
  · rw [hzones, List.getLast?_concat]
  · exact reachesEnd_unclosedDeletion htiles.left hnot ht hspan hends

/-- A deletion in a list with an end marker. -/
theorem reachesEnd_marked :
    let tokens := lexicalRules.tokenize "" "#Удаление\nА"
    let p : Preprocessor := { symbols := {} }
    (p.scan tokens).1.openDelete = some ⟨⟨0, 17⟩, 0⟩ ∧
      ∃ zone, (p.preprocess tokens).1.zones.getLast? = some zone ∧
        zone.ReachesEnd tokens.dropLast 0 := by
  intro tokens p
  have hrun : (p.scan tokens).1.openDelete = some ⟨⟨0, 17⟩, 0⟩ ∧
      (tokens.getLast?.map Token.isEnd) = some true := by decide +kernel
  obtain ⟨hopen, hlast⟩ := hrun
  obtain ⟨last, hsome, hend⟩ := Option.map_eq_some_iff.1 hlast
  have hbody : tokens = tokens.dropLast ++ [last] := (List.dropLast_append_getLast? last hsome).symm
  have hgiven : tokens = tokens.dropLast ++ [last] ∨
      tokens = hideLast (tokens.dropLast ++ [last]) ∨ tokens = tokens.dropLast := .inl hbody
  obtain ⟨t, zone, -, -, -, hzone, -, -, hreaches⟩ := reachesEnd_iff p "" "#Удаление\nА"
    hbody hgiven hopen
  exact ⟨hopen, zone, hzone, hreaches.2 ⟨last, hsome, hend⟩⟩

/-- Without its end marker the same list has a zone that stops one token short. -/
theorem not_reachesEnd_unmarked :
    let body := (lexicalRules.tokenize "" "#Удаление\nА").dropLast
    let p : Preprocessor := { symbols := {} }
    (p.scan body).1.openDelete = some ⟨⟨0, 17⟩, 0⟩ ∧
      (p.preprocess body).1.zones = [⟨.delete, ⟨0, 18⟩, ⟨0, 2⟩⟩] ∧
      ¬(⟨.delete, ⟨0, 18⟩, ⟨0, 2⟩⟩ : Zone).ReachesEnd body 0 := by
  intro body p
  have hrun : (p.scan body).1.openDelete = some ⟨⟨0, 17⟩, 0⟩ ∧
      (p.preprocess body).1.zones = [⟨.delete, ⟨0, 18⟩, ⟨0, 2⟩⟩] ∧ body.length = 3 := by
    decide +kernel
  obtain ⟨hopen, hzones, hlength⟩ := hrun
  refine ⟨hopen, hzones, fun h => ?_⟩
  have hnext : 2 = body.length := congrArg TokenRange.next h.tokens
  rw [hlength] at hnext
  cases hnext

end BuiltInScript.Compilation
