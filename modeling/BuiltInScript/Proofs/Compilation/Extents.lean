import BuiltInScript.Proofs.Compilation.Deletion
import BuiltInScript.Proofs.Compilation.Matching

/-!
# Two descriptions of one stretch

Regions and patch zones are told twice: by the tokens that they take, and by the bytes from the
beginning to the end of something. The bytes of a directive line are those of its shown tokens,
while the line break, and blanks and comments before it, are taken with the line. So the two
descriptions of a zone always agree, and those of a region agree if nothing hidden stands at the end
of the line that ends it.

**Results.**
* `Describes.join`: what describes two ranges describes the range from the one to the other.
* `piecesFrom_described`: a directive is described up to its last shown token.
* `Scan.Described.step`, `Scan.Described.run`, `Scan.Described.finish`: so is all that a scan keeps.
* `extents_agree`: zones are described, and regions up to the last token that is shown.
-/
namespace BuiltInScript.Compilation

open BuiltInScript.Module

/-! ## Descriptions -/

/-- A span from the beginning of the first to the end of the last token of a range. -/
structure Describes (tokens : List (Token Kind)) (span : Span) (range : TokenRange) : Prop where
  nonempty : range.first < range.next
  within : range.next ≤ tokens.length
  start : ∃ t, tokens[range.first]? = some t ∧ span.start = t.span.start
  stop : ∃ t, tokens[range.next - 1]? = some t ∧ span.stop = t.span.stop

namespace Describes

variable {text : String} {tokens more : List (Token Kind)} {a b : Span} {i j k l : Nat}

theorem append {range : TokenRange} (h : Describes tokens a range) (more : List (Token Kind)) :
    Describes (tokens ++ more) a range where
  nonempty := h.nonempty
  within := h.within.trans (by simp)
  start := by
    obtain ⟨t, ht, heq⟩ := h.start
    exact ⟨t, getElem?_append_of_some ht _, heq⟩
  stop := by
    obtain ⟨t, ht, heq⟩ := h.stop
    exact ⟨t, getElem?_append_of_some ht _, heq⟩

theorem singleton {t : Token Kind} (ht : tokens[i]? = some t) :
    Describes tokens t.span ⟨i, i + 1⟩ where
  nonempty := Nat.lt_succ_self i
  within := (List.getElem?_eq_some_iff.1 ht).1
  start := ⟨t, ht, rfl⟩
  stop := ⟨t, ht, rfl⟩

end Describes

/-- What describes two ranges, of which the one neither begins nor ends after the other, describes
the range from the one to the other. -/
theorem Describes.join {text : String} {tokens : List (Token Kind)} {a b : Span} {i j k l : Nat}
    (h : Describes tokens a ⟨i, j⟩) (h' : Describes tokens b ⟨k, l⟩)
    (htiles : Tiles text 0 0 tokens) (hik : i ≤ k) (hjl : j ≤ l) :
    Describes tokens (a.join b) ⟨i, l⟩ := by
  obtain ⟨first, hfirst, hstart⟩ := h.start
  obtain ⟨first', hfirst', hstart'⟩ := h'.start
  obtain ⟨last, hlast, hstop⟩ := h.stop
  obtain ⟨last', hlast', hstop'⟩ := h'.stop
  have hnonempty : i < j := h.nonempty
  have hstarts := (htiles.mono hik hfirst hfirst').1
  have hstops := (htiles.mono (Nat.sub_le_sub_right hjl 1) hlast hlast').2
  rw [← hstart, ← hstart'] at hstarts
  rw [← hstop, ← hstop'] at hstops
  rw [Span.join_eq_of_le hstarts hstops]
  exact ⟨Nat.lt_of_lt_of_le hnonempty hjl, h'.within, ⟨first, hfirst, hstart⟩,
    ⟨last', hlast', hstop'⟩⟩

/-- A span up to the last token of a range that is shown; what follows it in the range is hidden. -/
structure DescribesShown (tokens : List (Token Kind)) (span : Span) (range : TokenRange)
    (seen : Nat) : Prop where
  describes : Describes tokens span ⟨range.first, seen⟩
  shown : ∃ t, tokens[seen - 1]? = some t ∧ t.channels ≠ .hiddenOnly
  seen_le : seen ≤ range.next
  within : range.next ≤ tokens.length
  hidden : ∀ i, seen ≤ i → i < range.next →
    ∃ t, tokens[i]? = some t ∧ t.channels = .hiddenOnly

namespace DescribesShown

variable {text : String} {tokens : List (Token Kind)} {span : Span} {range : TokenRange}
  {seen : Nat}

theorem append (h : DescribesShown tokens span range seen) (more : List (Token Kind)) :
    DescribesShown (tokens ++ more) span range seen where
  describes := h.describes.append more
  shown := by
    obtain ⟨t, ht, hshown⟩ := h.shown
    exact ⟨t, getElem?_append_of_some ht _, hshown⟩
  seen_le := h.seen_le
  within := h.within.trans (by simp)
  hidden i hi hnext := by
    obtain ⟨t, ht, hhidden⟩ := h.hidden i hi hnext
    exact ⟨t, getElem?_append_of_some ht _, hhidden⟩

/-- The whole range is described if its last token is shown, and only then: a hidden token that is
there ends after all before it. -/
theorem describes_iff (h : DescribesShown tokens span range seen) (htiles : Tiles text 0 0 tokens)
    (hend : ∀ t, tokens[range.next - 1]? = some t → t.isEnd = false) :
    Describes tokens span range ↔
      ∃ last, tokens[range.next - 1]? = some last ∧ last.channels ≠ .hiddenOnly := by
  have hfirst : range.first < seen := h.describes.nonempty
  rcases Nat.lt_or_eq_of_le h.seen_le with hlt | heq
  · obtain ⟨last, hlast, hhidden⟩ := h.hidden (range.next - 1) (by omega) (by omega)
    refine ⟨fun hall => ?_, fun ⟨t, ht, hshown⟩ => ?_⟩
    · obtain ⟨t, ht, hstop⟩ := hall.stop
      obtain ⟨u, hu, hstop'⟩ := h.describes.stop
      have hbefore := htiles.stop_le_start (i := seen - 1) (j := range.next - 1) (by omega) hu ht
      have hnonempty := (htiles.nonempty t (List.mem_of_getElem? ht) (hend t ht)).2
      rw [hstop] at hstop'
      omega
    · rw [hlast] at ht
      cases ht
      exact absurd hhidden hshown
  · have hall := h.describes
    rw [heq] at hall
    exact ⟨fun _ => heq ▸ h.shown, fun _ => hall⟩

end DescribesShown

/-! ## Directives -/

/-- A patch marker is described, and a directive line up to the last token that is shown. -/
def Event.Described (tokens : List (Token Kind)) : Event → Prop
  | .directive _ found span range =>
    ∀ directive ∈ found, (directive.isMarker = true → Describes tokens span range) ∧
      (directive.isMarker = false → ∃ seen, DescribesShown tokens span range seen)
  | .other _ => True

theorem isMarker_of_ofPatchMarker {kind : Kind} {directive : Directive}
    (h : Directive.ofPatchMarker? kind = some directive) : directive.isMarker = true := by
  unfold Directive.ofPatchMarker? at h
  split at h <;> cases h <;> rfl

/-- The last token of a directive line that is shown, and the hidden ones after it. -/
theorem exists_lastShown {hash : Token Kind} (hhash : hash.channels ≠ .hiddenOnly)
    (content : List (Token Kind)) :
    ∃ line last tail, hash :: content = line ++ last :: tail ∧
      last = (content.filter fun u => u.channels ≠ .hiddenOnly).getLastD hash ∧
      last.channels ≠ .hiddenOnly ∧ ∀ t ∈ tail, t.channels = .hiddenOnly := by
  induction content using List.reverseRecOn with
  | nil => exact ⟨[], hash, [], rfl, rfl, hhash, List.forall_mem_nil _⟩
  | append_singleton content t ih =>
    by_cases ht : t.channels = .hiddenOnly
    · obtain ⟨line, last, tail, heq, hlast, hshown, htail⟩ := ih
      refine ⟨line, last, tail ++ [t], ?_, ?_, hshown, ?_⟩
      · rw [← List.cons_append, heq, List.append_assoc, List.cons_append]
      · simpa [ht] using hlast
      · exact List.forall_mem_append.2 ⟨htail, List.forall_mem_singleton.2 ht⟩
    · exact ⟨hash :: content, t, [], rfl, by simp [ht], ht, List.forall_mem_nil _⟩

/-- What stands between two places of a list. -/
theorem getElem?_between {α : Type} {before between after : List α} {i : Nat}
    (hfirst : before.length ≤ i) (hnext : i < before.length + between.length) :
    ∃ a ∈ between, (before ++ (between ++ after))[i]? = some a := by
  have hlt : i - before.length < between.length := by omega
  refine ⟨between[i - before.length], List.getElem_mem hlt, ?_⟩
  rw [List.getElem?_append_right hfirst, List.getElem?_append_left hlt, List.getElem?_eq_getElem]

/-- A directive line is described up to the last token that is shown. -/
theorem describesShown_line {text : String} {before content ends after body : List (Token Kind)}
    {hash : Token Kind} (htiles : Tiles text 0 0 body)
    (hbody : body = before ++ hash :: (content ++ (ends ++ after)))
    (hhash : hash.channels ≠ .hiddenOnly) (hends : ∀ t ∈ ends, t.channels = .hiddenOnly) :
    ∃ seen, DescribesShown body
      (hash.span.join ((content.filter fun u => u.channels ≠ .hiddenOnly).getLastD hash).span)
      ⟨before.length, before.length + 1 + (content.length + ends.length)⟩ seen := by
  obtain ⟨line, last, tail, heq, hlast, hshown, htail⟩ := exists_lastShown hhash content
  have hsplit : body = (before ++ line) ++ last :: (tail ++ ends ++ after) := by
    rw [hbody, ← List.cons_append, heq]
    simp
  have hlength := congrArg List.length heq
  simp only [List.length_cons, List.length_append] at hlength
  have hfirst : body[before.length]? = some hash := by simp [hbody]
  have hseen : body[before.length + line.length]? = some last := by simp [hsplit]
  rw [← hlast]
  refine ⟨before.length + line.length + 1, ?_, ⟨last, hseen, hshown⟩, ?_, ?_, fun i hi hnext => ?_⟩
  · exact (Describes.singleton hfirst).join (.singleton hseen) htiles (by omega) (by omega)
  · dsimp only
    omega
  · simp [hbody]
    omega
  · have hsplit' : body = (before ++ line ++ [last]) ++ ((tail ++ ends) ++ after) := by
      simp [hsplit]
    have hbetween : ∃ t ∈ tail ++ ends,
        ((before ++ line ++ [last]) ++ ((tail ++ ends) ++ after))[i]? = some t :=
      getElem?_between (by simp; omega) (by simp at hnext ⊢; omega)
    obtain ⟨t, ht, hsome⟩ := hbetween
    exact ⟨t, hsplit' ▸ hsome, (List.mem_append.1 ht).elim (htail t) (hends t)⟩

/-- So the directives of a module are described, as far as it has no end marker. -/
theorem piecesFrom_described {text : String} {before after body : List (Token Kind)}
    {position : Nat} (htiles : Tiles text 0 0 body)
    (hchannels : ∀ t ∈ body, t.channels = t.kind.channels)
    (hbody : body = before ++ after.takeWhile fun t => !t.isEnd)
    (hposition : position = before.length) :
    ∀ event ∈ (piecesFrom position after).map Piece.event, event.Described body := by
  fun_induction piecesFrom position after generalizing before with
  | case1 position => exact List.forall_mem_nil _
  | case2 position t ts directive hmarker ih =>
    have hnot : t.isEnd = false := by
      refine decide_eq_false fun hk => ?_
      rw [show t.kind = .endOfInput from hk] at hmarker
      cases hmarker
    rw [List.takeWhile_cons_of_pos (by simp [hnot])] at hbody
    have ht : body[position]? = some t := by simp [hbody, hposition]
    have hnext : body = (before ++ [t]) ++ ts.takeWhile fun t => !t.isEnd := by simp [hbody]
    have hrest := ih hnext (by simp [hposition])
    refine List.forall_mem_cons.2 ⟨fun found hfound => ?_, hrest⟩
    cases hfound
    have hkind := isMarker_of_ofPatchMarker hmarker
    exact ⟨fun _ => .singleton ht, fun hline => Bool.noConfusion (hkind.symm.trans hline)⟩
  | case3 position t ts hmarker hend => exact List.forall_mem_nil _
  | case4 position t ts hmarker hend hhash line n hrest ih =>
    obtain ⟨content, ends, rest, heq, hdrop, hcount, hread, hends, -, htake⟩ :=
      lineRest_takes hhash ts
    rw [hrest] at hdrop hcount hread
    dsimp only at hdrop hcount hread
    rw [htake] at hbody
    have hbody' : body =
        before ++ t :: (content ++ (ends ++ rest.takeWhile fun t => !t.isEnd)) := by
      simpa using hbody
    have hhidden : ∀ u ∈ ends, u.channels = .hiddenOnly := fun u hu => by
      rw [hchannels u (by simp [hbody', hu]), hends u hu]
      rfl
    have hshown : t.channels ≠ .hiddenOnly := by
      rw [hchannels t (by simp [hbody']), hhash]
      decide
    obtain ⟨seen, hseen⟩ := describesShown_line htiles hbody' hshown hhidden
    rw [← hread, ← hcount, ← hposition] at hseen
    rw [hdrop] at ih ⊢
    have hnext : body =
        (before ++ t :: (content ++ ends)) ++ rest.takeWhile fun t => !t.isEnd := by simp [hbody']
    have hlater := ih hnext (by simp; omega)
    refine List.forall_mem_cons.2 ⟨fun directive hd => ?_, hlater⟩
    exact ⟨fun hmarker => Bool.noConfusion (hmarker.symm.trans (isMarker_directiveOf hd)),
      fun _ => ⟨seen, hseen⟩⟩
  | case5 position t ts hmarker hend hhash ih =>
    rw [List.takeWhile_cons_of_pos (by simpa using hend)] at hbody
    have hnext : body = (before ++ [t]) ++ ts.takeWhile fun t => !t.isEnd := by simp [hbody]
    have hrest := ih hnext (by simp [hposition])
    exact List.forall_mem_cons.2 ⟨trivial, hrest⟩

/-! ## Scans -/

/-- A place that a scan remembers is described, and it has come past it. -/
def Opening.Described (tokens : List (Token Kind)) (place : Nat) (opening : Opening) : Prop :=
  ∃ next, next ≤ place ∧ Describes tokens opening.span ⟨opening.index, next⟩

/-- What a scan remembers and has recorded up to a place is described. -/
structure Scan.Described (tokens : List (Token Kind)) (place : Nat) (s : Scan) : Prop where
  openRegions : ∀ region ∈ s.openRegions, region.opening.Described tokens place
  openInsert : ∀ opening ∈ s.openInsert, opening.Described tokens place
  openDelete : ∀ opening ∈ s.openDelete, opening.Described tokens place
  regions : ∀ region ∈ s.regions, ∃ seen, DescribesShown tokens region.span region.tokens seen
  zones : ∀ zone ∈ s.zones, Describes tokens zone.span zone.tokens

theorem Opening.Described.later {tokens : List (Token Kind)} {place place' : Nat}
    {opening : Opening} (h : opening.Described tokens place) (hle : place ≤ place') :
    opening.Described tokens place' := by
  obtain ⟨next, hnext, hdescribes⟩ := h
  exact ⟨next, hnext.trans hle, hdescribes⟩

namespace Scan.Described

variable {text : String} {tokens : List (Token Kind)} {place : Nat} {s : Scan} {span : Span}
  {range : TokenRange}

theorem empty : Scan.Described tokens place {} where
  openRegions := List.forall_mem_nil _
  openInsert _ h := nomatch h
  openDelete _ h := nomatch h
  regions := List.forall_mem_nil _
  zones := List.forall_mem_nil _

theorem later {place' : Nat} (h : s.Described tokens place) (hle : place ≤ place') :
    s.Described tokens place' where
  openRegions region hr := (h.openRegions region hr).later hle
  openInsert opening ho := (h.openInsert opening ho).later hle
  openDelete opening ho := (h.openDelete opening ho).later hle
  regions := h.regions
  zones := h.zones

theorem reporting (h : s.Described tokens place) (ds : List Diagnostic) :
    Scan.Described tokens place { s with diagnostics := s.diagnostics ++ ds } :=
  ⟨h.openRegions, h.openInsert, h.openDelete, h.regions, h.zones⟩

theorem setConditions (h : s.Described tokens place)
    (result : Except ConditionError ConditionStack) :
    (s.setConditions span result).Described tokens place := by
  cases result with
  | ok conditions => exact ⟨h.openRegions, h.openInsert, h.openDelete, h.regions, h.zones⟩
  | error cause => exact h.reporting _

theorem region {seen : Nat} (h : s.Described tokens place) (hplace : place ≤ range.next)
    (hspan : DescribesShown tokens span range seen) (name : String) :
    Scan.Described tokens range.next
      { s with openRegions := ⟨name, ⟨span, range.first⟩⟩ :: s.openRegions } := by
  have h' := h.later hplace
  have hopened : Opening.Described tokens range.next ⟨span, range.first⟩ :=
    ⟨seen, hspan.seen_le, hspan.describes⟩
  exact { h' with openRegions := List.forall_mem_cons.2 ⟨hopened, h'.openRegions⟩ }

/-- A region reaches to the last token that is shown of the line that ends it. -/
theorem endRegion {seen : Nat} (h : s.Described tokens place) (htiles : Tiles text 0 0 tokens)
    (hplace : place ≤ range.first) (hspan : DescribesShown tokens span range seen) :
    (s.endRegion span range).Described tokens place := by
  unfold Scan.endRegion
  split
  · exact h.reporting _
  · rename_i region outer hopen
    have hopened := h.openRegions
    rw [hopen] at hopened
    obtain ⟨⟨next, hnext, hregion⟩, houter⟩ := List.forall_mem_cons.1 hopened
    have hfirst : region.opening.index < next := hregion.nonempty
    have hseen : range.first < seen := hspan.describes.nonempty
    have hjoin := hregion.join hspan.describes htiles (by omega) (by omega)
    have hadded : DescribesShown tokens (region.opening.span.join span)
        ⟨region.opening.index, range.next⟩ seen := { hspan with describes := hjoin }
    exact { h with
      openRegions := houter
      regions := List.forall_mem_append.2
        ⟨h.regions, List.forall_mem_singleton.2 ⟨seen, hadded⟩⟩ }

theorem openZone (h : s.Described tokens place) (kind : ZoneKind) (hplace : place ≤ range.next)
    (hspan : Describes tokens span range) :
    (s.openZone kind span range).Described tokens range.next := by
  have h' := h.later hplace
  have hopened : ∀ opening ∈ some (⟨span, range.first⟩ : Opening),
      opening.Described tokens range.next :=
    fun _ ho => Option.some.inj ho ▸ ⟨range.next, Nat.le_refl _, hspan⟩
  unfold Scan.openZone
  split
  · exact { h' with openInsert := hopened }
  · exact { h' with openDelete := hopened }
  · exact h'.reporting _
  · exact h'.reporting _

/-- A zone reaches from its first marker to its last one. -/
theorem closeZone (h : s.Described tokens place) (htiles : Tiles text 0 0 tokens)
    (kind : ZoneKind) (hplace : place ≤ range.first) (hspan : Describes tokens span range) :
    (s.closeZone kind span range).Described tokens place := by
  have hadded {kind : ZoneKind} {opening : Opening} (ho : opening.Described tokens place) :
      ∀ zone ∈ s.zones ++ [⟨kind, opening.span.join span, ⟨opening.index, range.next⟩⟩],
        Describes tokens zone.span zone.tokens := by
    obtain ⟨next, hnext, hopening⟩ := ho
    have hfirst : opening.index < next := hopening.nonempty
    have hlast : range.first < range.next := hspan.nonempty
    exact List.forall_mem_append.2 ⟨h.zones, List.forall_mem_singleton.2
      (hopening.join hspan htiles (by omega) (by omega))⟩
  unfold Scan.closeZone
  split
  · rename_i opening _ hopen
    exact { h with openInsert := nofun, zones := hadded (h.openInsert _ hopen) }
  · rename_i opening hopen
    exact { h with openDelete := nofun, zones := hadded (h.openDelete _ hopen) }
  · exact h.reporting _

theorem apply {reported : List Diagnostic} {directive : Directive} (h : s.Described tokens place)
    (htiles : Tiles text 0 0 tokens) (symbols : SymbolTable) (hplace : place ≤ range.first)
    (hnonempty : range.first < range.next)
    (he : Event.Described tokens (.directive reported (some directive) span range)) :
    (s.apply symbols span range directive).Described tokens range.next := by
  obtain ⟨hmarker, hline⟩ := he directive rfl
  have hnext : place ≤ range.next := hplace.trans (Nat.le_of_lt hnonempty)
  have h' := h.later hnext
  cases directive with
  | ifBlock condition => exact ⟨h'.openRegions, h'.openInsert, h'.openDelete, h'.regions, h'.zones⟩
  | elseIf | otherwise | endIf => exact h'.setConditions _
  | region name =>
    obtain ⟨seen, hseen⟩ := hline rfl
    exact h.region hnext hseen name
  | endRegion =>
    obtain ⟨seen, hseen⟩ := hline rfl
    exact (h.endRegion htiles hplace hseen).later hnext
  | insert => exact h.openZone .insert hnext (hmarker rfl)
  | delete => exact h.openZone .delete hnext (hmarker rfl)
  | endInsert => exact (h.closeZone htiles .insert hplace (hmarker rfl)).later hnext
  | endDelete => exact (h.closeZone htiles .delete hplace (hmarker rfl)).later hnext
  | use | shebang => exact h'

theorem step {event : Event} (h : s.Described tokens place) (htiles : Tiles text 0 0 tokens)
    (symbols : SymbolTable) (hnonempty : ∀ range ∈ event.range?, range.first < range.next)
    (hplace : ∀ range ∈ event.range?, place ≤ range.first) (he : event.Described tokens) :
    (s.step symbols event).Described tokens ((event.range?.map TokenRange.next).getD place) := by
  cases event with
  | other t =>
    unfold Scan.step
    dsimp only
    split
    · exact ⟨h.openRegions, h.openInsert, h.openDelete, h.regions, h.zones⟩
    · exact h
  | directive reported found span range =>
    have hlt := hnonempty range rfl
    have hle := hplace range rfl
    cases found with
    | none => exact (h.reporting reported).later (hle.trans (Nat.le_of_lt hlt))
    | some directive => exact (h.reporting reported).apply htiles symbols hle hlt he

theorem run {events : List Event} (h : s.Described tokens place) (htiles : Tiles text 0 0 tokens)
    (symbols : SymbolTable) (hevents : Sequential events)
    (hplace : ∀ event ∈ events, ∀ range ∈ event.range?, place ≤ range.first)
    (he : ∀ event ∈ events, event.Described tokens) :
    ∃ place', (events.foldl (Scan.step symbols) s).Described tokens place' := by
  induction events generalizing s place with
  | nil => exact ⟨place, h⟩
  | cons event events ih =>
    obtain ⟨hnonempty, hlater⟩ := List.forall_mem_cons.1 hevents.nonempty
    obtain ⟨hfirst, hordered⟩ := List.pairwise_cons.1 hevents.ordered
    obtain ⟨hevent, hrest⟩ := List.forall_mem_cons.1 he
    obtain ⟨hhere, hthere⟩ := List.forall_mem_cons.1 hplace
    have hstep := h.step htiles symbols hnonempty hhere hevent
    refine ih hstep ⟨hlater, hordered⟩ (fun other ho range hrange => ?_) hrest
    cases hrange' : event.range? with
    | none => exact hthere other ho range hrange
    | some passed => exact hfirst other ho passed hrange' range hrange

/-- A deletion that is never ended reaches to the last token before the end marker. -/
theorem unclosed {opening : Opening} (h : opening.Described tokens place)
    (htiles : Tiles text 0 0 tokens) (endMarker : Token Kind) :
    Describes tokens (unclosedDeletion opening (tokens ++ [endMarker])).span
      (unclosedDeletion opening (tokens ++ [endMarker])).tokens := by
  obtain ⟨next, -, hopening⟩ := h
  have hfirst : opening.index < next := hopening.nonempty
  have hwithin : next ≤ tokens.length := hopening.within
  have hlength : (tokens ++ [endMarker]).length - 1 = tokens.length := by simp
  have hlast : tokens[tokens.length - 1]? = some tokens[tokens.length - 1] :=
    List.getElem?_eq_getElem (by omega)
  have hlast' := getElem?_append_of_some hlast [endMarker]
  unfold unclosedDeletion
  simp only [hlength, hlast']
  have hsingle := Describes.singleton hlast
  rw [Nat.sub_add_cancel (by omega)] at hsingle
  exact hopening.join hsingle htiles (by omega) hwithin

theorem finish (h : s.Described tokens place) (htiles : Tiles text 0 0 tokens)
    (endMarker : Token Kind) : (s.finish (tokens ++ [endMarker])).Described tokens place :=
  { h with
    zones := List.forall_mem_append.2 ⟨h.zones, List.forall_mem_map.2 fun opening ho =>
      unclosed (h.openDelete opening (Option.mem_toList.1 ho)) htiles endMarker⟩ }

end Scan.Described

/-! ## Texts -/

/-- All that a scan of a text has recorded is described. -/
theorem Preprocessor.described_scan {text : String} {body : List (Token Kind)} {marker : Token Kind}
    (p : Preprocessor) (hmarker : marker.isEnd = true) (htiles : Tiles text 0 0 body)
    (hchannels : ∀ t ∈ body, t.channels = t.kind.channels) (hbody : ∀ t ∈ body, t.isEnd = false) :
    ∃ place, (p.scan (body ++ [marker])).1.Described body place := by
  have htake : body = [] ++ (body ++ [marker]).takeWhile fun t => !t.isEnd := by
    rw [List.takeWhile_append_of_pos fun t ht => by simp [hbody t ht]]
    simp [hmarker]
  have hevents := (piecesFrom_sequential 0 (body ++ [marker])).1
  obtain ⟨place, hrun⟩ := Scan.Described.empty.run htiles p.symbols hevents
    (fun _ _ _ _ => Nat.zero_le _) (piecesFrom_described htiles hchannels htake rfl)
  refine ⟨place, ?_⟩
  rw [← readPieces_eq_map p.report] at hrun
  exact hrun.finish htiles marker

/-- **Extents.** Of every text and for any symbols: the tokens and the bytes of a patch zone, one
that is never ended included, are the same stretch of the source. The bytes of a region reach from
the first of its tokens to the last one that is shown, and the tokens after that are hidden ones of
the line that ends it. So tokens and bytes of a region are the same stretch if the last token of
the region is shown, and only then. -/
theorem extents_agree (p : Preprocessor) (name text : String) {tokens : List (Token Kind)}
    (h : tokens = lexicalRules.tokenize name text ∨
      tokens = hideLast (lexicalRules.tokenize name text)) :
    (∀ zone ∈ (p.preprocess tokens).1.zones, Describes tokens zone.span zone.tokens) ∧
      ∀ region ∈ (p.preprocess tokens).1.regions,
        (∃ seen, DescribesShown tokens region.span region.tokens seen) ∧
          (Describes tokens region.span region.tokens ↔
            ∃ last, tokens[region.tokens.next - 1]? = some last ∧
              last.channels ≠ .hiddenOnly) := by
  have htiles := lexed_tiles (lexicalRules_plain.lossless name text) h
  obtain ⟨-, hchannels, body, marker, rfl, hmarker, hbody⟩ := lexed h
  have htiles' := htiles.left
  obtain ⟨place, hscan⟩ := p.described_scan hmarker htiles'
    (fun t ht => hchannels t (List.mem_append_left _ ht) (hbody t ht)) hbody
  refine ⟨fun zone hzone => (hscan.zones zone hzone).append [marker], fun region hregion => ?_⟩
  obtain ⟨seen, hseen⟩ := hscan.regions region hregion
  refine ⟨⟨seen, hseen.append [marker]⟩, (hseen.append [marker]).describes_iff htiles ?_⟩
  -- The end marker is in no region.
  intro t ht
  have hfirst : region.tokens.first < seen := hseen.describes.nonempty
  have hlt : region.tokens.next - 1 < body.length := by
    have := hseen.seen_le
    have := hseen.within
    omega
  rw [List.getElem?_append_left hlt] at ht
  exact hbody t (List.mem_of_getElem? ht)

/-- An insertion, and a region at the end of a text without a line break. -/
theorem extents_agree_insertion :
    let tokens := lexicalRules.tokenize "" "#Вставка\n#КонецВставки\n#Область А\n#КонецОбласти"
    let result := (Preprocessor.preprocess { symbols := {} } tokens).1
    result.zones = [⟨.insert, ⟨0, 41⟩, ⟨0, 3⟩⟩] ∧ Describes tokens ⟨0, 41⟩ ⟨0, 3⟩ ∧
      result.regions = [⟨"А", ⟨42, 86⟩, ⟨4, 11⟩⟩] ∧ Describes tokens ⟨42, 86⟩ ⟨4, 11⟩ := by
  intro tokens result
  have hrun : result.zones = [⟨.insert, ⟨0, 41⟩, ⟨0, 3⟩⟩] ∧
      result.regions = [⟨"А", ⟨42, 86⟩, ⟨4, 11⟩⟩] ∧
      tokens[10]?.map Token.channels = some .codeOnly := by decide +kernel
  obtain ⟨hzones, hregions, hlast⟩ := hrun
  have hlexed : tokens =
      lexicalRules.tokenize "" "#Вставка\n#КонецВставки\n#Область А\n#КонецОбласти" := rfl
  obtain ⟨hzone, hregion⟩ := extents_agree { symbols := {} } _ _ (.inl hlexed)
  obtain ⟨last, hsome, hchannels⟩ := Option.map_eq_some_iff.1 hlast
  have hshown : last.channels ≠ .hiddenOnly := by
    rw [hchannels]
    decide
  have hzone' := hzone _ (hzones ▸ List.mem_singleton_self _)
  have hregion' := (hregion _ (hregions ▸ List.mem_singleton_self _)).2
  clear_value tokens
  exact ⟨hzones, hzone', hregions, hregion'.2 ⟨last, hsome, hshown⟩⟩

/-- The two descriptions of a region differ where a line break ends the line that ends it: the line
break is among its tokens and not among its bytes. -/
theorem not_describes_newline :
    let tokens := lexicalRules.tokenize "" "#Область А\n#КонецОбласти\n"
    ¬∀ region ∈ (Preprocessor.preprocess { symbols := {} } tokens).1.regions,
      Describes tokens region.span region.tokens := by
  intro tokens h
  have hrun : (Preprocessor.preprocess { symbols := {} } tokens).1.regions =
      [⟨"А", ⟨0, 44⟩, ⟨0, 8⟩⟩] ∧ (tokens[7]?.map Token.span) = some ⟨44, 45⟩ := by decide +kernel
  obtain ⟨hregions, hspan⟩ := hrun
  rw [hregions] at h
  obtain ⟨t, ht, hstop⟩ := (h _ (List.mem_singleton_self _)).stop
  have ht' : tokens[7]? = some t := ht
  rw [ht'] at hspan
  rw [Option.some.inj hspan] at hstop
  cases hstop

end BuiltInScript.Compilation
