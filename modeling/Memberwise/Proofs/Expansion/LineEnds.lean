import Memberwise.Proofs.Expansion.ReadBack
import Memberwise.Proofs.Expansion.Remains
import Memberwise.Proofs.Token.Partition

/-!
# Proofs/Expansion/LineEnds — a text that ends its lines by returns keeps doing so

A text `HasReturns` if every newline in it stands right after a carriage return.  What is put in
ends its lines as the declaration it follows does, and what is cut out ends in no line end, or takes
a whole one along.  So none is cut in two:

* `Splice.Returned.run` — **edits that cut no line end keep the returns of a text**;
* `SourceExpansion.hasReturns_ofSource` — **an expanded text has its returns exactly if a line ends
  at or after the start of every declaration that was expanded**.
-/

namespace Memberwise

open Text Token

namespace Text

/-- Every newline of a text stands right after a carriage return. -/
def HasReturns (s : List Char) : Prop :=
  ∀ before after, s = before ++ '\n' :: after → before.getLast? = some '\r'

/-! ## Texts with returns -/

variable {s t : List Char}

theorem hasReturns_iff : HasReturns s
    ↔ ∀ n < s.length, s[n]? = some '\n' → (s.take n).getLast? = some '\r' := by
  constructor
  · intro h n hn hc
    refine h (s.take n) (s.drop (n + 1)) ?_
    rw [← (List.getElem?_eq_some_iff.mp hc).2, List.getElem_cons_drop, List.take_append_drop]
  · rintro h before after rfl
    simpa using h before.length (by simp) (by simp)

instance : DecidablePred HasReturns := fun _ => decidable_of_iff _ hasReturns_iff.symm

theorem hasReturns_of_not_mem (h : '\n' ∉ s) : HasReturns s := by
  rintro before after rfl
  exact absurd (List.mem_append_right _ List.mem_cons_self) h

theorem hasReturns_returnNewline : HasReturns LineEnding.returnNewline.chars := by decide

namespace HasReturns

theorem append (hs : HasReturns s) (ht : HasReturns t) : HasReturns (s ++ t) := by
  intro before after h
  rcases Removal.append_cons_eq_append h.symm with ⟨later, rfl, -⟩ | ⟨earlier, rfl, rfl⟩
  · exact hs before later rfl
  · rw [List.getLast?_append, ht earlier after rfl]
    rfl

theorem flatMap {α : Type} {f : α → List Char} {as : List α} (h : ∀ a ∈ as, HasReturns (f a)) :
    HasReturns (as.flatMap f) := by
  induction as with
  | nil => exact hasReturns_of_not_mem (by simp)
  | cons a as ih =>
    rw [List.flatMap_cons]
    exact (h a List.mem_cons_self).append (ih fun b hb => h b (List.mem_cons_of_mem _ hb))

theorem left (h : HasReturns (s ++ t)) : HasReturns s := by
  rintro before after rfl
  exact h before (after ++ t) (by simp)

/-- What comes after a place that is in no line end has its returns. -/
theorem right (h : HasReturns (s ++ t)) (hcut : s.getLast? = some '\r' → t.head? ≠ some '\n') :
    HasReturns t := by
  rintro before after rfl
  have hlast := h (s ++ before) after (by simp)
  rw [List.getLast?_append] at hlast
  cases hb : before.getLast? with
  | none =>
    rw [hb] at hlast
    rw [List.getLast?_eq_none_iff.mp hb] at hcut
    exact absurd rfl (hcut hlast)
  | some c =>
    rw [hb] at hlast
    exact hlast

theorem right_of_last {c : Char} (h : HasReturns (s ++ [c] ++ t)) (hc : c ≠ '\r') :
    HasReturns t := by
  refine h.right fun hlast => ?_
  rw [List.getLast?_concat] at hlast
  exact absurd (Option.some.inj hlast) hc

end HasReturns

end Text

namespace LineEnding

/-- Line ends written with returns have them. -/
theorem hasReturns_apply (s : List Char) : HasReturns (returnNewline.apply s) := by
  refine .flatMap fun c _ => ?_
  split
  · exact hasReturns_returnNewline
  · rename_i hc
    exact hasReturns_of_not_mem (by simpa using Ne.symm hc)

/-- The lines of a text that has its returns end by them, if any line ends. -/
theorem ofText_of_hasReturns {s : List Char} (h : HasReturns s) (hn : '\n' ∈ s) :
    ofText s = returnNewline := by
  fun_induction ofText s with
  | case1 => cases hn
  | case2 t => exact absurd (h [] t rfl) (by simp)
  | case3 => rfl
  | case4 c s hnewline hreturn ih =>
    refine ih (HasReturns.right (s := [c]) h fun hc hs => ?_) ?_
    · obtain ⟨t, rfl⟩ := List.head?_eq_some_iff.mp hs
      exact hreturn t (Option.some.inj hc) rfl
    · exact (List.mem_cons.mp hn).resolve_left fun hc => hnewline hc.symm

theorem ofText_of_not_mem {s : List Char} (hn : '\n' ∉ s) : ofText s = newline := by
  fun_induction ofText s with
  | case1 => rfl
  | case2 => rfl
  | case3 => simp at hn
  | case4 c s _ _ ih => exact ih fun h => hn (List.mem_cons_of_mem _ h)

end LineEnding

theorem Addition.hasReturns_text (a : Addition) : HasReturns (a.text .returnNewline) :=
  .flatMap fun _ _ => (hasReturns_returnNewline.append hasReturns_returnNewline).append
    (LineEnding.hasReturns_apply _)

/-! ## Edits that cut no line end -/

namespace Text

variable {s t : List Char} {n : Nat}

theorem exists_append_of_drop? (h : drop? n s = some t) : ∃ u, s = u ++ t ∧ byteLength u = n := by
  fun_induction drop? n s with
  | case1 s => exact ⟨[], by simpa using h, rfl⟩
  | case2 => cases h
  | case3 n c s hle ih =>
    obtain ⟨u, rfl, hu⟩ := ih h
    exact ⟨c :: u, rfl, by rw [byteLength_cons, hu]; omega⟩
  | case4 => cases h

theorem exists_append_of_take? (h : take? n s = some t) : ∃ u, s = t ++ u ∧ byteLength t = n := by
  fun_induction take? n s generalizing t with
  | case1 s => exact ⟨s, by obtain rfl := Option.some.inj h; exact ⟨rfl, rfl⟩⟩
  | case2 => cases h
  | case3 n c s hle ih =>
    obtain ⟨v, hv, rfl⟩ := Option.map_eq_some_iff.mp h
    obtain ⟨u, rfl, hu⟩ := ih hv
    exact ⟨u, rfl, by rw [byteLength_cons, hu]; omega⟩
  | case4 => cases h

end Text

namespace Removal

variable {source s t : List Char} {m n : Nat}

/-- The rest of a source goes on behind its front. -/
theorem textFrom_add (h : textFrom source n = s ++ t) : textFrom source (n + byteLength s) = t := by
  cases hd : drop? n source with
  | none =>
    rw [textFrom, hd] at h
    obtain ⟨rfl, rfl⟩ := List.append_eq_nil_iff.mp h.symm
    simp [textFrom, hd]
  | some r =>
    rw [textFrom, hd] at h
    obtain rfl : r = s ++ t := h
    obtain ⟨u, rfl, rfl⟩ := exists_append_of_drop? hd
    rw [← byteLength_append, ← List.append_assoc, textFrom_append]

theorem textFrom_of_slice? (h : slice? m n source = some s) :
    textFrom source m = s ++ textFrom source n := by
  unfold slice? at h
  split at h
  · rename_i hmn
    obtain ⟨r, hr, hs⟩ := Option.bind_eq_some_iff.mp h
    obtain ⟨t, rfl, hlen⟩ := exists_append_of_take? hs
    have hm : textFrom source m = s ++ t := by rw [textFrom, hr, Option.getD_some]
    have hn := textFrom_add hm
    rw [hlen, Nat.add_sub_cancel' hmn] at hn
    rw [hm, hn]
  · cases h

end Removal

open Removal

/-- An edit ends in no line end of a source, and what it puts in has its returns. -/
def Edit.KeepsReturns (source : List Char) : Edit → Prop
  | insertion offset text => HasReturns text ∧ HasReturns (textFrom source offset)
  | removal span => HasReturns (textFrom source span.stop)

namespace Splice

variable {source : List Char}

/-- What is written has its returns, and so has what is yet to read. -/
structure Returned (source : List Char) (s : Splice) : Prop where
  written : HasReturns s.written
  rest : HasReturns (textFrom source s.position)

/-- A line that is left out leaves a first part of what is written. -/
theorem exists_append_of_dropIndent? {s kept : List Char} (h : dropIndent? s = some kept) :
    ∃ t, s = kept ++ t := by
  unfold dropIndent? at h
  dsimp only at h
  split at h
  · obtain rfl := Option.some.inj h
    exact eq_dropWhileEnd_append isInlineSpace s
  · cases h

/-- A removal goes on after the blanks, or leaves its line out and goes on after that. -/
theorem skipAttribute_cases (source : List Char) (stop : Nat) (written : List Char) :
    skipAttribute source stop written = ⟨written, blanksEnd source stop⟩
      ∨ ∃ kept, dropIndent? written = some kept ∧ skipAttribute source stop written
        = ⟨kept, blanksEnd source stop
            + lineEndLength ((textFrom source stop).dropWhile isInlineSpace)⟩ := by
  unfold skipAttribute
  dsimp only
  split
  · rename_i kept hkept
    split
    · exact .inr ⟨kept, hkept, rfl⟩
    · exact .inl rfl
  · exact .inl rfl

/-- In a text with returns a line end is left out as a whole. -/
theorem exists_append_of_lineEnd {s : List Char} (h : HasReturns s) : ∃ e t, s = e ++ t
    ∧ byteLength e = lineEndLength s ∧ HasReturns t := by
  unfold lineEndLength
  split
  · rename_i t
    exact ⟨['\r', '\n'], t, rfl, rfl, HasReturns.right_of_last (s := ['\r']) h (by decide)⟩
  · rename_i t
    exact ⟨['\n'], t, rfl, rfl, HasReturns.right_of_last (s := []) h (by decide)⟩
  · exact ⟨[], s, rfl, rfl, h⟩

theorem returned_skipAttribute {stop : Nat} {written : List Char} (hw : HasReturns written)
    (hr : HasReturns (textFrom source stop)) :
    (skipAttribute source stop written).Returned source := by
  have hsplit := (List.takeWhile_append_dropWhile (p := isInlineSpace)
    (l := textFrom source stop)).symm
  have hafter : textFrom source (blanksEnd source stop)
      = (textFrom source stop).dropWhile isInlineSpace := textFrom_add hsplit
  have hrest : HasReturns ((textFrom source stop).dropWhile isInlineSpace) := by
    rw [hsplit] at hr
    refine hr.right fun hlast => ?_
    exact absurd (List.mem_takeWhile_imp (List.mem_of_getLast? hlast)) (by decide)
  rcases skipAttribute_cases source stop written with h | ⟨kept, hkept, h⟩
  · rw [h]
    exact ⟨hw, by rwa [hafter]⟩
  · obtain ⟨t, rfl⟩ := exists_append_of_dropIndent? hkept
    obtain ⟨e, u, hline, hlen, hu⟩ := exists_append_of_lineEnd hrest
    rw [h, ← hlen]
    exact ⟨hw.left, by rwa [textFrom_add (hafter.trans hline)]⟩

namespace Returned

variable {s : Splice} {e : Edit} {es : List Edit}

theorem start (h : HasReturns source) : Splice.start.Returned source :=
  ⟨hasReturns_of_not_mem (by simp [Splice.start]), by simpa [textFrom, Splice.start] using h⟩

/-- **An edit that ends in no line end keeps the returns**, whether it is made or left out. -/
theorem edit (h : s.Returned source) (he : e.KeepsReturns source) :
    (s.edit source e).Returned source := by
  unfold Splice.edit
  split
  · exact h
  · rename_i before hbefore
    have hcopied : HasReturns (s.written ++ before) := by
      have hrest := h.rest
      rw [textFrom_of_slice? hbefore] at hrest
      exact h.written.append hrest.left
    cases e with
    | insertion offset text => exact ⟨hcopied.append he.1, he.2⟩
    | removal span => exact returned_skipAttribute hcopied he

/-- **Edits that cut no line end keep the returns of a text.** -/
theorem run (h : s.Returned source) (hes : ∀ e ∈ es, e.KeepsReturns source) :
    (es.foldl (Splice.edit source) s).Returned source := by
  induction es generalizing s with
  | nil => exact h
  | cons e es ih =>
    exact ih (h.edit (hes e List.mem_cons_self)) fun e' he => hes e' (List.mem_cons_of_mem _ he)

theorem finish (h : s.Returned source) : HasReturns (s.finish source) := h.written.append h.rest

end Returned

end Splice

theorem hasReturns_applyEdits {source : List Char} {es : List Edit} (h : HasReturns source)
    (hes : ∀ e ∈ es, e.KeepsReturns source) : HasReturns (applyEdits source es) :=
  ((Splice.Returned.start h).run hes).finish

/-! ## Where attributes end and declarations begin -/

/-- No token ends in a carriage return, if every piece is sound. -/
theorem exists_last_of_mem_rowTokens {source : List Char} {t : Token}
    (hsound : ∀ p ∈ pieces source, p.lexeme.isSound = true) (ht : t ∈ rowTokens 0 (pieces source)) :
    ∃ before c after, source = before ++ [c] ++ after ∧ t.span.stop = byteLength (before ++ [c])
      ∧ c ≠ '\r' := by
  obtain ⟨q, hq, hgives⟩ := List.mem_flatMap.mp ht
  rw [Placed.mem_tokens_iff] at hgives
  obtain ⟨hblank, hcomment⟩ := hgives.lexeme_ne
  obtain ⟨before, after, hcovers, hfits⟩ := exists_covers_of_mem_placed hq
  have hmem : q.piece ∈ pieces source := by
    rw [← map_piece_placed 0 (pieces source)]
    exact List.mem_map_of_mem hq
  obtain ⟨x, c, hx, hc⟩ : ∃ x c, q.piece.text = x ++ [c] ∧ c ≠ '\r' := by
    by_cases hn : q.piece.lexeme = .token .newline
    · exact ⟨[], '\n', hfits.text_newline hn, by decide⟩
    · obtain ⟨x, c, hx, hink⟩ := hfits.exists_isInk (hsound _ hmem) hblank hn hcomment
      refine ⟨x, c, hx, ?_⟩
      rintro rfl
      exact absurd hink (by decide)
  refine ⟨before ++ x, c, after, ?_, ?_, hc⟩
  · rw [hcovers.source_eq, hx, ← List.append_assoc before]
  · rw [hgives.stop_eq, hcovers.stop_eq, hx, List.append_assoc, byteLength_append before]

/-- An attribute ends in no line end. -/
theorem exists_last_of_attribute {source : String} (h : (Reading.ofSource source).diagnostics = [])
    {d : Declaration} (hd : d ∈ (Reading.ofSource source).file.declarations) {s : Span}
    (hs : s ∈ d.attributeSpans) : ∃ before c after, source.toList = before ++ [c] ++ after
      ∧ s.stop = byteLength (before ++ [c]) ∧ c ≠ '\r' := by
  obtain ⟨hl, hf⟩ := List.append_eq_nil_iff.mp h
  have hc : (Cursor.start source.toList (lex source).tokens).IsLaid := laid_lexText source.toList
  obtain ⟨pre, t, body, final, post, hr, -, -, -, hstop⟩ := declarations_preceded false hc
    (fun _ => rfl) (List.map_eq_nil_iff.mp hf) d hd s hs
  have hfinal : final ∈ rowTokens 0 (pieces source.toList) := by
    refine (hr.symm ▸ ?_ : final ∈ (Cursor.start source.toList (lex source).tokens).rest)
    simp
  rw [hstop]
  exact exists_last_of_mem_rowTokens (errors_eq_nil_iff.mp (List.map_eq_nil_iff.mp hl)) hfinal

/-- **A declaration with a block begins at the at sign of its first attribute**, if it has any. -/
theorem declarations_opened (inBlock : Bool) {c : Cursor} (hc : c.IsLaid) :
    ∀ d ∈ (declarations inBlock c).declarations, d.members ≠ none → d.attributes ≠ [] →
      ∃ before after, c.source = before ++ '@' :: after ∧ d.span.start = byteLength before := by
  intro d hd hm ha
  obtain ⟨i, j, k, hij, hclose, hspan, has⟩ := exists_block_of_members inBlock c d hd hm
  have hlast := Cursor.lt_length_of_kind (c := c) (k := j) (by rw [hclose]; decide)
  have hfirst := hc.span_start_mono (i := i) (j := j) (Nat.le_of_lt hij) hlast
  generalize d.attributes = as at ha has
  cases Parser.attributes_eq_ok has with
  | nil => exact absurd rfl ha
  | cons hk =>
    obtain ⟨before, after, hs, hat, -, -⟩ :=
      (hc.skip i).exists_span (w := "@") (by rw [hk]; rfl)
    refine ⟨before, after, ?_, ?_⟩
    · rw [← c.source_skip i, hs, List.append_assoc]
      rfl
    · rw [hspan, Span.merge_start, Nat.min_eq_left hfirst, hat]

/-- What follows a declaration follows from its attributes. -/
theorem Declaration.attributes_of_readableAddition? {registry : Registry} {rules : ExclusionRules}
    {d : Declaration} {a : Addition} (h : d.readableAddition? registry rules = some a) :
    d.attributes ≠ [] := by
  obtain ⟨-, hne, -⟩ := readableAddition?_eq_some h
  obtain ⟨e, es, hes⟩ := List.exists_cons_of_ne_nil hne
  intro hnil
  obtain ⟨full, hfull, -⟩ := Option.bind_eq_some_iff.mp h
  have hout : d.outcomes registry rules = [] := by
    rw [outcomes, attributesOfRole, hnil]
    rfl
  simp [addition?, hout] at hfull

/-! ## The edits of a source -/

namespace Removal

/-- A text that is put in is a part of the whole. -/
theorem infix_applyEdits_of_spaced {source text : List Char} {n : Nat} {es : List Edit}
    (h : Spaced source 0 es) (he : .insertion n text ∈ es) : text <:+: applyEdits source es := by
  obtain ⟨before, after, hs, rfl, -⟩ := h.exists_brace he
  have hinserted : text <:+: insertedAt es (byteLength before + 1) := by
    refine List.infix_of_mem_flatten (List.mem_map.mpr ⟨_, he, ?_⟩)
    exact if_pos rfl
  have hlocated : (byteLength before, '\x7d') ∈ located 0 source := by
    rw [hs, located_append, Nat.zero_add]
    exact List.mem_append_right _ List.mem_cons_self
  rw [applyEdits_of_spaced h]
  exact (hinserted.trans (List.suffix_append _ _).isInfix).trans
    (List.infix_of_mem_flatten (List.mem_map.mpr ⟨_, hlocated, rfl⟩))

end Removal

namespace SourceExpansion

variable {registry : Registry} {rules : ExclusionRules} {source : String}

/-- What is added follows a declaration of the source that has attributes and a block. -/
theorem exists_declaration_of_addition (h : (Reading.ofSource source).diagnostics = [])
    {a : Addition} (ha : a ∈ (ofSource registry rules source).expansion.additions) :
    a.extensions ≠ [] ∧ ∃ before after, source.toList = before ++ '@' :: after
      ∧ a.anchor.start = byteLength before := by
  rw [expansion_ofSource h, FileExpansion.additions_readable] at ha
  obtain ⟨d, hd, had⟩ := List.mem_filterMap.mp ha
  obtain ⟨hanchor, hne, hblock⟩ := Declaration.readableAddition?_eq_some had
  have hc : (Cursor.start source.toList (lex source).tokens).IsLaid := laid_lexText source.toList
  refine ⟨hne, ?_⟩
  rw [hanchor]
  exact declarations_opened false hc d hd hblock (Declaration.attributes_of_readableAddition? had)

/-- The text of a declaration on begins with an at sign, so in no line end. -/
theorem hasReturns_textFrom_anchor (h : (Reading.ofSource source).diagnostics = [])
    (hs : HasReturns source.toList) {a : Addition}
    (ha : a ∈ (ofSource registry rules source).expansion.additions) :
    HasReturns (Removal.textFrom source.toList a.anchor.start) := by
  obtain ⟨-, before, after, hsource, hstart⟩ := exists_declaration_of_addition h ha
  rw [hstart, hsource, Removal.textFrom_append]
  rw [hsource] at hs
  exact hs.right fun _ hhead => absurd (Option.some.inj hhead) (by decide)

/-- **The edits of an expansion cut no line end** of a source with returns, if each addition ends
its lines with returns. -/
theorem keepsReturns_of_mem_edits (h : (Reading.ofSource source).diagnostics = [])
    (hs : HasReturns source.toList)
    (hn : ∀ a ∈ (ofSource registry rules source).expansion.additions,
      '\n' ∈ Removal.textFrom source.toList a.anchor.start) :
    ∀ e ∈ (ofSource registry rules source).expansion.edits source.toList,
      e.KeepsReturns source.toList := by
  intro e he
  obtain ⟨n, hseq⟩ := exists_sequence_ofSource source
  rcases List.mem_append.mp (List.mem_mergeSort.mp he) with hins | hrem
  · obtain ⟨a, ha, rfl⟩ := List.mem_map.mp hins
    have hending : LineEnding.ofAnchor source.toList a.anchor = .returnNewline :=
      LineEnding.ofText_of_hasReturns (hasReturns_textFrom_anchor h hs ha) (hn a ha)
    rw [expansion_ofSource h, FileExpansion.edits_ofDeclarations registry rules hseq] at he
    obtain ⟨before, after, hsource, hstop, -⟩ := (hseq.spaced registry rules).exists_brace he
    rw [hending]
    refine ⟨a.hasReturns_text, ?_⟩
    have hcut : source.toList = before ++ ['\x7d'] ++ after := by rw [hsource]; simp
    have hplace : a.anchor.stop = byteLength (before ++ ['\x7d']) := by
      rw [hstop, byteLength_append]
      rfl
    rw [hplace, hcut, Removal.textFrom_append]
    exact (hcut ▸ hs).right_of_last (by decide)
  · obtain ⟨s, hmem, rfl⟩ := List.mem_map.mp hrem
    rw [expansion_ofSource h, FileExpansion.consumed_readable registry rules hseq] at hmem
    obtain ⟨d, hd, hconsumed⟩ := List.mem_flatMap.mp hmem
    obtain ⟨before, c, after, hcut, hstop, hc⟩ :=
      exists_last_of_attribute h hd ((d.consumed_sublist registry).subset hconsumed)
    change HasReturns (Removal.textFrom source.toList s.stop)
    rw [hstop, hcut, Removal.textFrom_append]
    exact (hcut ▸ hs).right_of_last hc

/-- What is added to a declaration with no line end in or after it brings bare newlines. -/
theorem not_hasReturns_of_addition (h : (Reading.ofSource source).diagnostics = []) {a : Addition}
    (ha : a ∈ (ofSource registry rules source).expansion.additions)
    (hn : '\n' ∉ Removal.textFrom source.toList a.anchor.start) :
    ¬ HasReturns ((ofSource registry rules source).expansion.apply source.toList) := by
  obtain ⟨n, hseq⟩ := exists_sequence_ofSource source
  have hending : LineEnding.ofAnchor source.toList a.anchor = .newline :=
    LineEnding.ofText_of_not_mem hn
  have he : Edit.insertion a.anchor.stop (a.text (.ofAnchor source.toList a.anchor))
      ∈ (ofSource registry rules source).expansion.edits source.toList :=
    List.mem_mergeSort.mpr (List.mem_append_left _ (List.mem_map_of_mem ha))
  obtain ⟨e, es, hes⟩ := List.exists_cons_of_ne_nil (exists_declaration_of_addition h ha).1
  obtain ⟨text, htext⟩ : ∃ text, a.text .newline = '\n' :: '\n' :: text := by
    rw [Addition.text, hes]
    exact ⟨_, rfl⟩
  rw [FileExpansion.apply]
  rw [expansion_ofSource h, FileExpansion.edits_ofDeclarations registry rules hseq] at he ⊢
  obtain ⟨u, v, hout⟩ := Removal.infix_applyEdits_of_spaced (hseq.spaced registry rules) he
  rw [← hout, hending, htext]
  intro hreturns
  have hlast := hreturns (u ++ ['\n']) (text ++ v) (by simp)
  rw [List.getLast?_concat] at hlast
  exact absurd (Option.some.inj hlast) (by decide)

/-- **An expanded text has its returns exactly if a line ends at or after the start of every
declaration that was expanded**: of a source that ends its lines by returns, no removal leaves half
a line end, and what is put in has the line ends of the source from its declaration on. -/
theorem hasReturns_ofSource (registry : Registry) (rules : ExclusionRules) {source : String}
    (hs : HasReturns source.toList) :
    let e := ofSource registry rules source
    HasReturns e.output.toList
      ↔ ∀ a ∈ e.expansion.additions, '\n' ∈ Removal.textFrom source.toList a.anchor.start := by
  dsimp only
  by_cases h : (Reading.ofSource source).diagnostics = []
  · rw [toList_output_ofSource]
    refine ⟨fun hout a ha => ?_, fun hn => ?_⟩
    · by_contra hn
      exact not_hasReturns_of_addition h ha hn hout
    · exact hasReturns_applyEdits hs (keepsReturns_of_mem_edits h hs hn)
  · rw [ofSource_of_not_readable h]
    exact ⟨fun _ a ha => absurd ha List.not_mem_nil, fun _ => hs⟩

/-- A struct whose lines end by returns, with its extension. -/
theorem hasReturns_ofSource_struct :
    HasReturns "@Equatable\r\nstruct P \x7b\r\n  let x: Int\r\n\x7d\r\n".toList
      ∧ (ofSource .standard .standard
          "@Equatable\r\nstruct P \x7b\r\n  let x: Int\r\n\x7d\r\n").expansion.extensions
        = [.equatable "P" none (.fieldEqual "x")]
      ∧ HasReturns (ofSource .standard .standard
          "@Equatable\r\nstruct P \x7b\r\n  let x: Int\r\n\x7d\r\n").output.toList := by
  have hs : HasReturns "@Equatable\r\nstruct P \x7b\r\n  let x: Int\r\n\x7d\r\n".toList := by
    decide
  have hd : (Reading.ofSource
      "@Equatable\r\nstruct P \x7b\r\n  let x: Int\r\n\x7d\r\n").diagnostics = [] := by decide +kernel
  have hfull : (FileExpansion.ofDeclarations .standard .standard (Reading.ofSource
      "@Equatable\r\nstruct P \x7b\r\n  let x: Int\r\n\x7d\r\n").file.declarations).additions
        = [⟨⟨0, 39⟩, [.equatable "P" none (.fieldEqual "x")]⟩] := by decide +kernel
  have hread : (Extension.equatable "P" none (.fieldEqual "x")).readBackFault? = none := by
    rw [FileExpansion.readBackFault?_of_mem (hfull ▸ List.mem_cons_self) List.mem_cons_self]
    decide
  have hadditions : (ofSource .standard .standard
      "@Equatable\r\nstruct P \x7b\r\n  let x: Int\r\n\x7d\r\n").expansion.additions
        = [⟨⟨0, 39⟩, [.equatable "P" none (.fieldEqual "x")]⟩] := by
    rw [expansion_ofSource hd, FileExpansion.readable, hfull]
    simp [Addition.readable?, hread]
  refine ⟨hs, ?_, (hasReturns_ofSource .standard .standard hs).mpr ?_⟩
  · rw [FileExpansion.extensions, hadditions]
    rfl
  · rw [hadditions]
    decide

end SourceExpansion

end Memberwise
