import Memberwise.Proofs.Equality.PrintedRow
import Memberwise.Proofs.Expansion.Edits
import Memberwise.Proofs.Expansion.Trimming

/-!
# Proofs/Expansion/Words — what an expanded text says

An expanded text is to say what its source says but for the consumed attributes, and after each
declaration what its extensions say (`FileExpansion.wordsOf`).  It does unless two names come to
stand side by side: an attribute may touch the name before it, and the blanks after it are cut out
with it.

* `SourceExpansion.words_ofSource_iff` — **the expanded text says that exactly if no removal joins
  two characters of a name**.
-/

namespace Memberwise

open Text Token Removal

namespace FileExpansion

/-- The words added where a declaration ends. -/
def wordsAt (f : FileExpansion) (n : Nat) : List Word :=
  f.additions.flatMap fun a =>
    if a.anchor.stop = n then a.extensions.flatMap fun e => words (chars e.fragments) else []

/-- The words to expect of an expanded source: those of its tokens that are in no consumed
attribute, each followed by what is added where it ends. -/
def wordsOf (f : FileExpansion) (source : List Char) : List Word :=
  ((lexText source).tokens.tokens.filter (·.kind != .newline)).flatMap fun t =>
    (if t.span.isIn f.consumed then [] else [⟨t.kind, (t.span.slice? source).getD []⟩])
      ++ f.wordsAt t.span.stop

/-- The words to expect, piece by piece. -/
theorem wordsOf_eq (f : FileExpansion) (source : List Char) : f.wordsOf source
    = Trimming.expectedWords f.consumed f.wordsAt (placed 0 (pieces source)) := by
  have hs : source = [] ++ (pieces source).flatMap Piece.text ++ [] := by
    simp [flatMap_text_pieces]
  exact flatMap_placed hs fun w s =>
    (if s.isIn f.consumed then [] else [w]) ++ f.wordsAt s.stop

/-- What is put in says what is added. -/
theorem words_insertedAt {f : FileExpansion}
    (hf : ∀ a ∈ f.additions, ∀ e ∈ a.extensions, ∃ c : Comparison, c.IsProper ∧ e = c.extension)
    (source : List Char) (n : Nat) (s : List Char) :
    words (f.insertedAt source n ++ s) = f.wordsAt n ++ words s := by
  have hext : ∀ (ending : LineEnding) (es : List Extension),
      (∀ e ∈ es, ∃ c : Comparison, c.IsProper ∧ e = c.extension) → ∀ s,
      words ((es.flatMap fun e => ending.chars ++ ending.chars ++ ending.apply (chars e.fragments))
        ++ s) = (es.flatMap fun e => words (chars e.fragments)) ++ words s := by
    intro ending es hes
    induction es with
    | nil => exact fun _ => rfl
    | cons e es ih =>
      intro s
      obtain ⟨c, hc, rfl⟩ := hes e List.mem_cons_self
      rw [List.flatMap_cons, List.append_assoc, Comparison.words_append hc,
        ih fun e he => hes e (List.mem_cons_of_mem _ he), List.flatMap_cons, List.append_assoc]
  unfold insertedAt wordsAt
  generalize f.additions = as at hf
  induction as with
  | nil => rfl
  | cons a as ih =>
    have hlater := ih fun b hb => hf b (List.mem_cons_of_mem _ hb)
    rw [List.flatMap_cons, List.flatMap_cons, List.append_assoc, List.append_assoc, ← hlater]
    split
    · exact hext _ _ (hf a List.mem_cons_self) _
    · rfl

end FileExpansion

/-- The token that closes a declaration is a piece of the source. -/
theorem exists_piece_of_brace {source : List Char} {t : Token}
    (ht : t ∈ rowTokens 0 (pieces source)) (hk : t.kind = .rightBrace) :
    ∃ P p Q, pieces source = P ++ p :: Q ∧ p.lexeme = .token .rightBrace
      ∧ t.span.stop = width (P ++ [p]) := by
  obtain ⟨pre, post, hrow⟩ := List.append_of_mem ht
  obtain ⟨P, p, Q, hps, -, hp, -⟩ := exists_piece_of_rowTokens hrow
  refine ⟨P, p, Q, hps, ?_, ?_⟩
  · rw [rowTokens, placed, placed, List.flatMap_singleton, Placed.tokens] at hp
    cases hl : p.lexeme with
    | token k =>
      rw [hl] at hp
      obtain rfl := (List.cons.inj hp).1
      rw [← hk]
    | blockComment =>
      rw [hl] at hp
      dsimp only at hp
      split at hp
      · obtain rfl := (List.cons.inj hp).1
        cases hk
      · cases hp
    | literal =>
      rw [hl] at hp
      obtain rfl := (List.cons.inj hp).1
      cases hk
    | _ =>
      rw [hl] at hp
      cases hp
  · rcases rowTokens_singleton (0 + byteLength (P.flatMap Piece.text)) p with h | ⟨u, h, hstop, -⟩
    · rw [h] at hp
      cases hp
    · rw [h] at hp
      obtain rfl := (List.cons.inj hp).1
      rw [hstop, Nat.zero_add, width_concat, width]

namespace SourceExpansion

variable {registry : Registry} {rules : ExclusionRules} {source : String}

/-- **Expanding a source trims it**, where reading finds nothing wrong. -/
theorem trimming_ofSource (registry : Registry) (rules : ExclusionRules)
    (h : (Reading.ofSource source).diagnostics = []) :
    let f := (ofSource registry rules source).expansion
    Trimming source.toList f.consumed (f.insertedAt source.toList)
      ∧ f.apply source.toList
        = marked (removedBy source.toList f.consumed) (f.insertedAt source.toList) 0 source.toList
      ∧ ∀ a ∈ f.additions, ∀ e ∈ a.extensions, ∃ c : Comparison, c.IsProper ∧ e = c.extension := by
  dsimp only
  rw [expansion_ofSource h]
  obtain ⟨n, hseq⟩ := exists_sequence_ofSource source
  have hspaced := hseq.spaced registry rules
  have hspans := FileExpansion.spans_edits registry rules source.toList
    (Reading.ofSource source).file.declarations
  have hins := funext (FileExpansion.insertedAt_edits registry rules source.toList
    (Reading.ofSource source).file.declarations)
  have hanch := anchored_of_spaced hspaced
  have happly := applyEdits_of_spaced hspaced
  rw [hspans, hins] at hanch happly
  rw [FileExpansion.consumed_readable registry rules hseq]
  refine ⟨⟨?_, ?_, hanch, ?_⟩, ?_, ?_⟩
  · intro a ha
    obtain ⟨d, hd, ha⟩ := List.mem_flatMap.mp ha
    exact exists_attributePieces h hd ((d.consumed_sublist registry).subset ha)
  · obtain ⟨hl, -⟩ := List.append_eq_nil_iff.mp h
    exact errors_eq_nil_iff.mp (List.map_eq_nil_iff.mp hl)
  · intro m hm
    obtain ⟨a, ha, hne⟩ : ∃ a ∈ (FileExpansion.ofDeclarations registry rules
        (Reading.ofSource source).file.declarations).readable.additions, a.anchor.stop = m := by
      by_contra hnone
      refine hm (List.flatMap_eq_nil_iff.mpr fun a ha => if_neg fun hstop => ?_)
      exact hnone ⟨a, ha, hstop⟩
    rw [FileExpansion.additions_readable] at ha
    obtain ⟨d, hd, hda⟩ := List.mem_filterMap.mp ha
    obtain ⟨hanchor, -, hblock⟩ := Declaration.readableAddition?_eq_some hda
    have hc : (Cursor.start source.toList (lex source).tokens).IsLaid := laid_lexText source.toList
    obtain ⟨t, ht, hk, hstop⟩ := declarations_closed false hc d hd hblock
    obtain ⟨P, p, Q, hps, hl, hw⟩ := exists_piece_of_brace ht hk
    exact ⟨P, p, Q, hps, hl, by rw [← hne, hanchor, ← hstop, hw]⟩
  · rw [FileExpansion.apply, FileExpansion.edits_ofDeclarations registry rules hseq]
    exact happly
  · intro a ha e he
    rw [FileExpansion.additions_readable] at ha
    obtain ⟨d, -, hda⟩ := List.mem_filterMap.mp ha
    exact Declaration.exists_comparison (Declaration.result_of_mem_readableAddition? hda e he)

/-- **An expanded text says what is expected exactly if no two names are joined**, where what is
consumed and added is what the declarations expand to. -/
theorem words_ofSource_iff (h : (Reading.ofSource source).diagnostics = []) :
    (ofSource registry rules source).expansion = (FileExpansion.ofDeclarations registry rules
        (Reading.ofSource source).file.declarations).readable
      ∧ (words (ofSource registry rules source).output.toList
          = (ofSource registry rules source).expansion.wordsOf source.toList
        ↔ ¬ Joins (removedBy source.toList (ofSource registry rules source).expansion.consumed) 0
            source.toList) := by
  refine ⟨expansion_ofSource h, ?_⟩
  obtain ⟨htrim, happly, hext⟩ := trimming_ofSource registry rules h
  have hsource := flatMap_text_pieces source.toList
  have key := htrim.words_marked_iff (P := []) (Q := pieces source.toList)
    (FileExpansion.words_insertedAt hext source.toList) rfl
  rw [hsource] at key
  rw [toList_output_ofSource, happly, FileExpansion.wordsOf_eq]
  exact key

/-- **An attribute that touches the name before it joins that name to the word after it**: of three
words around it two are left, and neither is one of the three. -/
theorem words_ofSource_joined :
    (Reading.ofSource "let x@SkipEquatable var y\n").diagnostics = []
      ∧ (ofSource .standard .standard "let x@SkipEquatable var y\n").output = "let xvar y\n"
      ∧ ¬ words (ofSource .standard .standard "let x@SkipEquatable var y\n").output.toList
        = (ofSource .standard .standard "let x@SkipEquatable var y\n").expansion.wordsOf
          "let x@SkipEquatable var y\n".toList := by
  have hd : (Reading.ofSource "let x@SkipEquatable var y\n").diagnostics = [] := by decide +kernel
  have houtput : (ofSource .standard .standard "let x@SkipEquatable var y\n").output
      = "let xvar y\n" := by decide +kernel
  have hexpansion : (ofSource .standard .standard "let x@SkipEquatable var y\n").expansion
      = ⟨[], [⟨5, 19⟩]⟩ := by decide +kernel
  refine ⟨hd, houtput, fun h => (words_ofSource_iff hd).2.mp h ?_⟩
  rw [hexpansion]
  refine ⟨"let ".toList, 'x', "@SkipEquatable ".toList, 'v', "ar y\n".toList, by decide, by decide,
    by decide, by decide, by decide +kernel, ?_, by decide +kernel⟩
  have hgone : ((located 5 "@SkipEquatable ".toList).all fun x =>
      removedBy "let x@SkipEquatable var y\n".toList [⟨5, 19⟩] x.1) = true := by decide +kernel
  exact fun o c ho => List.all_eq_true.mp hgone (o, c) ho
end SourceExpansion

end Memberwise
