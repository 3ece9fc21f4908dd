import Memberwise.Declaration.Descendants
import Memberwise.Proofs.Declaration.Rounds
import Memberwise.Proofs.Text.Offsets
import Memberwise.Proofs.Token.Layout

/-!
# Proofs/Declaration/Sequence — declarations stand in order

A declaration's attributes come first, then everything declared inside it, then the brace that
closes it if it has a block; what is declared next comes after that.  So all attributes of a file
stand one after the other, each declaration's own before those further in (`Between`), and

* `declarations_sequence` — **the declarations of a source stand in order**, those of a block before
  the brace that ends it (`Sequence`).
-/

namespace Memberwise

open Text Token

/-! ## Attributes in order -/

/-- Attributes that stand one after the other in a source, from one offset up to another. -/
inductive Between (source : List Char) : Nat → List Span → Nat → Prop
  | nil {m n : Nat} (h : m ≤ n) : Between source m [] n
  | cons {m n : Nat} {before text after : List Char} {as : List Span}
      (hs : source = before ++ ('@' :: text) ++ after) (hm : m ≤ byteLength before)
      (has : Between source (byteLength before + byteLength ('@' :: text)) as n) :
      Between source m
        (⟨byteLength before, byteLength before + byteLength ('@' :: text)⟩ :: as) n

namespace Between

variable {source : List Char} {l m n : Nat} {as bs : List Span}

theorem le (h : Between source m as n) : m ≤ n := by
  induction h with
  | nil h => exact h
  | cons hs hm has ih => omega

theorem of_le (h : Between source m as n) (hl : l ≤ m) : Between source l as n := by
  cases h with
  | nil h => exact .nil (Nat.le_trans hl h)
  | cons hs hm has => exact .cons hs (Nat.le_trans hl hm) has

theorem trans_le (h : Between source l as m) (hn : m ≤ n) : Between source l as n := by
  induction h with
  | nil h => exact .nil (Nat.le_trans h hn)
  | cons hs hm has ih => exact .cons hs hm (ih hn)

theorem append (h : Between source l as m) (h' : Between source m bs n) :
    Between source l (as ++ bs) n := by
  induction h with
  | nil h => exact h'.of_le h
  | cons hs hm has ih => exact .cons hs hm (ih h')

/-- Some attributes of a row stand in order as well. -/
theorem sublist (h : Between source m as n) (hb : bs.Sublist as) : Between source m bs n := by
  induction h generalizing bs with
  | nil h =>
    rw [List.sublist_nil.mp hb]
    exact .nil h
  | @cons m n before text after as hs hm has ih =>
    rcases List.sublist_cons_iff.mp hb with hlater | ⟨bs', rfl, hlater⟩
    · exact (ih hlater).of_le (Nat.le_trans hm (Nat.le_add_right _ _))
    · exact .cons hs hm (ih hlater)

/-- Attributes in order do not start before where they may. -/
theorem le_start (h : Between source m as n) : ∀ a ∈ as, m ≤ a.start := by
  induction h with
  | nil => simp
  | cons hs hm has ih =>
    intro a ha
    rcases List.mem_cons.mp ha with rfl | ha
    · exact hm
    · have := ih a ha
      omega

theorem pairwise (h : Between source m as n) : as.Pairwise fun a b => a.start < b.start := by
  induction h with
  | nil => exact .nil
  | cons hs hm has ih =>
    refine .cons (fun b hb => ?_) ih
    have hle := has.le_start b hb
    have := ('@' : Char).utf8Size_pos
    rw [byteLength_cons] at hle
    change byteLength _ < _
    omega

end Between

/-- After some reading, the token passed last covers a part of the source that was still to come. -/
theorem Cursor.IsLaid.exists_previousSpan {c : Cursor} {n : Nat} (h : c.IsLaid) (hr : c.rest ≠ [])
    (hn : 0 < n) : ∃ before text after, c.source = before ++ text ++ after
      ∧ (c.skip n).previousSpan = ⟨byteLength before, byteLength before + byteLength text⟩
      ∧ c.previousSpan.stop ≤ byteLength before := by
  obtain ⟨i, -, hi, hspan⟩ := exists_previousSpan_eq hr hn
  obtain ⟨before, text, after, hs, ht, -, hle⟩ := (h.skip i).exists_text (rest_skip_ne_nil hi)
  exact ⟨before, text, after, hs, by rw [hspan, ht], Nat.le_trans (h.previousSpan_stop_le i) hle⟩

namespace Parser

variable {c : Cursor} {n : Nat}

theorem identifier_eq_ok {r : String × Span} (h : identifier c = ⟨.ok r, n⟩) :
    c.kind = .ident ∧ r = (String.ofList (unescapeText c.currentText), c.span) ∧ n = 1 := by
  unfold identifier at h
  split at h
  · cases h
    exact ⟨‹_›, rfl, rfl⟩
  · cases h

/-- An attribute's span reaches from its at sign to the end of the last token read of it, and a name
is. -/
theorem attributeAfter_eq_ok {s : Span} {a : Attribute} (h : attributeAfter s c = ⟨.ok a, n⟩) :
    a.span = s.merge (c.skip n).previousSpan ∧ c.rest ≠ [] ∧ 0 < n := by
  rw [attributeAfter, inside_eq_ok] at h
  obtain ⟨name, m, k, hname, h', rfl⟩ := bind_eq_ok.mp h
  obtain ⟨arguments, l, j, -, h'', rfl⟩ := bind_eq_ok.mp h'
  rw [here_bind] at h''
  obtain ⟨rfl, rfl⟩ := pure_eq_ok.mp h''
  obtain ⟨r, i, _, hr, -, rfl⟩ := bind_eq_ok.mp hname
  obtain ⟨hk, -, rfl⟩ := identifier_eq_ok hr
  exact ⟨by simp [Nat.add_assoc], Cursor.rest_ne_nil_of_kind (by rw [hk]; decide), by omega⟩

/-- An attribute covers the source from its at sign through the token read last of it. -/
theorem exists_span_of_attributeAfter {a : Attribute} (hc : c.IsLaid) (hk : c.kind = .atSign)
    (ha : attributeAfter c.span (c.skip 1) = ⟨.ok a, n⟩) :
    ∃ before text after, c.source = before ++ ('@' :: text) ++ after
      ∧ a.span = ⟨byteLength before, byteLength before + byteLength ('@' :: text)⟩
      ∧ c.span.start = byteLength before ∧ c.previousSpan.stop ≤ byteLength before
      ∧ (c.skip (1 + n)).previousSpan.stop = byteLength before + byteLength ('@' :: text) := by
  obtain ⟨hspan, hrest, hpos⟩ := attributeAfter_eq_ok ha
  obtain ⟨front, after, hs, ht, hle, hprev⟩ :=
    hc.exists_span (w := "@") (by rw [hk]; rfl)
  obtain ⟨before, text, after', hs', hlast, hle'⟩ := (hc.skip 1).exists_previousSpan hrest hpos
  have hat : "@".toList = ['@'] := rfl
  rw [hat] at hs ht
  rw [hprev, ht, ← byteLength_append] at hle'
  rw [Cursor.source_skip] at hs'
  have hcut : front ++ ['@'] ++ after = before ++ (text ++ after') := by
    rw [← hs, ← List.append_assoc, ← hs']
  obtain ⟨mid, rfl, -⟩ := exists_append_of_le hcut hle'
  have hlen : byteLength (front ++ ['@'] ++ mid) + byteLength text
      = byteLength front + byteLength ('@' :: (mid ++ text)) := by
    simp only [byteLength_append, byteLength_cons, byteLength_nil]
    omega
  refine ⟨front, mid ++ text, after', by rw [hs']; simp, ?_, by rw [ht], hle, ?_⟩
  · rw [hspan, hlast, ht, hlen, Span.merge_of_le] <;> simp
  · rw [← Cursor.skip_skip, hlast, hlen]

/-- **The attributes of a declaration stand in order.** -/
theorem AttributeRow.between {as : List Attribute} (h : AttributeRow c as n) (hc : c.IsLaid) :
    Between c.source c.previousSpan.stop (as.map (·.span)) (c.skip n).previousSpan.stop := by
  induction h with
  | nil =>
    rw [Cursor.skip_zero]
    exact .nil (Nat.le_refl _)
  | @cons c a as k m n hk ha hm has ih =>
    obtain ⟨before, text, after, hs, hspan, -, hle, hstop⟩ := exists_span_of_attributeAfter hc hk ha
    have hnext := ih (hc.skip m)
    rw [Cursor.source_skip, Cursor.skip_skip] at hnext
    rw [List.map_cons, hspan]
    refine .cons hs hle (hnext.of_le ?_)
    have hstay := (hc.skip (1 + k)).previousSpan_stop_le (c.skip (1 + k)).newlines
    rwa [Cursor.skip_skip, ← hm, hstop] at hstay

end Parser

/-! ## Declarations in order -/

namespace Declaration

/-- The spans of a declaration's attributes, and then of those further in. -/
def attributeSpans (d : Declaration) : List Span :=
  (d :: d.descendants).flatMap fun e => e.attributes.map (·.span)

end Declaration

/-- A declaration stands between two offsets of a source: its attributes do, and if it has a block,
the brace that ends it comes after them. -/
inductive Declaration.Within (source : List Char) (d : Declaration) : Nat → Nat → Prop
  | line {m n : Nat} (hm : d.members = none) (has : Between source m d.attributeSpans n) :
      Within source d m n
  | block {m n : Nat} {before after : List Char} (hs : source = before ++ '\x7d' :: after)
      (has : Between source m d.attributeSpans (byteLength before))
      (hd : d.span.stop = byteLength before + 1) (hn : d.span.stop ≤ n) : Within source d m n

/-- Declarations that stand one after the other in a source, from one offset up to another. -/
inductive Sequence (source : List Char) : Nat → List Declaration → Nat → Prop
  | nil {m n : Nat} (h : m ≤ n) : Sequence source m [] n
  | cons {l m n : Nat} {d : Declaration} {ds : List Declaration} (hd : d.Within source l m)
      (hds : Sequence source m ds n) : Sequence source l (d :: ds) n

namespace Declaration

variable {source : List Char} {d : Declaration} {l m n : Nat}

theorem attributeSpans_of_line (h : d.members = none) :
    d.attributeSpans = d.attributes.map (·.span) := by
  rw [attributeSpans, descendants_eq, h]
  simp

theorem attributeSpans_of_block {ds : List Declaration} (h : d.members = some ds) :
    d.attributeSpans = d.attributes.map (·.span) ++ ds.flatMap attributeSpans := by
  rw [attributeSpans, descendants_eq, h, List.flatMap_cons, Option.getD_some, List.flatMap_assoc]
  rfl

theorem Within.of_le (h : d.Within source m n) (hl : l ≤ m) : d.Within source l n := by
  cases h with
  | line hm has => exact .line hm (has.of_le hl)
  | block hs has hd hn => exact .block hs (has.of_le hl) hd hn

theorem Within.between (h : d.Within source m n) : Between source m d.attributeSpans n := by
  cases h with
  | line hm has => exact has
  | block hs has hd hn => exact has.trans_le (by omega)

end Declaration

namespace Sequence

variable {source : List Char} {l m n : Nat} {ds : List Declaration}

theorem of_le (h : Sequence source m ds n) (hl : l ≤ m) : Sequence source l ds n := by
  cases h with
  | nil h => exact .nil (Nat.le_trans hl h)
  | cons hd hds => exact .cons (hd.of_le hl) hds

/-- The attributes of declarations in order, those further in included, stand in order. -/
theorem between (h : Sequence source m ds n) :
    Between source m (ds.flatMap Declaration.attributeSpans) n := by
  induction h with
  | nil h => exact .nil h
  | cons hd hds ih => exact hd.between.append ih

end Sequence

/-- What a declaration is read of besides its attributes declares nothing in a block of its own. -/
theorem Parser.HeadRest.bare {first : Span} {as : List Attribute} {ms : List Modifier} {c : Cursor}
    {d : Declaration} {n : Nat} (h : HeadRest first as ms c (.complete d) n) :
    d.attributes = as ∧ d.members = none := by
  cases h with
  | function _ h => exact ⟨rfl, (ensures_function _ _ _ _ h).2⟩
  | line _ h => exact ⟨rfl, (ensures_line _ _ _ _ h).2⟩
  | property => exact ⟨rfl, rfl⟩

/-- **The declarations of a source stand in order.** -/
theorem declarations_sequence (inBlock : Bool) {c : Cursor} (hc : c.IsLaid) :
    Sequence c.source c.previousSpan.stop (declarations inBlock c).declarations
      (c.skip (declarations inBlock c).taken).previousSpan.stop := by
  revert hc
  refine declarations_induction (P := fun _ c p => c.IsLaid → Sequence c.source
    c.previousSpan.stop p.declarations (c.skip p.taken).previousSpan.stop) ?_ inBlock c
  intro inBlock c p hround ih hc
  -- What is read after a round stands in order behind it.
  have hlater : ∀ {k : Nat}, (c.skip k).rest.length < c.rest.length →
      Sequence c.source (c.skip k).previousSpan.stop (declarations inBlock (c.skip k)).declarations
        (c.skip (k + (declarations inBlock (c.skip k)).taken)).previousSpan.stop := by
    intro k hk
    rw [← Cursor.skip_skip]
    exact ih inBlock (c.skip k) hk (hc.skip k)
  cases hround with
  | done => exact .nil (hc.previousSpan_stop_le _)
  | failed _ hn => exact (hlater hn).of_le (hc.previousSpan_stop_le _)
  | directive _ hn => exact (hlater hn).of_le (hc.previousSpan_stop_le _)
  | complete h hn =>
    obtain ⟨as, k, m, l, has, -, hrest, rfl⟩ := Parser.head_eq_ok h
    obtain ⟨hda, hdm⟩ := hrest.bare
    refine .cons (.line hdm ?_) (hlater hn)
    have hown := (Parser.attributes_eq_ok has).between (hc.skip c.separators)
    rw [Cursor.skip_skip] at hown
    rw [Declaration.attributeSpans_of_line hdm, hda]
    exact (hown.of_le (hc.previousSpan_stop_le _)).trans_le (hc.previousSpan_stop_mono (by omega))
  | @block d n m inner h ho hi hm hclose hn hn' =>
    obtain ⟨as, k, j, l, has, -, hrest, hsum⟩ := Parser.head_eq_ok h
    have hown := (Parser.attributes_eq_ok has).between (hc.skip c.separators)
    have hinner := ih true _ hn (hc.skip _)
    rw [Cursor.skip_skip] at hown
    rw [← hi, Cursor.skip_skip, ← hm] at hinner
    obtain ⟨before, after, hs, hspan, hle, hprev⟩ :=
      (hc.skip m).exists_span (w := "\x7d") (by rw [hclose]; rfl)
    have hs' : c.source = before ++ '\x7d' :: after := by
      rw [← c.source_skip m, hs, List.append_assoc]
      rfl
    have hopen := Cursor.lt_length_of_kind (c := c) (k := c.separators + n) (by rw [ho]; decide)
    have hfirst : (c.skip c.separators).span.stop ≤ byteLength before :=
      Nat.le_trans (hc.span_stop_le_previousSpan (by omega) (by omega)) hle
    cases hrest with
    | @type kind d l _ _ =>
      have hstop : ((c.skip c.separators).span.merge (c.skip m).span).stop
          = byteLength before + 1 := by
        rw [hspan, Span.merge_stop]
        exact Nat.max_eq_right (Nat.le_trans hfirst (Nat.le_add_right _ _))
      refine .cons (.block hs' ?_ hstop ?_) (hlater hn')
      · rw [Declaration.attributeSpans_of_block rfl]
        refine (hown.of_le (hc.previousSpan_stop_le _)).append ?_
        exact (hinner.between.trans_le hle).of_le (hc.previousSpan_stop_mono (by omega))
      · have hbrace : (c.skip (m + 1)).previousSpan.stop = byteLength before + 1 := by
          rw [← Cursor.skip_skip, hprev, hspan]
          rfl
        exact Nat.le_of_eq (hstop.trans hbrace.symm)

/-- **A declaration with a block is read from its first token to a closing brace**, and its attributes
are read first. -/
theorem exists_block_of_members (inBlock : Bool) (c : Cursor) :
    ∀ d ∈ (declarations inBlock c).declarations, d.members ≠ none → ∃ i j k, i < j
      ∧ (c.skip j).kind = .rightBrace ∧ d.span = (c.skip i).span.merge (c.skip j).span
      ∧ Parser.attributes (c.skip i) = ⟨.ok d.attributes, k⟩ := by
  refine declarations_induction (P := fun _ c p => ∀ d ∈ p.declarations, d.members ≠ none →
    ∃ i j k, i < j ∧ (c.skip j).kind = .rightBrace
      ∧ d.span = (c.skip i).span.merge (c.skip j).span
      ∧ Parser.attributes (c.skip i) = ⟨.ok d.attributes, k⟩) ?_ inBlock c
  intro inBlock c p hround ih
  have hlater : ∀ {l : Nat}, (c.skip l).rest.length < c.rest.length →
      ∀ d ∈ (declarations inBlock (c.skip l)).declarations, d.members ≠ none → ∃ i j k, i < j
        ∧ (c.skip j).kind = .rightBrace ∧ d.span = (c.skip i).span.merge (c.skip j).span
        ∧ Parser.attributes (c.skip i) = ⟨.ok d.attributes, k⟩ := by
    intro l hl d hd hm
    obtain ⟨i, j, k, hij, hclose, hspan, has⟩ := ih inBlock (c.skip l) hl d hd hm
    rw [Cursor.skip_skip] at hclose has
    rw [Cursor.skip_skip, Cursor.skip_skip] at hspan
    exact ⟨l + i, l + j, k, Nat.add_lt_add_left hij l, hclose, hspan, has⟩
  cases hround with
  | done => simp [Parsed.nothing]
  | failed _ hn => exact hlater hn
  | directive _ hn => exact hlater hn
  | complete h hn =>
    obtain ⟨as, k, m, l, -, -, hrest, -⟩ := Parser.head_eq_ok h
    intro e he hm
    rcases List.mem_cons.mp he with rfl | he
    · exact absurd hrest.bare.2 hm
    · exact hlater hn e he hm
  | @block d n m inner h ho hi hm hclose hn hn' =>
    obtain ⟨as, k, j, l, has, -, hrest, -⟩ := Parser.head_eq_ok h
    intro e he hb
    rcases List.mem_cons.mp he with rfl | he
    · cases hrest with
      | type => exact ⟨c.separators, m, k, by omega, hclose, rfl, has⟩
    · exact hlater hn' e he hb

/-- **A declaration with a block ends at the closing brace read last of it.** -/
theorem declarations_closed (inBlock : Bool) {c : Cursor} (hc : c.IsLaid) :
    ∀ d ∈ (declarations inBlock c).declarations, d.members ≠ none →
      ∃ t ∈ c.rest, t.kind = .rightBrace ∧ t.span.stop = d.span.stop := by
  intro d hd hm
  obtain ⟨i, j, k, hij, hclose, hspan, -⟩ := exists_block_of_members inBlock c d hd hm
  have hlast := Cursor.lt_length_of_kind (c := c) (k := j) (by rw [hclose]; decide)
  obtain ⟨before, after, -, hbrace, hle, -⟩ :=
    (hc.skip j).exists_span (w := "\x7d") (by rw [hclose]; rfl)
  have hfirst : (c.skip i).span.stop ≤ byteLength before :=
    Nat.le_trans (hc.span_stop_le_previousSpan hij (by omega)) hle
  refine ⟨(c.skip j).current, Cursor.current_skip_mem hlast, hclose, ?_⟩
  change (c.skip j).span.stop = d.span.stop
  rw [hspan, Span.merge_stop, hbrace]
  exact (Nat.max_eq_right (Nat.le_trans hfirst (Nat.le_add_right _ _))).symm

theorem exists_sequence_ofSource (source : String) :
    ∃ n, Sequence source.toList 0 (Reading.ofSource source).file.declarations n := by
  have hc : (Cursor.start source.toList (lex source).tokens).IsLaid := laid_lexText source.toList
  exact ⟨_, declarations_sequence false hc⟩

end Memberwise
