import Memberwise.Proofs.Declaration.Joining
import Memberwise.Proofs.Text.Offsets
import Memberwise.Proofs.Token.Partition
import Mathlib.Data.List.Induction

/-!
# Proofs/Declaration/Concatenation — sources that are joined by a line end

Of two sources without errors, joined by a line end, the tokens are those of the first, the line end
and those of the second.  The first source's declarations are read as if it stood alone
(`declarations_joined`), and from where they end all is as in the second one.

* `Reading.ofSource_append` — **two sources joined by a line end declare what they declare alone**,
  one after the other, unless the first ends in an initializer that is left open and the second
  begins with a token that does not end it.
-/

namespace Memberwise

open Text

/-- Where reading the declarations of a source begins. -/
def Cursor.ofSource (source : String) : Cursor := .start source.toList (lex source).tokens

/-- The source ends in an initializer that its last line leaves open. -/
def EndsOpen (source : String) : Prop :=
  ∃ p, InDeclarations false (.ofSource source) p ∧ ((Cursor.ofSource source).skip p).LeftOpen

/-- The first line of the source that is not empty ends every initializer before it. -/
def BeginsApart (source : String) : Prop :=
  (Cursor.ofSource source).EndsInitializers (Cursor.ofSource source).pastNewlines

section

variable {c d : Cursor}

/-- Declarations without errors do not begin with what goes on with a line before. -/
theorem pastNewlines_of_errors (he : (declarations false c).errors = []) :
    c.pastNewlines.kind ∉ goesBack := by
  have hkind : (c.skip c.newlines).kind = c.pastNewlines.kind := by
    rw [Cursor.kind, Cursor.current, Cursor.ahead_skip, Cursor.pastNewlines_eq_ahead]
    rfl
  by_cases hsemi : (c.skip c.newlines).kind = .semicolon
  · rw [← hkind, hsemi]
    decide
  · have hsep := separators_eq_newlines hsemi
    rw [← hkind, ← hsep]
    by_cases hends : (c.skip c.separators).Ends false
    · rw [Cursor.kind_of_rest_eq_nil (hends.resolve_right (by simp))]
      decide
    · rw [errors_of_not_ends hends, List.append_eq_nil_iff] at he
      obtain ⟨-, r, m, hok⟩ := head_of_finding he.1
      intro hmem
      exact Parser.kind_of_head hok (List.mem_cons_of_mem _ (List.mem_cons_of_mem _
        (List.mem_cons_of_mem _ hmem))) rfl

/-- Tokens are cut before the line ends at their end. -/
theorem exists_append_newlines (ts : List Token) : ∃ A N, ts = A ++ N
    ∧ (∀ t ∈ N, t.kind = .newline) ∧ ∀ t, A.getLast? = some t → t.kind ≠ .newline := by
  induction ts using List.reverseRecOn with
  | nil => exact ⟨[], [], rfl, by simp, by simp⟩
  | append_singleton ts t ih =>
    by_cases ht : t.kind = .newline
    · obtain ⟨A, N, rfl, hN, hA⟩ := ih
      refine ⟨A, N ++ [t], List.append_assoc A N [t], fun u hu => ?_, hA⟩
      rcases List.mem_append.mp hu with hu | hu
      · exact hN u hu
      · rwa [List.mem_singleton.mp hu]
    · refine ⟨ts ++ [t], [], (List.append_nil _).symm, by simp, fun u hu => ?_⟩
      rw [List.getLast?_append_of_ne_nil _ (by simp), List.getLast?_singleton] at hu
      rwa [← Option.some.inj hu]

/-- **Reading declarations does not depend on what was passed before**, nor on where it happens. -/
theorem declarations_moved (inBlock : Bool) {n : Nat}
    (hrest : d.rest = c.rest.map (mapSpans (.move n))) (hstop : d.stop = c.stop + n)
    (htext : ∀ s : Span, d.text (s.move n) = c.text s) : declarations inBlock d
      = mapSpans (.move n) (declarations inBlock { c with passed := [] }) := by
  obtain ⟨hi, hbound⟩ := exists_bound c.rest
  obtain ⟨k, hs⟩ := exists_shows (declarations inBlock { c with passed := [] }).taken c.rest
  have halike : Alike n hi k { c with passed := [] } d := by
    refine ⟨?_, fun _ => hstop, fun t ht => hbound t (List.mem_of_mem_take ht),
      fun t ht => (by cases ht), fun s _ => htext s⟩
    rw [hrest]
    exact known_map n k c.rest
  exact declarations_alike halike hs

/-- What is declared by the same tokens elsewhere is the same, but for its place. -/
theorem declarations_of_rest {n : Nat} (hrest : d.rest = c.rest.map (mapSpans (.move n)))
    (hstop : d.stop = c.stop + n) (htext : ∀ s : Span, d.text (s.move n) = c.text s) :
    (declarations false d).errors = mapSpans (.move n) (declarations false c).errors
      ∧ (declarations false d).declarations
        = mapSpans (.move n) (declarations false c).declarations := by
  -- Both read the same as the first cursor with nothing passed.
  have hd := declarations_moved false hrest hstop htext
  have hc := declarations_moved false (c := c) (d := c) (n := 0) (by
    rw [show (mapSpans (.move 0) : Token → Token) = id from funext mapSpans_move_zero, List.map_id])
    rfl (fun s => by rw [Span.move_zero]; rfl)
  rw [mapSpans_move_zero] at hc
  rw [hd, ← hc]
  exact ⟨rfl, rfl⟩

/-- The line ends before the first token that is none. -/
theorem kind_of_mem_take_newlines (c : Cursor) :
    ∀ t ∈ c.rest.take c.newlines, t.kind = .newline := by
  intro t ht
  rw [Cursor.newlines, Cursor.countWhile,
    ← List.prefix_iff_eq_take.mp (List.takeWhile_prefix _)] at ht
  simpa using List.mem_takeWhile_imp ht

/-- Line ends that come next are separators. -/
theorem length_le_separators {N B : List Token} (hN : ∀ t ∈ N, t.kind = .newline)
    (hrest : c.rest = N ++ B) : N.length ≤ c.separators := by
  rw [Cursor.separators, Cursor.countWhile, hrest,
    List.takeWhile_append_of_pos fun t ht => by simp [hN t ht], List.length_append]
  exact Nat.le_add_right _ _

theorem newlines_le_separators (c : Cursor) : c.newlines ≤ c.separators := by
  have h := length_le_separators (kind_of_mem_take_newlines c) (List.take_append_drop _ _).symm
  rwa [List.length_take, Nat.min_eq_left c.newlines_le] at h

theorem startsDeclaration_alike {n : Nat} (htext : ∀ s : Span, d.text (s.move n) = c.text s)
    (t : Token) : d.startsDeclaration (mapSpans (.move n) t) = c.startsDeclaration t := by
  rw [Cursor.startsDeclaration, Cursor.startsDeclaration, kind_mapSpans, span_mapSpans, htext]

end

section

variable {a b : List Char}

/-- The second text in the joined one. -/
theorem text_append_right (a b : List Char) (ts us : TokenList) (s : Span) :
    (Cursor.start (a ++ '\n' :: b) ts).text (s.move (byteLength a + 1))
      = (Cursor.start b us).text s := by
  have hslice := slice?_append_right (a ++ ['\n']) b s.start s.stop
  rw [byteLength_append, List.append_assoc] at hslice
  exact congrArg (Option.getD · []) hslice

variable {A N B : List Token}

/-- The tokens of a text that stand first among those of a text it begins are the same there. -/
theorem alike_start (hA : (lexText a).tokens.tokens = A ++ N)
    (hB : (lexText (a ++ b)).tokens.tokens = A ++ B) :
    Alike 0 (byteLength a) A.length (.start a (lexText a).tokens)
      (.start (a ++ b) (lexText (a ++ b)).tokens) where
  known := by
    change Known 0 A.length (lexText a).tokens.tokens (lexText (a ++ b)).tokens.tokens
    rw [hA, hB]
    exact known_append A _ _
  stop hlt := by
    change (lexText a).tokens.tokens.length < A.length at hlt
    rw [hA, List.length_append] at hlt
    omega
  bound t ht := by
    have hmem : t ∈ (lexText a).tokens.toList := List.mem_append_left _ (List.mem_of_mem_take ht)
    obtain ⟨before, text, after, hs⟩ := (isPartition_lexText a).token_isPart t hmem
    have := congrArg byteLength hs.source_eq
    rw [byteLength_append, byteLength_append] at this
    rw [hs.start_eq, hs.stop_eq]
    omega
  previous t ht := by cases ht
  text s hs := by
    rw [Span.move_zero]
    exact congrArg (Option.getD · []) (slice?_append_left hs b)

/-- The token before the line ends that a text ends in is none, and not its end. -/
theorem kind_ahead_start (hA : (lexText a).tokens.tokens = A ++ N)
    (hlast : ∀ t, A.getLast? = some t → t.kind ≠ .newline) (hpos : 0 < A.length) :
    ((Cursor.start a (lexText a).tokens).ahead (A.length - 1)).kind ≠ .newline
      ∧ ((Cursor.start a (lexText a).tokens).ahead (A.length - 1)).kind ≠ .endOfFile := by
  have hne : A ≠ [] := List.ne_nil_of_length_pos hpos
  have hget : (Cursor.start a (lexText a).tokens).ahead (A.length - 1) = A.getLast hne := by
    rw [Cursor.ahead, List.getD_eq_getElem?_getD]
    change (lexText a).tokens.tokens[A.length - 1]?.getD _ = _
    rw [hA, List.getElem?_append_left (by omega), List.getElem?_eq_getElem (by omega),
      Option.getD_some, List.getLast_eq_getElem]
  have hmem : A.getLast hne ∈ (lexText a).tokens.tokens := by
    rw [hA]
    exact List.mem_append_left _ (List.getLast_mem _)
  rw [hget]
  refine ⟨hlast _ (List.getLast?_eq_some_getLast _), fun hend => ?_⟩
  obtain ⟨ts, hts, hnone⟩ := (isPartition_lexText a).end_eq
  rw [TokenList.toList] at hts
  obtain ⟨rfl, -⟩ := List.append_inj' hts rfl
  exact hnone _ hmem hend

/-- Past its line ends, a text does not begin with what goes on with a line before. -/
theorem begins_moved {e : Cursor} (he : e.pastNewlines.kind ∉ goesBack) (n : Nat) {t : Token}
    (ht : ((e.skip e.newlines).rest.map (mapSpans (.move n))).head? = some t) :
    t.kind ≠ .newline ∧ t.kind ∉ goesBack := by
  rw [List.head?_map] at ht
  obtain ⟨u, hu, rfl⟩ := Option.map_eq_some_iff.mp ht
  obtain ⟨us, hus⟩ := List.head?_eq_some_iff.mp hu
  have hkind : (e.skip e.newlines).kind = u.kind := by
    rw [Cursor.kind, Cursor.current_of_rest hus]
  have hne := kind_skip_newlines e
  rw [Cursor.pastNewlines_eq_ahead, ← Nat.add_zero e.newlines, ← Cursor.ahead_skip] at he
  change (e.skip e.newlines).kind ∉ goesBack at he
  rw [hkind] at hne he
  exact ⟨hne, he⟩

/-- **The first text ends in the joined one** where the line end follows it. -/
theorem exists_ending (ha : (lexText a).errors = [])
    (hb : (Cursor.start b (lexText b).tokens).pastNewlines.kind ∉ goesBack) :
    ∃ q, Ending (byteLength a)
      (((Cursor.start b (lexText b).tokens).skip
        (Cursor.start b (lexText b).tokens).newlines).rest.map (mapSpans (.move (byteLength a + 1))))
      q (.start a (lexText a).tokens) (.start (a ++ '\n' :: b) (lexText (a ++ '\n' :: b)).tokens) := by
  generalize he : Cursor.start b (lexText b).tokens = e at hb ⊢
  have hrest : e.rest = (lexText b).tokens.tokens := by rw [← he]; rfl
  have htokens := tokens_append_newline ha b
  rw [← hrest, ← List.take_append_drop e.newlines e.rest, List.map_append] at htokens
  obtain ⟨A, N, hA, hN, hlast⟩ := exists_append_newlines (lexText a).tokens.tokens
  rw [hA, List.append_assoc] at htokens
  refine ⟨A.length, alike_start hA htokens, ?_, ?_, kind_ahead_start hA hlast⟩
  · refine ⟨fun t ht => ?_, ⟨N ++ ⟨.newline, ⟨byteLength a, byteLength a + 1⟩⟩
      :: (e.rest.take e.newlines).map (mapSpans (.move (byteLength a + 1))), fun t ht => ?_, ?_⟩,
      fun t ht => begins_moved hb _ ht⟩
    · change t ∈ (lexText a).tokens.tokens.drop A.length at ht
      rw [hA, List.drop_left] at ht
      exact hN t ht
    · rcases List.mem_append.mp ht with ht | ht
      · exact hN t ht
      · rcases List.mem_cons.mp ht with rfl | ht
        · rfl
        · obtain ⟨u, hu, rfl⟩ := List.mem_map.mp ht
          exact kind_of_mem_take_newlines e u hu
    · change (lexText (a ++ '\n' :: b)).tokens.tokens.drop A.length = _
      rw [htokens, List.drop_left, List.append_assoc]
      rfl
  · rw [Cursor.ahead, List.getD_eq_getElem?_getD]
    change ((lexText (a ++ '\n' :: b)).tokens.tokens[A.length]?.getD _).kind = _
    rw [htokens, List.getElem?_append_right (Nat.le_refl _), Nat.sub_self]
    cases N with
    | nil => rfl
    | cons t N => exact hN t List.mem_cons_self

end

/-- **Two sources joined by a line end declare what they declare alone**, one after the other and
without errors, if they have none alone.  Only a source that ends in an initializer left open needs a
next one whose first line ends it. -/
theorem Reading.ofSource_append {a b : String} (ha : (Reading.ofSource a).diagnostics = [])
    (hb : (Reading.ofSource b).diagnostics = []) (hopen : EndsOpen a → BeginsApart b) :
    (Reading.ofSource (a ++ "\n" ++ b)).diagnostics = []
      ∧ unplaced (Reading.ofSource (a ++ "\n" ++ b)).file.declarations
        = unplaced (Reading.ofSource a).file.declarations
          ++ unplaced (Reading.ofSource b).file.declarations := by
  have hparts : ∀ {s : String}, (Reading.ofSource s).diagnostics = [] ↔
      (lexText s.toList).errors = [] ∧ (declarations false (.ofSource s)).errors = [] := by
    intro s
    rw [Reading.diagnostics, List.append_eq_nil_iff, List.map_eq_nil_iff, List.map_eq_nil_iff]
    rfl
  have hjoined : (a ++ "\n" ++ b).toList = a.toList ++ '\n' :: b.toList := by
    rw [String.toList_append, String.toList_append, List.append_assoc]
    rfl
  rw [hparts] at ha hb ⊢
  change _ ∧ unplaced (declarations false (.ofSource (a ++ "\n" ++ b))).declarations
    = unplaced (declarations false (.ofSource a)).declarations
      ++ unplaced (declarations false (.ofSource b)).declarations
  have hd : Cursor.ofSource (a ++ "\n" ++ b) = .start (a.toList ++ '\n' :: b.toList)
      (lexText (a.toList ++ '\n' :: b.toList)).tokens := by
    rw [Cursor.ofSource, lex, hjoined]
  obtain ⟨q, hending⟩ := exists_ending ha.1 (pastNewlines_of_errors hb.2)
  have htext := fun s => text_append_right a.toList b.toList
    (lexText (a.toList ++ '\n' :: b.toList)).tokens (lexText b.toList).tokens s
  rw [hjoined, hd]
  change Ending _ (((Cursor.ofSource b).skip (Cursor.ofSource b).newlines).rest.map _) q
    (.ofSource a) _ at hending
  change ∀ s, _ = (Cursor.ofSource b).text s at htext
  have hstop : (Cursor.start (a.toList ++ '\n' :: b.toList)
      (lexText (a.toList ++ '\n' :: b.toList)).tokens).stop
      = (Cursor.ofSource b).stop + (byteLength a.toList + 1) := by
    change byteLength (a.toList ++ '\n' :: b.toList)
      = byteLength b.toList + (byteLength a.toList + 1)
    rw [byteLength_append, byteLength_cons, show ('\n' : Char).utf8Size = 1 from rfl]
    omega
  generalize Cursor.start (a.toList ++ '\n' :: b.toList)
    (lexText (a.toList ++ '\n' :: b.toList)).tokens = d at hending htext hstop ⊢
  obtain ⟨j, N, ds, hN, hrest, hds, hdecls, herrs⟩ := declarations_joined hending ha.2
    fun p hp hleft => by
      have hends := hopen ⟨p, hp, hleft⟩
      rw [BeginsApart, Cursor.pastNewlines_eq_ahead, ← Nat.add_zero (Cursor.ofSource b).newlines,
        ← Cursor.ahead_skip] at hends
      cases hr : ((Cursor.ofSource b).skip (Cursor.ofSource b).newlines).rest with
      | nil => exact .inr (.inr rfl)
      | cons t ts =>
        have ht : ((Cursor.ofSource b).skip (Cursor.ofSource b).newlines).ahead 0 = t :=
          Cursor.current_of_rest hr
        rw [ht] at hends
        refine hends.imp (fun hstarts => ?_) id
        exact (startsDeclaration_alike htext t).trans hstarts
  -- What follows is read as in the second source, from after its first line ends.
  have hlater := declarations_skip_separators false (length_le_separators hN hrest)
  have hb' := declarations_skip_separators false (newlines_le_separators (.ofSource b))
  have hmoved := declarations_of_rest (c := (Cursor.ofSource b).skip (Cursor.ofSource b).newlines)
    (d := (d.skip j).skip N.length) (n := byteLength a.toList + 1)
    (by rw [Cursor.rest_skip, hrest, List.drop_left]) hstop htext
  rw [hlater.1, hlater.2, hb'.1, hb'.2, hb.2] at hmoved
  refine ⟨⟨errors_append_newline ha.1 hb.1, by rw [herrs, hmoved.1]; rfl⟩, ?_⟩
  rw [hdecls, hmoved.2, unplaced_append, hds, unplaced_mapSpans]

/-- An attribute ends the initializer that the line before it leaves open, so the actor is read. -/
theorem Reading.ofSource_append_attribute :
    BeginsApart "@MainActor\nactor Foo \x7b\x7d\n"
      ∧ (Reading.ofSource ("let y = x++" ++ "\n" ++ "@MainActor\nactor Foo \x7b\x7d\n")).diagnostics
        = []
      ∧ unplaced (Reading.ofSource
          ("let y = x++" ++ "\n" ++ "@MainActor\nactor Foo \x7b\x7d\n")).file.declarations
        = unplaced (Reading.ofSource "let y = x++").file.declarations
          ++ unplaced (Reading.ofSource "@MainActor\nactor Foo \x7b\x7d\n").file.declarations := by
  have ha : (Reading.ofSource "let y = x++").diagnostics = [] := by decide +kernel
  have hb : (Reading.ofSource "@MainActor\nactor Foo \x7b\x7d\n").diagnostics = [] := by decide +kernel
  have hapart : BeginsApart "@MainActor\nactor Foo \x7b\x7d\n" := by
    left
    decide +kernel
  exact ⟨hapart, Reading.ofSource_append ha hb fun _ => hapart⟩

-- Without the attribute the initializer takes the actor in: `actor` is a name to it.
example : (Reading.ofSource "actor Foo \x7b\x7d\n").file.declarations.length = 1
    ∧ (Reading.ofSource "let y = x++\nactor Foo \x7b\x7d\n").diagnostics = []
    ∧ (Reading.ofSource "let y = x++\nactor Foo \x7b\x7d\n").file.declarations.length = 1 := by
  refine ⟨?_, ?_, ?_⟩ <;> decide +kernel

end Memberwise
