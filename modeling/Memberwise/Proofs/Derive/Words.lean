import Memberwise.Derive.Item

/-!
# Proofs/Derive/Words — the words of an item are names

A word is **proper** if it is an identifier, perhaps behind the mark of a raw one.

* A token that is a word is proper (`isProper_of_readToken?`), and so is the word of the attribute
  that a documentation comment stands for.
* Bracketing puts every tree of the row into the result and adds none (`allProper_of_nest?`).

So every word in the trees of a text is proper, however deep it stands (`allProper_of_readTrees?`).
-/

namespace Memberwise.Derive

open Text

/-! ## Words -/

mutual

/-- The words of a tree, those in brackets included. -/
def TokenTree.words : TokenTree → List String
  | .word w _ => [w]
  | .group _ ts _ _ => allWords ts
  | .lifetime .. | .mark .. | .literal .. => []

/-- The words of a row of trees. -/
def allWords : List TokenTree → List String
  | [] => []
  | t :: ts => t.words ++ allWords ts

end

/-- Whether a word is an identifier, perhaps a raw one. -/
def IsProper (word : String) : Prop := isIdentifier (unraw word) = true

/-- Whether every word in a row of trees is an identifier, perhaps a raw one. -/
def AllProper (ts : List TokenTree) : Prop := ∀ w ∈ allWords ts, IsProper w

theorem allWords_eq_flatMap (ts : List TokenTree) : allWords ts = ts.flatMap TokenTree.words := by
  induction ts with
  | nil => rfl
  | cons t ts ih => rw [allWords, ih, List.flatMap_cons]

theorem allProper_iff {ts : List TokenTree} :
    AllProper ts ↔ ∀ t ∈ ts, ∀ w ∈ t.words, IsProper w := by
  simp only [AllProper, allWords_eq_flatMap, List.mem_flatMap]
  exact ⟨fun h t ht w hw => h w ⟨t, ht, hw⟩, fun h w ⟨t, ht, hw⟩ => h t ht w hw⟩

namespace AllProper

variable {ts us : List TokenTree} {t : TokenTree}

theorem nil : AllProper [] := allProper_iff.mpr (by simp)

theorem cons_iff : AllProper (t :: ts) ↔ (∀ w ∈ t.words, IsProper w) ∧ AllProper ts := by
  simp only [allProper_iff, List.forall_mem_cons]

theorem of_subset (h : AllProper ts) (hs : us ⊆ ts) : AllProper us :=
  allProper_iff.mpr fun t ht => allProper_iff.mp h t (hs ht)

theorem of_suffix (h : AllProper ts) (hs : us <:+ ts) : AllProper us := h.of_subset hs.subset

theorem reverse (h : AllProper ts) : AllProper ts.reverse :=
  h.of_subset fun _ => List.mem_reverse.mp

end AllProper

/-! ## Tokens -/

/-- Without its mark a raw name is what follows the mark. -/
theorem unraw_ofList_raw (s : List Char) :
    unraw (String.ofList ('r' :: '#' :: s)) = String.ofList s := by
  simp [unraw]

/-- A mark continues no name, so an identifier has none to lose. -/
theorem unraw_of_isIdentifier {name : String} (h : isIdentifier name = true) :
    unraw name = name := by
  unfold unraw
  split
  next s hs =>
    have hall := all_isXidContinue h
    rw [hs] at hall
    simp only [List.all_cons, Bool.and_eq_true] at hall
    exact absurd hall.2.1 (by decide)
  next => rfl

theorem upTo_append (word rest : List Char) : upTo (word ++ rest) rest = String.ofList word := by
  simp [upTo]

/-- A word of the text spells an identifier. -/
theorem exists_of_afterWord? {s rest : List Char} (h : afterWord? s = some rest) :
    ∃ word, isIdentifierText word = true ∧ s = word ++ rest := by
  cases s with
  | nil => cases h
  | cons c s =>
    rw [afterWord?] at h
    split at h
    case isTrue hc =>
      obtain rfl := Option.some.inj h
      refine ⟨c :: s.takeWhile isXidContinue, ?_, ?_⟩
      · rw [isIdentifierText, hc, List.all_takeWhile, Bool.true_and]
      · rw [List.cons_append, List.takeWhile_append_dropWhile]
    case isFalse => cases h

/-- An identifier of the text is proper, raw or not. -/
theorem isProper_of_afterIdentifier? {s rest : List Char} (h : afterIdentifier? s = some rest) :
    IsProper (upTo s rest) := by
  unfold afterIdentifier? at h
  split at h
  case h_1 s =>
    split at h
    case h_1 => cases h
    case h_2 left hw =>
      obtain ⟨word, hi, rfl⟩ := exists_of_afterWord? hw
      dsimp only at h
      split at h
      case isTrue => cases h
      case isFalse =>
        obtain rfl := Option.some.inj h
        rw [← List.cons_append, ← List.cons_append, upTo_append, IsProper, unraw_ofList_raw,
          isIdentifier, String.toList_ofList]
        exact hi
  case h_2 =>
    obtain ⟨word, hi, rfl⟩ := exists_of_afterWord? h
    have hi : isIdentifier (String.ofList word) = true := by
      rwa [isIdentifier, String.toList_ofList]
    rwa [upTo_append, IsProper, unraw_of_isIdentifier hi]

/-- A token of the text that is a word is proper. -/
theorem isProper_of_readToken? {start : Nat} {s rest : List Char} {t : TokenTree}
    (h : readToken? start s = some (t, rest)) : ∀ w ∈ t.words, IsProper w := by
  unfold readToken? at h
  split at h
  case h_1 =>
    obtain ⟨rfl, -⟩ := Prod.mk.inj (Option.some.inj h)
    simp [TokenTree.words]
  case h_2 =>
    split at h
    case isTrue =>
      split at h
      case h_1 => cases h
      case h_2 =>
        split at h
        · cases h
        · dsimp only at h
          split at h
          · cases h
          · obtain ⟨rfl, -⟩ := Prod.mk.inj (Option.some.inj h)
            simp [TokenTree.words]
      case h_3 =>
        obtain ⟨rfl, -⟩ := Prod.mk.inj (Option.some.inj h)
        simp [TokenTree.words]
    case isFalse =>
      split at h
      · cases h
      · obtain ⟨left, hleft, he⟩ := Option.map_eq_some_iff.mp h
        obtain ⟨rfl, -⟩ := Prod.mk.inj he
        simpa [TokenTree.words] using isProper_of_afterIdentifier? hleft

/-! ## Comments -/

theorem allProper_documentation (start : Nat) (inside : Bool) (text : List Char) :
    AllProper (documentation start inside text) := by
  have hdoc : IsProper "doc" := by unfold IsProper; decide
  cases inside <;> simp [documentation, AllProper, allWords, TokenTree.words, hdoc]

/-- The tokens that a comment stands for are proper. -/
theorem allProper_of_readComment? {start length : Nat} {s : List Char} {ts : List TokenTree}
    (h : readComment? start s = some (length, ts)) : AllProper ts := by
  unfold readComment? at h
  dsimp only at h
  repeat' split at h
  all_goals cases h <;> first
    | exact .nil
    | exact allProper_documentation _ _ _

/-! ## Rows of trees -/

/-- Whether the words of the trees among some parts are proper. -/
def PartsProper (ps : List Part) : Prop := ∀ t, .tree t ∈ ps → ∀ w ∈ t.words, IsProper w

namespace PartsProper

variable {ps qs : List Part} {t : TokenTree} {d : Delimiter} {n : Nat}

theorem nil : PartsProper [] := fun _ ht => absurd ht List.not_mem_nil

theorem append (hp : PartsProper ps) (hq : PartsProper qs) : PartsProper (ps ++ qs) :=
  fun t ht => (List.mem_append.mp ht).elim (hp t) (hq t)

theorem map_tree {ts : List TokenTree} (h : AllProper ts) : PartsProper (ts.map .tree) := by
  intro t ht
  obtain ⟨u, hu, he⟩ := List.mem_map.mp ht
  exact allProper_iff.mp h t (Part.tree.inj he ▸ hu)

theorem cons_tree_iff :
    PartsProper (.tree t :: ps) ↔ (∀ w ∈ t.words, IsProper w) ∧ PartsProper ps := by
  simp [PartsProper]

@[simp] theorem cons_opening_iff : PartsProper (.opening d n :: ps) ↔ PartsProper ps := by
  simp [PartsProper]

@[simp] theorem cons_closing_iff : PartsProper (.closing d n :: ps) ↔ PartsProper ps := by
  simp [PartsProper]

end PartsProper

/-- The words among the parts of a text are proper. -/
theorem partsProper_of_readParts? {start : Nat} {s : List Char} {ps : List Part}
    (h : readParts? start s = some ps) : PartsProper ps := by
  fun_induction readParts? start s generalizing ps
  -- Only a comment and a token add trees; brackets and separators add no words.
  case case1 => exact Option.some.inj h ▸ .nil
  case case2 ih => exact ih h
  case case3 => cases h
  case case4 hcomment ih =>
    obtain ⟨qs, hqs, rfl⟩ := Option.map_eq_some_iff.mp h
    exact .append (.map_tree (allProper_of_readComment? hcomment)) (ih hqs)
  case case5 ih | case6 ih | case7 ih =>
    obtain ⟨qs, hqs, rfl⟩ := Option.map_eq_some_iff.mp h
    exact PartsProper.cons_opening_iff.mpr (ih hqs)
  case case8 ih | case9 ih | case10 ih =>
    obtain ⟨qs, hqs, rfl⟩ := Option.map_eq_some_iff.mp h
    exact PartsProper.cons_closing_iff.mpr (ih hqs)
  case case11 htoken _ _ _ _ _ _ _ =>
    rw [htoken] at h
    cases h
  case case12 htoken hlength _ _ _ _ _ _ _ ih =>
    simp only [htoken, if_pos hlength] at h
    obtain ⟨qs, hqs, rfl⟩ := Option.map_eq_some_iff.mp h
    exact PartsProper.cons_tree_iff.mpr ⟨isProper_of_readToken? htoken, ih hqs⟩
  case case13 htoken hlength _ _ _ _ _ _ _ =>
    simp only [htoken, if_neg hlength] at h
    cases h

/-- Bracketing a row of proper trees gives proper trees. -/
theorem allProper_of_nest? {groups : List OpenGroup} {done ts : List TokenTree} {ps : List Part}
    (h : nest? groups done ps = some ts) (hg : ∀ g ∈ groups, AllProper g.before)
    (hd : AllProper done) (hp : PartsProper ps) : AllProper ts := by
  fun_induction nest? groups done ps with
  | case1 => exact Option.some.inj h ▸ hd.reverse
  | case2 => cases h
  | case3 _ _ _ _ _ ih =>
    exact ih h (List.forall_mem_cons.mpr ⟨hd, hg⟩) .nil (PartsProper.cons_opening_iff.mp hp)
  | case4 _ _ _ _ ih =>
    obtain ⟨ht, hp⟩ := PartsProper.cons_tree_iff.mp hp
    exact ih h hg (AllProper.cons_iff.mpr ⟨ht, hd⟩) hp
  | case5 => cases h
  | case6 _ _ _ _ _ ih =>
    obtain ⟨hb, hg⟩ := List.forall_mem_cons.mp hg
    exact ih h hg (AllProper.cons_iff.mpr ⟨hd.reverse, hb⟩) (PartsProper.cons_closing_iff.mp hp)
  | case7 => cases h

/-- **Every word in the trees of a text is proper.** -/
theorem allProper_of_readTrees? {s : List Char} {ts : List TokenTree} (h : readTrees? s = some ts) :
    AllProper ts := by
  obtain ⟨ps, hps, hts⟩ := Option.bind_eq_some_iff.mp h
  refine allProper_of_nest? hts (by simp) .nil ?_
  split at hps
  · exact partsProper_of_readParts? hps
  · exact partsProper_of_readParts? hps

end Memberwise.Derive
