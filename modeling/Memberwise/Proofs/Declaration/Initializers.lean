import Memberwise.Proofs.Declaration.Findings

/-!
# Proofs/Declaration/Initializers — the places reading comes to inside initializers

Reading declarations passes initializers without reading them, token by token, deciding at each one
whether the initializer goes on (`Strides`).  `InDeclarations` says to which places it comes so: in
the initializers of a property (`InBindings`), of the declarations after it and of those in a block.
-/

namespace Memberwise

open Text

/-- A stretch from the cursor comes to decide about the token `p` places ahead. -/
inductive Strides (stride : Cursor → Stride) : Cursor → Nat → Prop
  | here (c : Cursor) : Strides stride c 0
  | pass {c : Cursor} {m p : Nat} (hr : c.rest ≠ []) (hs : stride c = .pass m)
      (later : Strides stride (c.skip (m + 1)) p) : Strides stride c (m + 1 + p)
  | group {c : Cursor} {t : Token} {ts : List Token} {m p : Nat} (hr : c.rest = t :: ts)
      (hs : stride c = .group) (hm : groupLength? 0 ts = some m)
      (later : Strides stride (c.skip (m + 1)) p) : Strides stride c (m + 1 + p)

/-- The initializer of the binding at the cursor begins so many places ahead. -/
inductive HasInitializer (c : Cursor) : Nat → Prop
  | mk {pattern : Pattern} {type : Option String} {m l : Nat}
      (hp : Parser.pattern c = ⟨.ok pattern, m⟩)
      (ht : Parser.bindingType? (c.skip m) = ⟨.ok type, l⟩)
      (hk : (c.skip (m + l)).kind = .equal) : HasInitializer c (m + l + 1)

/-- Reading bindings from the cursor comes, inside the initializer of one, to decide about the token
`p` places ahead. -/
inductive InBindings : Cursor → Nat → Prop
  | own {c : Cursor} {i p : Nat} (h : HasInitializer c i)
      (hs : Strides Cursor.initializerStride (c.skip i) p) : InBindings c (i + p)
  | further {c : Cursor} {b : Binding} {m l p : Nat} (hb : Parser.binding c = ⟨.ok b, m⟩)
      (hk : (c.skip m).kind = .comma) (hl : (c.skip (m + 1)).newlines = l)
      (later : InBindings (c.skip (m + 1 + l)) p) : InBindings c (m + 1 + l + p)

/-- Reading declarations from the cursor comes, inside the initializer of a property, to decide about
the token `p` places ahead. -/
inductive InDeclarations : Bool → Cursor → Nat → Prop
  | property {inBlock : Bool} {c : Cursor} {as : List Attribute} {ms : List Modifier} {k l p : Nat}
      (hk : (c.skip c.separators).kind ≠ .rightBrace)
      (ha : Parser.attributes (c.skip c.separators) = ⟨.ok as, k⟩)
      (hm : Parser.modifiers (c.skip (c.separators + k)) = ⟨.ok ms, l⟩)
      (ho : (c.skip (c.separators + k + l)).opening? = some .property)
      (h : InBindings (c.skip (c.separators + k + l + 1)) p) :
      InDeclarations inBlock c (c.separators + k + l + 1 + p)
  | block {inBlock : Bool} {c : Cursor} {d : Declaration} {m p : Nat}
      (hk : (c.skip c.separators).kind ≠ .rightBrace)
      (hh : Parser.head (c.skip c.separators) = ⟨.ok (.type d), m⟩)
      (hb : (c.skip (c.separators + m)).kind = .leftBrace)
      (h : InDeclarations true (c.skip (c.separators + m + 1)) p) :
      InDeclarations inBlock c (c.separators + m + 1 + p)
  | later {inBlock : Bool} {c : Cursor} {m p : Nat} (he : ¬(c.skip c.separators).Ends inBlock)
      (hm : (finding inBlock (c.skip c.separators)).taken = m)
      (h : InDeclarations inBlock (c.skip (c.separators + m)) p) :
      InDeclarations inBlock c (c.separators + m + p)

variable {c : Cursor} {p : Nat} {inBlock : Bool}

theorem Shows.add {k m : Nat} {ts : List Token} (h : Shows k 0 (ts.drop m)) : Shows (m + k) m ts := by
  obtain ⟨i, -, hi, ht⟩ := h
  refine ⟨m + i, Nat.le_add_right m i, Nat.add_lt_add_left hi m, fun t h => ht t ?_⟩
  rwa [List.getElem?_drop]

/-- On the way to a place inside an initializer there is a token that ends no line. -/
theorem InDeclarations.shows (h : InDeclarations inBlock c p) : Shows p 0 c.rest := by
  induction h with
  | @property inBlock c as ms k l p hk ha hm ho h =>
    refine (Parser.shows_of_kind (m := c.separators + k + l) ?_ (by omega)).of_le (Nat.zero_le _)
    rcases Cursor.kind_of_opening?_property ho with hk | hk <;> rw [hk] <;> decide
  | @block inBlock c d m p hk hh hb h ih =>
    exact (Parser.shows_of_kind (m := c.separators + m) (by rw [hb]; decide) (by omega)).of_le
      (Nat.zero_le _)
  | later he hm h ih => exact ih.add.of_le (Nat.zero_le _)

end Memberwise
