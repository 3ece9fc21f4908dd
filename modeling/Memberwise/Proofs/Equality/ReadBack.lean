import Memberwise.Expansion.OfSource
import Memberwise.Proofs.Declaration.ReadBlock

/-!
# Proofs/Equality/ReadBack — a printed extension reads back

What is printed for an extension is one extension with one function in it.  The function is read by
stepping over what stands in brackets, so all that matters of its parameters and of its body is that
they hold no bracket of their own (`IsBalanced`).

* `Comparison.readBackFault?_eq` — **an extension reads back exactly if its type is no reserved
  word**.
-/

namespace Memberwise

open Text Token Cursor
open Memberwise.Parser

variable {A B C X Y G : List Piece} {p q : Piece} {k : TokenKind}

/-! ## Groups -/

/-- Pieces that close every group opened among them, and no other: at any depth, the end of the group
they stand in is looked for behind them. -/
def IsBalanced (ps : List Piece) : Prop :=
  ∀ (depth : Nat) (ts us : List Token), ts.map (·.kind) = kinds ps →
    groupLength? depth (ts ++ us) = (groupLength? depth us).map (· + ts.length)

/-- Pieces without a bracket among them are balanced. -/
theorem isBalanced_of_all {ps : List Piece}
    (h : (kinds ps).all (fun k => !k.isOpen && !k.isClose) = true) : IsBalanced ps := by
  intro depth ts us hts
  rw [← hts] at h
  clear hts
  induction ts with
  | nil => simp
  | cons t ts ih =>
    rw [List.map_cons, List.all_cons, Bool.and_eq_true, Bool.and_eq_true, Bool.not_eq_true',
      Bool.not_eq_true'] at h
    have hlater := ih h.2
    simp [groupLength?, h.1.1, h.1.2, hlater, Function.comp_def, Nat.add_assoc]

theorem isBalanced_append {ps qs : List Piece} (hp : IsBalanced ps) (hq : IsBalanced qs) :
    IsBalanced (ps ++ qs) := by
  intro depth ts us hts
  rw [kinds_append] at hts
  obtain ⟨ts, ts', rfl, hts, hts'⟩ := List.map_eq_append_iff.mp hts
  rw [List.append_assoc, hp depth ts _ hts, hq depth ts' _ hts', Option.map_map]
  congr 1
  funext n
  rw [Function.comp_apply, List.length_append]
  omega

/-- A group of balanced pieces is balanced. -/
theorem isBalanced_group {k' : TokenKind} (hG : IsBalanced G) (hp : p.lexeme = .token k)
    (ho : k.isOpen = true) (hq : q.lexeme = .token k') (ho' : k'.isOpen = false)
    (hc' : k'.isClose = true) : IsBalanced (p :: (G ++ [q])) := by
  intro depth ts us hts
  rw [kinds_token hp, kinds_append, kinds_token hq, kinds_nil] at hts
  obtain ⟨t, rest, rfl, rfl, hrest⟩ := List.map_eq_cons_iff.mp hts
  obtain ⟨gs, us', rfl, hgs, hlast⟩ := List.map_eq_append_iff.mp hrest
  obtain ⟨u, none, rfl, rfl, hnone⟩ := List.map_eq_cons_iff.mp hlast
  obtain rfl := List.map_eq_nil_iff.mp hnone
  have hinner := hG (depth + 1) gs (u :: us) hgs
  have hclose : groupLength? (depth + 1) (u :: us) = (groupLength? depth us).map (· + 1) := by
    rw [groupLength?, ho', hc']
    rfl
  have hopen : groupLength? depth (t :: (gs ++ u :: us))
      = (groupLength? (depth + 1) (gs ++ u :: us)).map (· + 1) := by simp [groupLength?, ho]
  rw [List.cons_append, List.append_assoc, List.singleton_append, hopen, hinner, hclose,
    Option.map_map, Option.map_map]
  congr 1
  funext n
  simp only [Function.comp_apply, List.length_cons, List.length_append, List.length_nil]
  omega

theorem groupLength?_amid (hG : IsBalanced G) (hq : q.lexeme = .token k) (ho : k.isOpen = false)
    (hc : k.isClose = true) (A B : List Piece) :
    groupLength? 0 (amid A (G ++ q :: B)).rest = some ((kinds G).length + 1) := by
  have hrest : (amid A (G ++ q :: B)).rest
      = rowTokens (width A) G ++ (amid (A ++ G) (q :: B)).rest := by
    simp only [amid, rowTokens_append]
    rw [width_append, width]
    rfl
  have hlen : (rowTokens (width A) G).length = (kinds G).length := by
    rw [← map_kind_rowTokens (width A), List.length_map]
  rw [hrest, rest_amid hq, hG 0 _ _ (map_kind_rowTokens _ _), groupLength?, hlen]
  simp [ho, hc, Nat.add_comm]

/-- The brackets of a group are passed with what stands between them. -/
theorem skip_group (hp : p.lexeme = .token k) {k' : TokenKind} (hq : q.lexeme = .token k')
    (A B : List Piece) : (amid A (p :: (G ++ q :: B))).skip ((kinds G).length + 1 + 1)
      = amid (A ++ p :: (G ++ [q])) B := by
  rw [Nat.add_comm, ← Cursor.skip_skip, skip_amid hp, ← Cursor.skip_skip, skip_row, skip_amid hq]
  simp

namespace Parser

/-- **A group of balanced pieces is stepped over.** -/
theorem reads_group (hG : IsBalanced G) (hp : p.lexeme = .token k) {k' : TokenKind}
    (hq : q.lexeme = .token k') (ho : k'.isOpen = false) (hc : k'.isClose = true)
    (A B : List Piece) : ∃ r, Reads group A (p :: (G ++ [q])) B r := by
  have hlength := groupLength?_amid hG hq ho hc (A ++ [p]) B
  rw [← skip_amid hp] at hlength
  have hskip := skip_group (G := G) hp hq A B
  have hrow : p :: (G ++ [q]) ++ B = p :: (G ++ q :: B) := by simp
  have hgroup : group (amid A (p :: (G ++ [q]) ++ B)) = ⟨.ok ((amid A (p :: (G ++ q :: B))).span,
      ((amid A (p :: (G ++ q :: B))).ahead ((kinds G).length + 1)).span),
      1 + ((kinds G).length + 1)⟩ := by rw [group, hrow, hlength]
  refine ⟨_, _, hgroup, ?_⟩
  rw [hrow, Nat.add_comm 1, hskip]

/-! ## Signatures -/

theorem reads_stretch_stop {stride : Cursor → Stride} (h : stride (amid A B) = .stop) :
    Reads (stretch stride) A [] B () :=
  .of_none (stretch_of_stop h)

theorem reads_stretch_pass {stride : Cursor → Stride} (hp : p.lexeme = .token k)
    (h : stride (amid A (p :: (X ++ B))) = .pass 0)
    (hX : Reads (stretch stride) (A ++ [p]) X B ()) : Reads (stretch stride) A (p :: X) B () := by
  obtain ⟨n, hs, hn⟩ := hX
  have hskip := skip_amid hp A (X ++ B)
  refine ⟨1 + n, ?_, ?_⟩
  · rw [List.cons_append, stretch_of_pass (by simp [rest_amid hp]) h, Nat.zero_add, hskip, hs]
    rfl
  · rw [List.cons_append, ← Cursor.skip_skip, hskip, hn]
    simp

theorem reads_stretch_group {stride : Cursor → Stride} (hp : p.lexeme = .token k) (hG : IsBalanced G)
    {k' : TokenKind} (hq : q.lexeme = .token k') (ho : k'.isOpen = false) (hc : k'.isClose = true)
    (h : stride (amid A (p :: (G ++ q :: (X ++ B)))) = .group)
    (hX : Reads (stretch stride) (A ++ p :: (G ++ [q])) X B ()) :
    Reads (stretch stride) A (p :: (G ++ q :: X)) B () := by
  obtain ⟨r, m, hgroup, hm⟩ := reads_group hG hp hq ho hc A (X ++ B)
  obtain ⟨n, hs, hn⟩ := hX
  have hrow : p :: (G ++ [q]) ++ (X ++ B) = p :: (G ++ q :: X) ++ B := by simp
  have hrow' : p :: (G ++ q :: X) ++ B = p :: (G ++ q :: (X ++ B)) := by simp
  rw [hrow] at hgroup hm
  refine ⟨m + n, ?_, ?_⟩
  · rw [stretch_of_group (by simp [rest_amid hp]) (by rw [hrow', h]) hgroup, hm, hs]
    rfl
  · rw [← Cursor.skip_skip, hm, hn]
    simp

/-- The pieces between a function's parameters and its body. -/
def resultRow : List Piece := [space 0, pair '-' '>', space 0, bare "Bool", space 0]

/-- **A signature and a body are stepped over** where the pieces between their brackets are balanced. -/
theorem reads_signatureAndBody {P : List Piece} (hP : IsBalanced P) (hG : IsBalanced G)
    (A B : List Piece) : Reads signatureAndBody A
      (mark '(' :: (P ++ mark ')' :: resultRow) ++ mark '\x7b' :: (G ++ [mark '\x7d'])) B () := by
  refine Reads.bind (a := ()) ?_ (.here_bind ?_)
  · refine reads_stretch_group (p := mark '(') (q := mark ')') rfl hP rfl rfl rfl ?_ ?_
    · rw [signatureStride, kind_amid_eq, nextKind_mark]
      rfl
    refine .blank_cons rfl (reads_stretch_pass (p := pair '-' '>') rfl ?_ ?_)
    · rw [signatureStride, kind_amid_eq, nextKind_pair]
      rfl
    refine .blank_cons rfl (reads_stretch_pass (p := bare "Bool") rfl ?_ ?_)
    · rw [signatureStride, kind_amid_eq, nextKind_bare]
      rfl
    refine .blank_cons rfl (reads_stretch_stop ?_)
    rw [signatureStride, kind_amid_eq, List.cons_append, nextKind_mark]
    rfl
  · rw [if_pos (by simp +decide [kind_amid_eq])]
    obtain ⟨r, hr⟩ := reads_group (p := mark '\x7b') (q := mark '\x7d') hG rfl rfl rfl rfl
      (A ++ (mark '(' :: (P ++ mark ')' :: resultRow))) B
    exact hr.map fun _ => ()

/-- An operator is read as the name of a function. -/
theorem reads_functionName_equal (hB : nextKind B = .leftParen) (A : List Piece) :
    Reads functionName A [pair '=' '='] B "==" := by
  have hp : (pair '=' '=').lexeme = .token .equalEqual := rfl
  have hlength : operatorLength none (amid A (pair '=' '=' :: B)).rest = 1 := by
    obtain ⟨t, ts, hr, hk⟩ := exists_rest (B := B) (by simp [hB]) (A ++ [pair '=' '='])
    rw [rest_amid hp, hr, operatorLength, if_pos ⟨rfl, rfl⟩, operatorLength, if_neg]
    rintro ⟨ho, -⟩
    rw [hk, hB] at ho
    cases ho
  have htext : (amid A ([pair '=' '='] ++ B)).textBetween (amid A ([pair '=' '='] ++ B)).span
      ((amid A ([pair '=' '='] ++ B)).ahead 0).span = ['=', '='] := by
    change Cursor.textBetween _ _ (amid A ([pair '=' '='] ++ B)).span = _
    rw [Cursor.textBetween, Span.merge_self, ← Cursor.currentText, List.singleton_append,
      currentText_amid hp, text_pair]
    decide
  refine .here_bind ?_
  rw [if_neg (by rw [List.singleton_append, kind_amid hp]; decide), List.singleton_append, hlength]
  refine ⟨1, ?_, skip_amid hp A B⟩
  rw [List.singleton_append] at htext ⊢
  change (take 1 >>= fun _ => Pure.pure _) _ = _
  rw [htext]
  have htake : take 1 (amid A (pair '=' '=' :: B)) = ⟨.ok (), 1⟩ := by
    rw [take, rest_amid hp]
    simp
  rw [bind_of_ok htake]
  rfl

/-- **A function of an operator is read by its name alone.** -/
theorem reads_function {P : List Piece} (hP : IsBalanced P) (hG : IsBalanced G) (A B : List Piece) :
    Reads (function .function) A ([bare "func", space 0, pair '=' '=']
      ++ (mark '(' :: (P ++ mark ')' :: resultRow) ++ mark '\x7b' :: (G ++ [mark '\x7d']))) B
      { Declaration.ofKind .function .none with name := some "==" } := by
  refine .inside _ (.here_bind ?_)
  refine (reads_next (p := bare "func") rfl A _).bind_piece ?_
  refine Reads.bind (X := [space 0, pair '=' '='])
    (.blank_cons rfl (reads_functionName_equal (by simp +decide) _)) ?_
  refine (reads_generics (by simp +decide) _).bind_none ?_
  exact (reads_signatureAndBody hP hG _ _).bind_last (.pure _ _ _)

end Parser

/-! ## Printed extensions -/

namespace Extension

/-- The pieces between the parentheses of the operator. -/
def parameterRow (type : String) : List Piece :=
  [bare "lhs", mark ':', space 0, nameOf type, mark ',', space 0, bare "rhs", mark ':', space 0,
    nameOf type]

/-- The pieces between the braces of the operator, around those of what it returns. -/
def innerRow (body : List Piece) : List Piece :=
  [mark '\n', space 7, bare "return", space 0] ++ (body ++ [mark '\n', space 3])

/-- The pieces of the operator, without what stands before `func`. -/
def functionRow (type : String) (body : List Piece) : List Piece :=
  [bare "func", space 0, pair '=' '='] ++ (mark '(' :: (parameterRow type ++ mark ')' :: resultRow)
    ++ mark '\x7b' :: (innerRow body ++ [mark '\x7d']))

/-- The pieces of the operator with its modifiers and the spaces before it. -/
def operatorRow (type : String) (access : Option Access) (body : List Piece) : List Piece :=
  space 3 :: (Comparison.accessRow access ++ [bare "static", space 0] ++ functionRow type body)

/-- The pieces of the header. -/
def headerRow (type : String) : List Piece :=
  [bare "extension", space 0, nameOf type] ++ (inheritanceRow ["Equatable"] ++ [space 0])

/-- The pieces of a printed extension: a header and a block with one function. -/
def row (type : String) (access : Option Access) (body : List Piece) : List Piece :=
  headerRow type
    ++ mark '\x7b' :: ([mark '\n'] ++ (operatorRow type access body ++ [mark '\n'])
      ++ [mark '\x7d'])

/-- The pieces are those of the printed extension. -/
theorem row_eq_printedRow (type : String) (access : Option Access) (body : List Piece) :
    row type access body = printedRow .newline type access body := by
  have hname : nameOf "Equatable" = bare "Equatable" := nameOf_of_not_isReserved (by decide)
  simp [row, printedRow, LineEnding.row, Comparison.signatureRow, headerRow, inheritanceRow,
    laterTypesRow, operatorRow, functionRow, parameterRow, innerRow, resultRow, hname]

theorem isBalanced_parameterRow (type : String) : IsBalanced (parameterRow type) :=
  isBalanced_of_all (by simp +decide [parameterRow])

theorem isBalanced_innerRow {body : List Piece} (h : IsBalanced body) :
    IsBalanced (innerRow body) :=
  isBalanced_append (isBalanced_of_all (by simp +decide))
    (isBalanced_append h (isBalanced_of_all (by simp +decide)))

/-- What is read of a printed extension: an extension of the type, spelled as it has to be, by
`Equatable`, with nothing but the operator in its block. -/
structure IsReadAs (e : Extension) (d : Declaration) : Prop where
  kind : d.kind = .extension
  name : d.name = some (escape e.extendedType)
  inherited : d.inherited = ["Equatable"]
  operator : ∃ m : Declaration, d.members = some [m] ∧ m.kind = .function ∧ m.name = some "=="
    ∧ m.isTypeScope = true ∧ m.access? = e.function.access

/-- **The operator is read as a function**, with its modifiers. -/
theorem exists_reads_operator {body : List Piece} (hbody : IsBalanced body) (type : String)
    (access : Option Access) (A B : List Piece) : ∃ m : Declaration,
      (m.kind = .function ∧ m.name = some "==" ∧ m.isTypeScope = true ∧ m.access? = access)
        ∧ Reads head A (operatorRow type access body) B (.complete m) := by
  have hfunc : nextKind (functionRow type body ++ B) = .funcKw := by
    rw [functionRow, List.append_assoc, List.cons_append, nextKind_bare]
    decide
  have hmods := reads_modifiers_access (A := A ++ [space 3]) access
    (X := [bare "static", space 0] ++ []) (B := functionRow type body ++ B)
    (by rw [List.append_nil, List.cons_append, nextKind_bare]; decide)
    (reads_modifiers_static (by simp [hfunc])
      (reads_modifiers_nil (B := functionRow type body ++ B) (by simp [hfunc]) _))
  rw [List.append_nil] at hmods
  have hat : nextKind (Comparison.accessRow access ++ [bare "static", space 0]
      ++ (functionRow type body ++ B)) ≠ .atSign := by
    rw [List.append_assoc, nextKind_accessRow, List.cons_append, nextKind_bare]
    split <;> decide
  refine ⟨_, ⟨rfl, rfl, ?_, ?_⟩, .blank_cons rfl (reads_head_function (X := [])
    (reads_attributes_nil hat _) (by simpa using hmods) hfunc
    (reads_function (isBalanced_parameterRow type) (isBalanced_innerRow hbody) _ B))⟩
  · simp [Declaration.isTypeScope, completed, staticModifier, Modifier.isTypeScope]
  · cases access <;> rfl

/-- **A printed extension is read as one extension with one function in it**, then what follows. -/
theorem exists_readsAll_row {e : Extension} {body sep Z : List Piece} {ds : List Declaration}
    (ht : isIdentifier e.extendedType = true) (hbody : IsBalanced body)
    (hsep : ∀ p ∈ sep, p = mark '\n') {A B : List Piece}
    (hlater : ReadsAll false (A ++ sep ++ row e.extendedType e.function.access body) Z B ds) :
    ∃ d : Declaration, e.IsReadAs d ∧ ReadsAll false A
      (sep ++ (row e.extendedType e.function.access body ++ Z)) B (d :: ds) := by
  have hnl : ∀ p ∈ [mark '\n'], p = mark '\n' := by simp
  obtain ⟨m, hm, hread⟩ := exists_reads_operator hbody e.extendedType e.function.access
    (A ++ sep ++ headerRow e.extendedType ++ [mark '\x7b'] ++ [mark '\n'])
    ([mark '\n'] ++ mark '\x7d' :: (Z ++ B))
  have hfirst : nextKind (operatorRow e.extendedType e.function.access body
      ++ ([mark '\n'] ++ mark '\x7d' :: (Z ++ B)))
        ∉ [.newline, .semicolon, .rightBrace, .endOfFile] := by
    rw [operatorRow, List.cons_append, nextKind_space, List.append_assoc, List.append_assoc,
      nextKind_accessRow, List.cons_append, nextKind_bare]
    split <;> decide
  have hkinds : kinds (operatorRow e.extendedType e.function.access body) ≠ [] := by
    simp [operatorRow, functionRow]
  have hinner : ReadsAll true _ _ _ _ := .complete hnl hfirst hread hkinds
    (.done_of_brace hnl (by simp +decide))
  have hhead := reads_head_type (A := A ++ sep) (X := []) (Y := [])
    (Z := headerRow e.extendedType)
    (B := mark '\x7b' :: ([mark '\n'] ++ (operatorRow e.extendedType e.function.access body
      ++ [mark '\n']) ++ mark '\x7d' :: (Z ++ B)))
    (reads_attributes_nil (by simp +decide [headerRow]) _)
    (reads_modifiers_nil (by simp +decide [headerRow]) _)
    (opening?_extension _ _) (reads_extensionHeader ht (by simp +decide) (by simp +decide))
  have hblock : ReadsAll false _ _ _ _ := .block (A := A) (X := headerRow e.extendedType) (Z := Z)
    (B := B) hsep (by simp +decide [headerRow]) hhead hinner (by simpa [row] using hlater)
  have hrow : sep ++ (row e.extendedType e.function.access body ++ Z)
      = sep ++ (headerRow e.extendedType ++ mark '\x7b' :: ([mark '\n']
        ++ (operatorRow e.extendedType e.function.access body ++ [mark '\n'])
          ++ mark '\x7d' :: Z)) := by simp [row]
  rw [hrow]
  exact ⟨_, ⟨rfl, rfl, rfl, m, rfl, hm⟩, hblock⟩

theorem isSound_printedRow (type : String) (access : Option Access) {body : List Piece}
    (hbody : body.all (·.lexeme.isSound) = true) :
    ∀ p ∈ printedRow .newline type access body, p.lexeme.isSound = true := by
  have haccess : (Comparison.accessRow access).all (·.lexeme.isSound) = true := by
    cases access <;> simp [Comparison.accessRow]
  have hall : (printedRow .newline type access body).all (·.lexeme.isSound) = true := by
    simp [printedRow, Comparison.signatureRow, LineEnding.row, List.all_append, hbody, haccess,
      -List.all_eq_true]
  exact List.all_eq_true.mp hall

end Extension

/-! ## Printed expressions -/

/-- **A printed expression is balanced.** -/
theorem Expr.isBalanced_row (e : Expr) : IsBalanced e.row := by
  have henclose : ∀ (needed : Bool) {ps : List Piece}, IsBalanced ps →
      IsBalanced (encloseRow needed ps) := by
    intro needed ps h
    cases needed with
    | false => exact h
    | true => exact isBalanced_group h (p := mark '(') (q := mark ')') rfl rfl rfl rfl rfl
  induction e with
  | field => exact isBalanced_of_all (by simp +decide [row])
  | binary op l r ihl ihr =>
    have hop : IsBalanced [space 0, op.piece, space 0] := by
      cases op <;> exact isBalanced_of_all (by simp +decide)
    exact isBalanced_append (isBalanced_append (henclose _ ihl) hop) (henclose _ ihr)

namespace Comparison

variable {c : Comparison}

/-- **The extension that compares some fields reads back.** -/
theorem exists_readsAll_row (h : c.IsProper) :
    ∃ d : Declaration, c.extension.IsReadAs d ∧ ReadsAll false [] (c.row .newline) [] [d] := by
  have hnone : ∀ p ∈ ([] : List Piece), p = mark '\n' := by simp
  obtain ⟨d, hd, hread⟩ := Extension.exists_readsAll_row (e := c.extension) (A := []) (B := [])
    h.type (row_body c ▸ c.body.isBalanced_row) hnone (.done_of_end hnone)
  refine ⟨d, hd, ?_⟩
  rw [row, ← Extension.row_eq_printedRow]
  rwa [List.nil_append, List.append_nil] at hread

theorem isSound_row (c : Comparison) : ∀ p ∈ c.row .newline, p.lexeme.isSound = true :=
  Extension.isSound_printedRow c.type c.access (row_body c ▸ c.body.isSound_row)

/-- A reserved word is written otherwise than it is. -/
theorem escape_eq_iff {name : String} : escape name = name ↔ isReserved name = false := by
  rw [escape]
  cases isReserved name with
  | false => simp
  | true =>
    refine ⟨fun h => ?_, fun h => by cases h⟩
    have hlen := congrArg (fun s : String => s.toList.length) h
    simp only [if_true, String.toList_ofList, List.length_append, List.length_cons,
      List.length_nil] at hlen
    omega

/-- **An extension reads back exactly if its type is no reserved word**, and else it still reads, as
the extension of another name. -/
theorem readBackFault?_eq (h : c.IsProper) : c.extension.readBackFault?
    = if isReserved c.type then some .unexpectedShape else none := by
  obtain ⟨d, ⟨hk, hn, -, m, hblock, hm, -⟩, hread⟩ := exists_readsAll_row h
  have htext : c.extension.render.toList = (c.row .newline).flatMap Piece.text := by
    rw [Extension.render, toList_layOut, chars_fragments]
  obtain ⟨hlex, hfile⟩ := ofSource_of_row htext (isRow h .newline []) c.isSound_row hread
  have htype : c.extension.extendedType = c.type := rfl
  have hshape : Extension.isShapeOf c.extension.extendedType [d] = !isReserved c.type := by
    rw [Bool.eq_iff_iff, Bool.not_eq_true', ← escape_eq_iff]
    simp [Extension.isShapeOf, hk, hn, hblock, hm, htype]
  rw [Extension.readBackFault?]
  simp only [hlex, hfile, hshape]
  cases isReserved c.type <;> rfl

end Comparison

end Memberwise
