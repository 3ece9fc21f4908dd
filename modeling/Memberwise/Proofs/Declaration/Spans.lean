import Memberwise.Declaration.SourceFile

/-!
# Proofs/Declaration/Spans — the same declarations elsewhere

What is read of a source carries the spans it was read from.  `mapSpans` puts it elsewhere, span by
span, and changes nothing else:

* moved by some bytes, it is what is read of the same text further on in another source;
* with no span left (`unplaced`), it is what was read, no matter where.

**Moving changes only the place** (`unplaced_mapSpans`).
-/

namespace Memberwise

/-- The span `n` bytes further on. -/
def Span.move (n : Nat) (s : Span) : Span := ⟨s.start + n, s.stop + n⟩

theorem Span.move_zero : Span.move 0 = id := rfl

@[simp] theorem Span.move_merge (n : Nat) (s t : Span) :
    (s.merge t).move n = (s.move n).merge (t.move n) := by
  simp only [move, merge, Span.mk.injEq]
  omega

@[simp] theorem Span.touches_move (n : Nat) (s t : Span) :
    (s.move n).touches (t.move n) = s.touches t := by
  rw [touches, touches, Bool.eq_iff_iff]
  simp [move]

/-- What is read of a source, and can be put elsewhere. -/
class Spanned (α : Type) where
  /-- Change every span. -/
  mapSpans : (Span → Span) → α → α
  mapSpans_id (a : α) : mapSpans id a = a
  mapSpans_mapSpans (f g : Span → Span) (a : α) :
    mapSpans g (mapSpans f a) = mapSpans (fun s => g (f s)) a

export Spanned (mapSpans)

attribute [simp] Spanned.mapSpans_id Spanned.mapSpans_mapSpans

/-! ## What has spans -/

namespace Spanned

section Containers

variable {α β : Type} [Spanned α] [Spanned β]

instance : Spanned Span := ⟨fun f s => f s, fun _ => rfl, fun _ _ _ => rfl⟩

instance : Spanned (α × β) where
  mapSpans f p := (mapSpans f p.1, mapSpans f p.2)
  mapSpans_id p := by simp
  mapSpans_mapSpans f g p := by simp

instance : Spanned (List α) where
  mapSpans f as := as.map (mapSpans f)
  mapSpans_id as := by
    rw [show (mapSpans id : α → α) = id from funext Spanned.mapSpans_id, List.map_id]
  mapSpans_mapSpans f g as := by simp [List.map_map, Function.comp_def]

instance : Spanned (Option α) where
  mapSpans f a := a.map (mapSpans f)
  mapSpans_id a := by cases a <;> simp
  mapSpans_mapSpans f g a := by cases a <;> simp

end Containers

/-- What has no spans at all. -/
@[reducible]
def plain (α : Type) : Spanned α := ⟨fun _ a => a, fun _ => rfl, fun _ _ _ => rfl⟩

instance : Spanned Unit := plain _
instance : Spanned Bool := plain _
instance : Spanned String := plain _
instance : Spanned (Option String) := plain _
instance : Spanned (List String) := plain _
instance : Spanned Pattern := plain _
instance : Spanned (List Pattern) := plain _

instance : Spanned Token where
  mapSpans f t := ⟨t.kind, f t.span⟩
  mapSpans_id _ := rfl
  mapSpans_mapSpans _ _ _ := rfl

instance : Spanned ParseFault where
  mapSpans f
    | .unclosedGroup kind opened => .unclosedGroup kind (f opened)
    | .unclosedBlock opened => .unclosedBlock (f opened)
    | fault => fault
  mapSpans_id fault := by cases fault <;> rfl
  mapSpans_mapSpans _ _ fault := by cases fault <;> rfl

instance : Spanned ParseError where
  mapSpans f e := ⟨mapSpans f e.fault, f e.span, e.construct⟩
  mapSpans_id e := by simp
  mapSpans_mapSpans f g e := by simp

instance : Spanned Attribute where
  mapSpans f a := { a with span := f a.span }
  mapSpans_id _ := rfl
  mapSpans_mapSpans _ _ _ := rfl

instance : Spanned Modifier where
  mapSpans f m := { m with span := f m.span }
  mapSpans_id _ := rfl
  mapSpans_mapSpans _ _ _ := rfl

instance : Spanned Binding where
  mapSpans f b := { b with span := f b.span }
  mapSpans_id _ := rfl
  mapSpans_mapSpans _ _ _ := rfl

instance : Spanned DeclarationKind where
  mapSpans f
    | .property p => .property { p with bindings := mapSpans f p.bindings }
    | kind => kind
  mapSpans_id kind := by cases kind <;> simp
  mapSpans_mapSpans f g kind := by cases kind <;> simp

end Spanned

/-! ## Declarations -/

mutual

/-- Change the spans of a declaration and of all inside it. -/
def Declaration.mapSpans (f : Span → Span) : Declaration → Declaration
  | ⟨kind, name, attributes, modifiers, inherited, members, span⟩ =>
    ⟨Spanned.mapSpans f kind, name, Spanned.mapSpans f attributes, Spanned.mapSpans f modifiers,
      inherited, mapSpansBlock f members, f span⟩

/-- Change the spans in a block, if there is one. -/
def Declaration.mapSpansBlock (f : Span → Span) : Option (List Declaration) → Option (List Declaration)
  | none => none
  | some ds => some (mapSpansAll f ds)

/-- Change the spans of declarations and of all inside them. -/
def Declaration.mapSpansAll (f : Span → Span) : List Declaration → List Declaration
  | [] => []
  | d :: ds => d.mapSpans f :: mapSpansAll f ds

end

namespace Declaration

mutual

theorem mapSpans_id : ∀ d : Declaration, d.mapSpans id = d
  | ⟨kind, name, attributes, modifiers, inherited, members, span⟩ => by
    simp [mapSpans, mapSpansBlock_id members]

theorem mapSpansBlock_id : ∀ ds : Option (List Declaration), mapSpansBlock id ds = ds
  | none => rfl
  | some ds => by rw [mapSpansBlock, mapSpansAll_id ds]

theorem mapSpansAll_id : ∀ ds : List Declaration, mapSpansAll id ds = ds
  | [] => rfl
  | d :: ds => by rw [mapSpansAll, mapSpans_id d, mapSpansAll_id ds]

end

section Twice

variable (f g : Span → Span)

mutual

theorem mapSpans_mapSpans :
    ∀ d : Declaration, (d.mapSpans f).mapSpans g = d.mapSpans fun s => g (f s)
  | ⟨kind, name, attributes, modifiers, inherited, members, span⟩ => by
    simp [mapSpans, mapSpansBlock_mapSpansBlock members]

theorem mapSpansBlock_mapSpansBlock : ∀ ds : Option (List Declaration),
    mapSpansBlock g (mapSpansBlock f ds) = mapSpansBlock (fun s => g (f s)) ds
  | none => rfl
  | some ds => by rw [mapSpansBlock, mapSpansBlock, mapSpansAll_mapSpansAll ds, mapSpansBlock]

theorem mapSpansAll_mapSpansAll : ∀ ds : List Declaration,
    mapSpansAll g (mapSpansAll f ds) = mapSpansAll (fun s => g (f s)) ds
  | [] => rfl
  | d :: ds => by
    rw [mapSpansAll, mapSpansAll, mapSpans_mapSpans d, mapSpansAll_mapSpansAll ds, mapSpansAll]

end

end Twice

theorem mapSpansAll_eq_map (f : Span → Span) (ds : List Declaration) :
    mapSpansAll f ds = ds.map (mapSpans f) := by
  induction ds with
  | nil => rfl
  | cons d ds ih => rw [mapSpansAll, ih, List.map_cons]

end Declaration

instance : Spanned Declaration where
  mapSpans := Declaration.mapSpans
  mapSpans_id := Declaration.mapSpans_id
  mapSpans_mapSpans := Declaration.mapSpans_mapSpans

instance : Spanned Head where
  mapSpans f
    | .directive => .directive
    | .complete d => .complete (mapSpans f d)
    | .type d => .type (mapSpans f d)
  mapSpans_id h := by cases h <;> simp
  mapSpans_mapSpans f g h := by cases h <;> simp

instance : Spanned Parsed where
  mapSpans f p := ⟨mapSpans f p.declarations, mapSpans f p.errors, p.taken⟩
  mapSpans_id p := by simp
  mapSpans_mapSpans f g p := by simp

section Outcomes

variable {α : Type} [Spanned α]

instance : Spanned (Except ParseError α) where
  mapSpans f
    | .ok a => .ok (mapSpans f a)
    | .error e => .error (mapSpans f e)
  mapSpans_id r := by cases r <;> simp
  mapSpans_mapSpans f g r := by cases r <;> simp

instance : Spanned (Outcome α) where
  mapSpans f o := ⟨mapSpans f o.result, o.taken⟩
  mapSpans_id o := by simp
  mapSpans_mapSpans f g o := by simp

theorem Outcome.mapSpans_ok (f : Span → Span) (a : α) (n : Nat) :
    mapSpans f (⟨.ok a, n⟩ : Outcome α) = ⟨.ok (mapSpans f a), n⟩ := rfl

theorem Outcome.mapSpans_after (f : Span → Span) (o : Outcome α) (n : Nat) :
    mapSpans f (o.after n) = (mapSpans f o).after n := rfl

theorem Outcome.mapSpans_cons (f : Span → Span) (a : α) (o : Outcome (List α)) :
    mapSpans f (o.map (a :: ·)) = (mapSpans f o).map (mapSpans f a :: ·) := by
  cases o with
  | mk result n => cases result <;> rfl

@[simp] theorem Outcome.taken_mapSpans (f : Span → Span) (o : Outcome α) :
    (mapSpans f o).taken = o.taken := rfl

end Outcomes

/-- What was read, no matter where. -/
def unplaced {α : Type} [Spanned α] (a : α) : α := mapSpans (fun _ => .none) a

/-- **Moving changes only the place.** -/
@[simp] theorem unplaced_mapSpans {α : Type} [Spanned α] (f : Span → Span) (a : α) :
    unplaced (mapSpans f a) = unplaced a := by
  rw [unplaced, Spanned.mapSpans_mapSpans, unplaced]

end Memberwise
