import Memberwise.Command.Options
import Mathlib.Data.List.Basic

/-!
# Proofs/Command/Wrappers — which wrapper flags take effect

A wrapper is added by a flag of its own, and one flag is meant for the wrappers known from the
start.  That flag takes away every wrapper there is when its turn comes, those added before it too,
so of a wrapper's flags only one with no such flag behind it takes effect (`IsHeeded`).

* `Argument.read_eq_wrapper_iff`, `Argument.read_eq_noDefaultWrappers_iff` — what the two flags look
  like;
* `Command.Options.isWrapper_apply` — what one argument does to a name, and so
* `Command.Options.isWrapper_foldl` — **the wrappers of an argument list**, by induction on it;
* `Command.Options.keepsWrappers_iff` — **every wrapper flag takes effect exactly if each name given
  is heeded**, and then the order of the arguments is no matter.
-/

namespace Memberwise.Command

/-- The argument that adds a wrapper. -/
def wrapperFlag (name : String) : String := "--wrapper=" ++ name

/-- The argument that takes wrappers away. -/
def clearingFlag : String := "--no-default-wrappers"

namespace Argument

/-! ## What the flags look like -/

variable {s flag name value word : String} {make : String → Argument} {a : Argument}

/-- An argument is a flag with a value exactly if it is written so. -/
theorem value?_eq_some_iff : value? flag s = some value ↔ s = flag ++ "=" ++ value := by
  simp only [value?, Option.map_eq_some_iff, List.isPrefixOf?_eq_some_iff_append_eq]
  constructor
  · rintro ⟨rest, hrest, rfl⟩
    rw [← String.toList_inj, ← hrest, String.toList_append (s := flag ++ "="),
      String.toList_ofList]
  · rintro rfl
    exact ⟨value.toList, String.toList_append.symm, String.ofList_toList⟩

theorem named_eq_ok_iff : named flag make name = .ok a ↔ name ≠ "" ∧ a = make name := by
  unfold named
  split
  case isTrue h => simp [String.isEmpty_iff.mp h]
  case isFalse h => simp [String.isEmpty_iff.not.mp h, eq_comm]

theorem exists_of_emitMode (h : emitMode word = .ok a) : ∃ mode, a = .emit mode := by
  unfold emitMode at h
  split at h <;> cases h <;> exact ⟨_, rfl⟩

theorem exists_of_colorMode (h : colorMode word = .ok a) : ∃ mode, a = .color mode := by
  unfold colorMode at h
  split at h <;> cases h <;> exact ⟨_, rfl⟩

/-- What an argument is read as comes from its value, from the table of flags without one, or is a
file. -/
theorem read_cases (h : read s = .ok a) :
    (∃ f ∈ valueFlags, ∃ value, s = f.1 ++ "=" ++ value ∧ f.2 value = .ok a)
      ∨ (s, a) ∈ plainFlags ∨ a = .file s := by
  unfold read at h
  split at h
  case h_1 result hresult =>
    obtain ⟨f, hf, hmap⟩ := List.exists_of_findSome?_eq_some hresult
    obtain ⟨value, hvalue, rfl⟩ := Option.map_eq_some_iff.mp hmap
    exact .inl ⟨f, hf, value, value?_eq_some_iff.mp hvalue, h⟩
  case h_2 =>
    split at h
    case h_1 b hb =>
      obtain rfl := Except.ok.inj h
      obtain ⟨before, after, hflags, -⟩ := List.lookup_eq_some_iff.mp hb
      exact .inr (.inl (by rw [hflags]; simp))
    case h_2 =>
      split at h
      · cases h
      · exact .inr (.inr (Except.ok.inj h).symm)

theorem read_wrapperFlag (name : String) :
    read (wrapperFlag name) = named "--wrapper" .wrapper name := by
  have hvalue : valueFlags.findSome? (fun f => (value? f.1 (wrapperFlag name)).map f.2)
      = some (named "--wrapper" .wrapper name) := by
    simp [valueFlags, value?, wrapperFlag, List.isPrefixOf?]
  rw [read, hvalue]

theorem eq_wrapper_of_read (h : read (wrapperFlag name) = .ok a) : a = .wrapper name := by
  rw [read_wrapperFlag] at h
  exact (named_eq_ok_iff.mp h).2

/-- Of the flags with a value only one is about wrappers, and it adds the wrapper it names. -/
theorem valueFlag_cases {f : String × (String → Except OptionError Argument)} (hf : f ∈ valueFlags)
    (h : f.2 value = .ok a) : (f.1 ++ "=" ++ value = wrapperFlag value ∧ value ≠ "" ∧ a = .wrapper value)
      ∨ (∀ name, a ≠ .wrapper name) ∧ a ≠ .noDefaultWrappers := by
  simp only [valueFlags, List.mem_cons, List.not_mem_nil, or_false] at hf
  rcases hf with rfl | rfl | rfl | rfl | rfl | rfl
  · obtain ⟨mode, rfl⟩ := exists_of_emitMode h
    exact .inr ⟨nofun, nofun⟩
  · obtain ⟨mode, rfl⟩ := exists_of_colorMode h
    exact .inr ⟨nofun, nofun⟩
  · obtain ⟨hne, rfl⟩ := named_eq_ok_iff.mp h
    exact .inl ⟨rfl, hne, rfl⟩
  all_goals
    obtain ⟨-, rfl⟩ := named_eq_ok_iff.mp h
    exact .inr ⟨nofun, nofun⟩

/-- **A wrapper is added by its flag and by nothing else.** -/
theorem read_eq_wrapper_iff :
    read s = .ok (.wrapper name) ↔ s = wrapperFlag name ∧ name ≠ "" := by
  constructor
  · intro h
    rcases read_cases h with ⟨f, hf, value, rfl, hvalue⟩ | hplain | hfile
    · rcases valueFlag_cases hf hvalue with ⟨hflag, hne, hname⟩ | ⟨hnone, -⟩
      · obtain rfl := Argument.wrapper.inj hname
        exact ⟨hflag, hne⟩
      · exact absurd rfl (hnone name)
    · simp [plainFlags] at hplain
    · cases hfile
  · rintro ⟨rfl, hne⟩
    rw [read_wrapperFlag]
    exact named_eq_ok_iff.mpr ⟨hne, rfl⟩

/-- **Wrappers are taken away by one flag.** -/
theorem read_eq_noDefaultWrappers_iff : read s = .ok .noDefaultWrappers ↔ s = clearingFlag := by
  constructor
  · intro h
    rcases read_cases h with ⟨f, hf, value, rfl, hvalue⟩ | hplain | hfile
    · rcases valueFlag_cases hf hvalue with ⟨-, -, hname⟩ | ⟨-, hnone⟩
      · cases hname
      · exact absurd rfl hnone
    · simpa [plainFlags, clearingFlag] using hplain
    · cases hfile
  · rintro rfl
    rfl

end Argument

namespace Options

open Argument

variable {o : Options} {s name : String} {arguments files : List String} {a : Argument}
  {as : List Argument}

/-! ## One argument, and all of them -/

/-- **What one argument does to a name**: its own flag adds it, and the clearing flag takes it
away. -/
theorem isWrapper_apply (h : read s = .ok a) :
    (o.apply a).rules.isWrapper name = true ↔
      s = wrapperFlag name ∨ o.rules.isWrapper name = true ∧ s ≠ clearingFlag := by
  have hgiven : s = wrapperFlag name → a = .wrapper name := by
    rintro rfl
    exact eq_wrapper_of_read h
  have hclear : s = clearingFlag ↔ a = .noDefaultWrappers := by
    rw [← read_eq_noDefaultWrappers_iff, h, Except.ok.injEq]
  cases a with
  | wrapper other =>
    obtain ⟨rfl, -⟩ := read_eq_wrapper_iff.mp h
    have hname : wrapperFlag other = wrapperFlag name ↔ name = other := by
      simp [wrapperFlag, eq_comm]
    simp [apply, hclear, hname, or_comm]
  | noDefaultWrappers => simp [apply, hclear, mt hgiven]
  | _ => simp [apply, ExclusionRules.isWrapper, hclear, mt hgiven]

/-- Whether a name is given by a flag with no clearing flag behind it. -/
def IsHeeded (arguments : List String) (name : String) : Prop :=
  ∃ before after, arguments = before ++ wrapperFlag name :: after ∧ clearingFlag ∉ after

theorem isHeeded_cons : IsHeeded (s :: arguments) name ↔
    s = wrapperFlag name ∧ clearingFlag ∉ arguments ∨ IsHeeded arguments name := by
  constructor
  · rintro ⟨before, after, heq, hafter⟩
    cases before with
    | nil =>
      obtain ⟨rfl, rfl⟩ := List.cons.inj heq
      exact .inl ⟨rfl, hafter⟩
    | cons b before =>
      obtain ⟨-, rfl⟩ := List.cons.inj heq
      exact .inr ⟨before, after, rfl, hafter⟩
  · rintro (⟨rfl, hclear⟩ | ⟨before, after, rfl, hafter⟩)
    · exact ⟨[], arguments, rfl, hclear⟩
    · exact ⟨s :: before, after, rfl, hafter⟩

theorem IsHeeded.mem (h : IsHeeded arguments name) : wrapperFlag name ∈ arguments := by
  obtain ⟨before, after, rfl, -⟩ := h
  simp

theorem isHeeded_of_not_mem (h : wrapperFlag name ∈ arguments) (hclear : clearingFlag ∉ arguments) :
    IsHeeded arguments name := by
  obtain ⟨before, after, rfl⟩ := List.append_of_mem h
  exact ⟨before, after, rfl, fun hmem => hclear (by simp [hmem])⟩

/-- **The wrappers after an argument list**: the names heeded, and those there were if nothing took
them away. -/
theorem isWrapper_foldl (h : readAll arguments = .ok as) :
    (as.foldl apply o).rules.isWrapper name = true ↔
      IsHeeded arguments name ∨ o.rules.isWrapper name = true ∧ clearingFlag ∉ arguments := by
  induction arguments generalizing o as with
  | nil =>
    obtain rfl := Except.ok.inj h
    simp [IsHeeded]
  | cons s arguments ih =>
    rw [readAll] at h
    cases hs : read s with
    | error e => simp [hs] at h
    | ok a =>
      cases has : readAll arguments with
      | error e => simp [hs, has, Except.map] at h
      | ok later =>
        simp only [hs, has, Except.map, Except.ok.injEq] at h
        subst h
        rw [List.foldl_cons, ih has, isWrapper_apply hs, isHeeded_cons, List.mem_cons]
        grind

/-! ## What is promised -/

/-- Whether every wrapper flag takes effect, wherever it stands: the wrappers are the names given,
and those known from the start unless these were not wanted. -/
def KeepsWrappers (o : Options) (arguments : List String) : Prop :=
  ∀ name, o.rules.isWrapper name = true ↔
    wrapperFlag name ∈ arguments
      ∨ name ∈ ExclusionRules.standardWrappers ∧ clearingFlag ∉ arguments

theorem isWrapper_ofArguments (h : ofArguments arguments = .ok (o, files)) :
    o.rules.isWrapper name = true ↔
      IsHeeded arguments name
        ∨ name ∈ ExclusionRules.standardWrappers ∧ clearingFlag ∉ arguments := by
  unfold ofArguments at h
  cases has : readAll arguments with
  | error e => simp [has, Except.map] at h
  | ok as =>
    simp only [has, Except.map, Except.ok.injEq, Prod.mk.injEq] at h
    obtain ⟨rfl, -⟩ := h
    rw [isWrapper_foldl has]
    simp [standard, ExclusionRules.isWrapper, ExclusionRules.standard]

/-- **Every wrapper flag takes effect exactly if each name given is heeded.**  The wrappers of an
argument list are the names heeded and, if nothing took them away, those known from the start; so a
flag is lost exactly if a clearing flag stands behind it and behind every other flag of its name.
In all orders of the arguments that lose no name the wrappers are the same. -/
theorem keepsWrappers_iff (h : ofArguments arguments = .ok (o, files)) :
    (∀ name, o.rules.isWrapper name = true ↔
        IsHeeded arguments name
          ∨ name ∈ ExclusionRules.standardWrappers ∧ clearingFlag ∉ arguments)
      ∧ (o.KeepsWrappers arguments ↔
        ∀ name, wrapperFlag name ∈ arguments → IsHeeded arguments name)
      ∧ ∀ arguments' o' files', ofArguments arguments' = .ok (o', files') →
        arguments'.Perm arguments →
        (∀ name, wrapperFlag name ∈ arguments →
          IsHeeded arguments name ∧ IsHeeded arguments' name) →
        ∀ name, o'.rules.isWrapper name = o.rules.isWrapper name := by
  have hexact (name : String) : o.rules.isWrapper name = true ↔
      IsHeeded arguments name
        ∨ name ∈ ExclusionRules.standardWrappers ∧ clearingFlag ∉ arguments :=
    isWrapper_ofArguments h
  refine ⟨hexact, ⟨fun hkeeps name hname => ?_, fun hheeded name => ?_⟩, ?_⟩
  · rcases (hexact name).mp ((hkeeps name).mpr (.inl hname)) with hn | ⟨-, hclear⟩
    · exact hn
    · exact isHeeded_of_not_mem hname hclear
  · rw [hexact name]
    exact or_congr_left ⟨IsHeeded.mem, hheeded name⟩
  · intro arguments' o' files' h' hperm hheeded name
    have hsame : IsHeeded arguments' name ↔ IsHeeded arguments name :=
      ⟨fun hn => (hheeded name (hperm.mem_iff.mp hn.mem)).1, fun hn => (hheeded name hn.mem).2⟩
    rw [Bool.eq_iff_iff, isWrapper_ofArguments h', isWrapper_ofArguments h, hsame, hperm.mem_iff]

/-- A wrapper given before the clearing flag is lost. -/
theorem keepsWrappers_iff_cleared :
    ofArguments ["--wrapper=Published", "--no-default-wrappers", "a.swift"]
        = .ok ({ standard with rules := standard.rules.clearWrappers }, ["a.swift"])
      ∧ ¬ KeepsWrappers { standard with rules := standard.rules.clearWrappers }
        ["--wrapper=Published", "--no-default-wrappers", "a.swift"] := by
  have h : ofArguments ["--wrapper=Published", "--no-default-wrappers", "a.swift"]
      = .ok ({ standard with rules := standard.rules.clearWrappers }, ["a.swift"]) := by rfl
  refine ⟨h, fun hkeeps => ?_⟩
  obtain ⟨hexact, hiff, -⟩ := keepsWrappers_iff h
  have hheeded := hiff.mp hkeeps "Published" (by decide)
  exact absurd ((hexact "Published").mpr (.inl hheeded)) (by decide)

end Options

end Memberwise.Command
