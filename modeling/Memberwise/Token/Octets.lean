import Memberwise.Token.Quoted

/-!
# Token/Octets — a string literal read octet by octet

Where a literal ends can be found on the octets of a text, without reading its characters.  The scan
of a literal and that of an interpolation go through octets by an index, and hand what stands behind
the opening of a nested construct to one another as a slice; how far the slice was scanned is where
the index goes on.

Octets are looked at one at a time, so an index may come to stand inside a character.  An index or
the start of a slice may also be past the end of the octets: then the scan has no result.
-/

namespace Memberwise.Token.Octets

/-- The octets of a text in UTF-8. -/
def encode (text : List Char) : List UInt8 := text.flatMap String.utf8EncodeChar

/-- The octets from an index on, which must not be past their end. -/
def slice? (s : List UInt8) (i : Nat) : Option (List UInt8) :=
  if i ≤ s.length then some (s.drop i) else none

/-- The number of number signs in front. -/
def signs (s : List UInt8) : Nat := (s.takeWhile (· == '#'.toUInt8)).length

/-- The octets that close a literal. -/
def closing (hashes : Nat) (lines : Bool) : List UInt8 :=
  (Token.closing hashes lines).map Char.toUInt8

/-- Whether a literal goes over several lines: two more quotes follow the one that opens it. -/
def overLines (s : List UInt8) : Bool := ['"'.toUInt8, '"'.toUInt8].isPrefixOf s

/-- The octets that open a literal, behind its first quote. -/
def furtherQuotes (lines : Bool) : List UInt8 :=
  if lines then ['"'.toUInt8, '"'.toUInt8] else []

theorem length_slice? {s r : List UInt8} {i : Nat} (h : slice? s i = some r) :
    r.length = s.length - i := by
  unfold slice? at h
  split at h
  · rw [← Option.some.inj h, List.length_drop]
  · cases h

/-- What to do at an octet of a literal. -/
inductive QuoteMove where
  /-- The literal closes here. -/
  | close
  /-- The literal may not cross the line end here. -/
  | stop
  /-- Go on behind the octet and `n` more. -/
  | skip (n : Nat)
  /-- Behind the octet and `n` more an interpolation begins. -/
  | enter (n : Nat)

/-- What to do at an octet of a literal opened with `hashes` number signs; no answer if an index is
out of bounds. -/
def quoteMove? (hashes : Nat) (lines : Bool) (s : List UInt8) (i : Nat) : Option QuoteMove :=
  match slice? s i, s[i]? with
  | some here, some octet =>
    if (closing hashes lines).isPrefixOf here then some .close
    else if octet = '\n'.toUInt8 ∧ lines = false then some .stop
    else if octet = '\\'.toUInt8 then
      (slice? s (i + 1)).map fun later =>
        if hashes ≤ signs later then
          if s[i + 1 + hashes]? = some '('.toUInt8 then .enter (hashes + 1) else .skip (hashes + 1)
        else .skip 0
    else some (.skip 0)
  | _, _ => none

/-- What to do at an octet of an interpolation. -/
inductive BracketMove where
  /-- A bracket opens. -/
  | «open»
  /-- The innermost bracket closes. -/
  | close
  /-- The interpolation may not cross the line end here. -/
  | stop
  /-- Go on behind the octet and `n` more. -/
  | skip (n : Nat)
  /-- Behind the octet and `n` more begins a literal, opened with `n` number signs. -/
  | enter (n : Nat)

/-- What to do at an octet of an interpolation; no answer if an index is out of bounds. -/
def bracketMove? (lines : Bool) (s : List UInt8) (i : Nat) : Option BracketMove :=
  s[i]?.bind fun octet =>
    if octet = '('.toUInt8 then some .open
    else if octet = ')'.toUInt8 then some .close
    else if octet = '\n'.toUInt8 ∧ lines = false then some .stop
    else if octet = '"'.toUInt8 ∨ octet = '#'.toUInt8 then
      (slice? s i).map fun here =>
        if s[i + signs here]? = some '"'.toUInt8 then .enter (signs here)
        else .skip (signs here - 1)
    else some (.skip 0)

mutual

/-- The extent of a literal behind its opening number signs and one quote. -/
def scanLiteral? (hashes : Nat) (s : List UInt8) : Option Extent :=
  let opened := (furtherQuotes (overLines s)).length
  match _h : slice? s opened with
  | none => none
  | some r => (scanLiteralFrom? hashes (overLines s) r 0).map (·.after opened)
termination_by 2 * s.length + 1
decreasing_by grind [length_slice?]

/-- The extent of a literal that is scanned up to an index. -/
def scanLiteralFrom? (hashes : Nat) (lines : Bool) (s : List UInt8) (i : Nat) : Option Extent :=
  if i < s.length then
    match quoteMove? hashes lines s i with
    | none => none
    | some .close => some ⟨i + (closing hashes lines).length, true⟩
    | some .stop => some ⟨i, false⟩
    | some (.skip n) => scanLiteralFrom? hashes lines s (i + n + 1)
    | some (.enter n) =>
      match _h : slice? s (i + n + 1) with
      | none => none
      | some r =>
        match scanInterpolation? lines r with
        | none => none
        | some e =>
          if e.closed then scanLiteralFrom? hashes lines s (i + n + 1 + e.length)
          else some ⟨i + n + 1 + e.length, false⟩
  else some ⟨s.length, false⟩
termination_by 2 * (s.length - i)
decreasing_by all_goals grind [length_slice?]

/-- The extent of an interpolation behind its opening bracket. -/
def scanInterpolation? (lines : Bool) (s : List UInt8) : Option Extent :=
  scanInterpolationFrom? lines s 0 0
termination_by 2 * s.length + 1

/-- The extent of an interpolation that is scanned up to an index, with `depth` brackets open inside
its own. -/
def scanInterpolationFrom? (lines : Bool) (s : List UInt8) (depth i : Nat) : Option Extent :=
  if i < s.length then
    match bracketMove? lines s i with
    | none => none
    | some .open => scanInterpolationFrom? lines s (depth + 1) (i + 1)
    | some .close =>
      match depth with
      | 0 => some ⟨i + 1, true⟩
      | depth + 1 => scanInterpolationFrom? lines s depth (i + 1)
    | some .stop => some ⟨i, false⟩
    | some (.skip n) => scanInterpolationFrom? lines s depth (i + n + 1)
    | some (.enter n) =>
      match _h : slice? s (i + n + 1) with
      | none => none
      | some r =>
        match scanLiteral? n r with
        | none => none
        | some e =>
          if e.closed then scanInterpolationFrom? lines s depth (i + n + 1 + e.length)
          else some ⟨i + n + 1 + e.length, false⟩
  else some ⟨s.length, false⟩
termination_by 2 * (s.length - i)
decreasing_by all_goals grind [length_slice?]

end

end Memberwise.Token.Octets
