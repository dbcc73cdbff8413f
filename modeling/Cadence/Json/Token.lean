/-
  JSON TOKENS — the words of a JSON text.

  The text is cut from left to right: blanks of four kinds are skipped, a structural character is a
  token of its own, and a text, a number or a literal word takes as much as belongs to it.  Control
  characters inside a text, escapes of half a surrogate pair, numbers with a leading zero or without
  a digit where one is due, and numbers with a whole part of more than 4300 characters are refused.
  The words for the undefined number and for infinity are accepted as numbers.
-/
import Cadence.Json.Basic
import Cadence.Number.Reading

namespace Cadence.Json

open Text

/-- A word of a JSON text. -/
inductive Token where
  /-- An opening bracket. -/
  | openArray
  /-- A closing bracket. -/
  | closeArray
  /-- An opening brace. -/
  | openObject
  /-- A closing brace. -/
  | closeObject
  /-- A colon. -/
  | colon
  /-- A comma. -/
  | comma
  /-- A text. -/
  | text (s : String)
  /-- A value that is one word. -/
  | atom (v : Json)
deriving Repr

/-! ## Texts -/

/-- The value of four hexadecimal digits at the front. -/
def fourHex? : List Char → Option (Nat × List Char)
  | a :: b :: c :: d :: rest =>
    if [a, b, c, d].all isHexDigit then some (hexDigitsValue [a, b, c, d], rest) else none
  | _ => none

/-- The letters that may follow a backslash, with what they stand for. -/
def shortEscapes : List (Char × Char) :=
  [('"', '"'), ('\\', '\\'), ('/', '/'), ('b', '\x08'), ('f', '\x0c'), ('n', '\n'), ('r', '\r'),
   ('t', '\t')]

/-- The character whose code is written after `\u`: one code, or a surrogate pair in two. -/
def unicodeEscape? (cs : List Char) : Option (Char × List Char) :=
  match fourHex? cs with
  | none => none
  | some (hi, rest) =>
    if hi < 0xD800 ∨ 0xE000 ≤ hi then some (Char.ofNat hi, rest)
    else if 0xDC00 ≤ hi then none
    else match rest with
      | '\\' :: 'u' :: more =>
        match fourHex? more with
        | some (lo, rest') =>
          if 0xDC00 ≤ lo ∧ lo < 0xE000 then
            some (Char.ofNat (0x10000 + (hi - 0xD800) * 0x400 + (lo - 0xDC00)), rest')
          else none
        | none => none
      | _ => none

theorem fourHex?_length {cs rest : List Char} {n : Nat} (h : fourHex? cs = some (n, rest)) :
    rest.length < cs.length := by
  unfold fourHex? at h
  split at h
  · split at h
    · simp only [Option.some.injEq, Prod.mk.injEq] at h
      obtain ⟨_, rfl⟩ := h
      simp only [List.length_cons]; omega
    · simp at h
  · simp at h

theorem unicodeEscape?_length {cs rest : List Char} {c : Char}
    (h : unicodeEscape? cs = some (c, rest)) : rest.length < cs.length := by
  unfold unicodeEscape? at h
  split at h
  · simp at h
  · next hi rest₁ h₁ =>
    have l₁ := fourHex?_length h₁
    split at h
    · simp only [Option.some.injEq, Prod.mk.injEq] at h
      obtain ⟨_, rfl⟩ := h
      exact l₁
    · split at h
      · simp at h
      · split at h
        · next more =>
          split at h
          · next lo rest₂ h₂ =>
            have l₂ := fourHex?_length h₂
            split at h
            · simp only [Option.some.injEq, Prod.mk.injEq] at h
              obtain ⟨_, rfl⟩ := h
              simp only [List.length_cons] at l₁; omega
            · simp at h
          · simp at h
        · simp at h

/-- The rest of a text up to its closing quote; what is read so far is given last first. -/
def readText (acc : List Char) (cs : List Char) : Option (String × List Char) :=
  match cs with
  | [] => none
  | '"' :: rest => some (String.ofList acc.reverse, rest)
  | '\\' :: 'u' :: rest =>
    match h : unicodeEscape? rest with
    | none => none
    | some (c, rest') =>
      have := unicodeEscape?_length h
      readText (c :: acc) rest'
  | '\\' :: e :: rest =>
    match shortEscapes.lookup e with
    | none => none
    | some c => readText (c :: acc) rest
  | c :: rest => if c = '\\' ∨ c.toNat < 0x20 then none else readText (c :: acc) rest
termination_by cs.length
decreasing_by all_goals simp only [List.length_cons]; omega

/-! ## Numbers -/

/-- The digits of a whole part: a zero alone, or digits that do not start with one. -/
def wholePart? (cs : List Char) : Option (List Char × List Char) :=
  match cs with
  | '0' :: rest => some (['0'], rest)
  | _ =>
    let ds := cs.takeWhile isDigit
    if ds.isEmpty then none else some (ds, cs.dropWhile isDigit)

/-- The digits after a point, if there is one; a point needs digits. -/
def fractionPart? (cs : List Char) : Option (Option (List Char) × List Char) :=
  match cs with
  | '.' :: rest =>
    let ds := rest.takeWhile isDigit
    if ds.isEmpty then none else some (some ds, rest.dropWhile isDigit)
  | _ => some (none, cs)

/-- The exponent, if there is one; a mark needs digits. -/
def exponentPart? (cs : List Char) : Option (Option Int × List Char) :=
  match cs with
  | c :: rest =>
    if c = 'e' ∨ c = 'E' then
      let (negative, more) := splitSign rest
      let ds := more.takeWhile isDigit
      if ds.isEmpty then none
      else some (some (Double.signed negative (digitsValue ds)), more.dropWhile isDigit)
    else some (none, cs)
  | [] => some (none, cs)

/-- Are a minus sign and the digits of a whole part together longer than is read? -/
def tooLong (negative : Bool) (ds : List Char) : Bool := digitLimit < ds.length + negative.toNat

/-- The number at the front. -/
def readNumber (cs : List Char) : Option (Json × List Char) :=
  let negative := cs.head? = some '-'
  let cs := if negative then cs.tail else cs
  if "Infinity".toList.isPrefixOf cs then
    some (.real (Double.withSign negative Double.infinityBits), cs.drop 8)
  else
    ((wholePart? cs).filter fun p => !tooLong negative p.1).bind fun (ds, rest) =>
    (fractionPart? rest).bind fun (fraction, rest) =>
    (exponentPart? rest).bind fun (exponent, rest) =>
      match fraction, exponent with
      | none, none => some (.int (Double.signed negative (digitsValue ds)), rest)
      | _, _ =>
        let after := fraction.getD []
        some (.real (scaled negative (digitsValue (ds ++ after)) (exponent.getD 0 - after.length)),
          rest)

/-! ## The words of a text -/

/-- The literal words. -/
def literals : List (List Char × Json) :=
  [("true".toList, .bool true), ("false".toList, .bool false), ("null".toList, .null),
   ("NaN".toList, .real (Double.withSign false Double.undefinedBits))]

/-- The structural characters. -/
def structural : List (Char × Token) :=
  [('[', .openArray), (']', .closeArray), ('\x7b', .openObject), ('\x7d', .closeObject),
   (':', .colon), (',', .comma)]

/-- The token at the front of a text that starts with no blank. -/
def readToken (cs : List Char) : Option (Token × List Char) :=
  match cs with
  | [] => none
  | c :: rest =>
    match structural.lookup c with
    | some t => some (t, rest)
    | none =>
      if c = '"' then (readText [] rest).map fun (s, r) => (.text s, r)
      else match literals.find? fun l => l.1.isPrefixOf cs with
        | some (w, v) => some (.atom v, cs.drop w.length)
        | none => (readNumber cs).map fun (v, r) => (.atom v, r)

/-- Is this character skipped between tokens? -/
def isSpace (c : Char) : Bool := c = ' ' || c = '\t' || c = '\n' || c = '\r'

/-- The tokens of a text.  Every token takes at least one character, so as many rounds as there are
characters reach the end. -/
def tokensIn : (rounds : Nat) → List Char → Option (List Token)
  | 0, _ => none
  | rounds + 1, cs =>
    match cs.dropWhile isSpace with
    | [] => some []
    | c :: rest =>
      (readToken (c :: rest)).bind fun (t, r) => (tokensIn rounds r).map (t :: ·)

/-- The tokens of a text, if it consists of tokens. -/
def tokens (s : String) : Option (List Token) := tokensIn (s.toList.length + 1) s.toList

end Cadence.Json
