import Obts.Metadata

/-!
# Stable JSON of rename pairs

The text by which two lists of rename pairs are compared. A quoted string ends where its quote
ends, so the text of a string, of a pair and of a list each determine what they were made from.
-/
namespace StableJson

open Metadata List

def doubleQuote : Char := '\x22'

def backslash : Char := '\x5c'

def hexDigit (n : Nat) : Char := if n < 10 then Char.ofNat (48 + n) else Char.ofNat (87 + n)

def hexValue (c : Char) : Nat := if c.toNat < 58 then c.toNat - 48 else c.toNat - 87

/-- The letters that stand for control characters with a short escape. -/
def shortEscapes : List (Char × Char) :=
  [(doubleQuote, doubleQuote), (backslash, backslash), ('\x08', 'b'), ('\x0c', 'f'), ('\n', 'n'),
    ('\r', 'r'), ('\t', 't')]

/-- A character as a JSON string shows it. -/
def escapeChar (c : Char) : List Char :=
  match shortEscapes.find? fun e => e.1 = c with
  | some e => [backslash, e.2]
  | none =>
    if c.toNat < 32 then
      [backslash, 'u', '0', '0', hexDigit (c.toNat / 16), hexDigit (c.toNat % 16)]
    else [c]

/-- A string as JSON, followed by the rest of the text. -/
def quoted (text : String) (rest : List Char) : List Char :=
  doubleQuote :: text.toList.flatMap escapeChar ++ doubleQuote :: rest

/-- A pair with its two keys in order. -/
def pairText (pair : RenamePair) (rest : List Char) : List Char :=
  '{' :: quoted "destination_path" (':' :: quoted pair.destinationPath
    (',' :: quoted "source_path" (':' :: quoted pair.sourcePath ('}' :: rest))))

/-- The rest of an array after an element. -/
def moreText : List RenamePair → List Char
  | [] => [']']
  | pair :: pairs => ',' :: pairText pair (moreText pairs)

def arrayText : List RenamePair → List Char
  | [] => ['[', ']']
  | pair :: pairs => '[' :: pairText pair (moreText pairs)

def stableJson : Option (List RenamePair) → String
  | none => "null"
  | some pairs => String.ofList (arrayText pairs)

/-- The first character of an escaped text, and what follows it. -/
def unescape : List Char → Option (Char × List Char)
  | [] => none
  | c :: rest =>
    if c ≠ backslash then some (c, rest)
    else
      match rest with
      | 'u' :: _ :: _ :: high :: low :: rest =>
        some (Char.ofNat (16 * hexValue high + hexValue low), rest)
      | letter :: rest => (shortEscapes.find? fun e => e.2 = letter).map fun e => (e.1, rest)
      | [] => none

lemma hexValue_hexDigit : ∀ n < 16, hexValue (hexDigit n) = n := by decide

lemma unescape_escapeChar (c : Char) (rest : List Char) : unescape (escapeChar c ++ rest) = some (c, rest) := by
  unfold escapeChar
  cases hshort : shortEscapes.find? fun e => e.1 = c with
  | some e =>
    have hkey : e.1 = c := by simpa using find?_some hshort
    have hmem := mem_of_find?_eq_some hshort
    subst hkey
    simp only [shortEscapes, mem_cons, not_mem_nil, or_false] at hmem
    rcases hmem with rfl | rfl | rfl | rfl | rfl | rfl | rfl <;> rfl
  | none =>
    have hne : c ≠ backslash := by
      rintro rfl
      exact absurd hshort (by decide)
    dsimp only
    split
    · rename_i hctl
      have hhigh : hexValue (hexDigit (c.toNat / 16)) = c.toNat / 16 :=
        hexValue_hexDigit _ (by omega)
      have hlow : hexValue (hexDigit (c.toNat % 16)) = c.toNat % 16 :=
        hexValue_hexDigit _ (by omega)
      have hsum : 16 * (c.toNat / 16) + c.toNat % 16 = c.toNat := by omega
      have hread : unescape ([backslash, 'u', '0', '0', hexDigit (c.toNat / 16),
          hexDigit (c.toNat % 16)] ++ rest) = some (Char.ofNat (16 *
            hexValue (hexDigit (c.toNat / 16)) + hexValue (hexDigit (c.toNat % 16))), rest) := rfl
      rw [hread, hhigh, hlow, hsum, Char.ofNat_toNat]
    · simp [unescape, hne]

variable {x y : List Char}

lemma escapeChar_append_inj {c d : Char} (h : escapeChar c ++ x = escapeChar d ++ y) : c = d ∧ x = y := by
  have hread := congrArg unescape h
  rw [unescape_escapeChar, unescape_escapeChar] at hread
  exact Prod.mk.inj (Option.some.inj hread)

/-- No escaped character begins with the quote that ends a string. -/
lemma escapeChar_append_ne (c : Char) (x y : List Char) : escapeChar c ++ x ≠ doubleQuote :: y := by
  intro h
  have hread := unescape_escapeChar c x
  rw [h] at hread
  have hquote : c = doubleQuote := (Prod.mk.inj (Option.some.inj hread)).1.symm
  subst hquote
  have hhead : some backslash = some doubleQuote := congrArg head? h
  exact absurd hhead (by decide)

lemma escaped_inj {s t : List Char}
    (h : s.flatMap escapeChar ++ doubleQuote :: x = t.flatMap escapeChar ++ doubleQuote :: y) : s = t ∧ x = y := by
  induction s generalizing t with
  | nil =>
    cases t with
    | nil => exact ⟨rfl, (cons.inj h).2⟩
    | cons d t =>
      rw [flatMap_cons, append_assoc] at h
      exact absurd h.symm (escapeChar_append_ne d _ _)
  | cons c s ih =>
    cases t with
    | nil =>
      rw [flatMap_cons, append_assoc] at h
      exact absurd h (escapeChar_append_ne c _ _)
    | cons d t =>
      rw [flatMap_cons, flatMap_cons, append_assoc, append_assoc] at h
      obtain ⟨rfl, hrest⟩ := escapeChar_append_inj h
      obtain ⟨rfl, rfl⟩ := ih hrest
      exact ⟨rfl, rfl⟩

lemma quoted_inj {s t : String} (h : quoted s x = quoted t y) : s = t ∧ x = y := by
  obtain ⟨hchars, hrest⟩ := escaped_inj (cons.inj h).2
  exact ⟨String.toList_inj.mp hchars, hrest⟩

lemma pairText_inj {p q : RenamePair} (h : pairText p x = pairText q y) : p = q ∧ x = y := by
  obtain ⟨-, hdst⟩ := quoted_inj (cons.inj h).2
  obtain ⟨hd, hsrc⟩ := quoted_inj (cons.inj hdst).2
  obtain ⟨-, hvalue⟩ := quoted_inj (cons.inj hsrc).2
  obtain ⟨hs, hend⟩ := quoted_inj (cons.inj hvalue).2
  refine ⟨?_, (cons.inj hend).2⟩
  cases p
  cases q
  simp_all

lemma moreText_inj {ps qs : List RenamePair} (h : moreText ps = moreText qs) : ps = qs := by
  induction ps generalizing qs with
  | nil =>
    cases qs with
    | nil => rfl
    | cons q qs => exact absurd (cons.inj h).1 (by decide)
  | cons p ps ih =>
    cases qs with
    | nil => exact absurd (cons.inj h).1 (by decide)
    | cons q qs =>
      obtain ⟨rfl, hrest⟩ := pairText_inj (cons.inj h).2
      rw [ih hrest]

lemma arrayText_inj {ps qs : List RenamePair} (h : arrayText ps = arrayText qs) : ps = qs := by
  cases ps with
  | nil =>
    cases qs with
    | nil => rfl
    | cons q qs => exact absurd (cons.inj (cons.inj h).2).1 (by decide)
  | cons p ps =>
    cases qs with
    | nil => exact absurd (cons.inj (cons.inj h).2).1 (by decide)
    | cons q qs =>
      obtain ⟨rfl, hrest⟩ := pairText_inj (cons.inj h).2
      rw [moreText_inj hrest]

/-- Different rename pairs have different texts. -/
lemma stableJson_injective : Function.Injective stableJson := by
  have hnull : ∀ pairs, stableJson none ≠ stableJson (some pairs) := by
    intro pairs h
    have hchars : "null".toList = arrayText pairs :=
      (congrArg String.toList h).trans String.toList_ofList
    have hhead : (arrayText pairs).head? = some '[' := by
      cases pairs <;> rfl
    rw [← hchars] at hhead
    exact absurd hhead (by decide)
  intro ps qs h
  cases ps with
  | none =>
    cases qs with
    | none => rfl
    | some qs => exact absurd h (hnull qs)
  | some ps =>
    cases qs with
    | none => exact absurd h.symm (hnull ps)
    | some qs =>
      have hchars := congrArg String.toList h
      rw [stableJson, stableJson, String.toList_ofList, String.toList_ofList] at hchars
      rw [arrayText_inj hchars]

end StableJson
