import Mathlib.Data.List.Basic

/-!
# UTF-8

Texts as bytes, and bytes as the text that a decoder makes of them. The decoder reads byte after byte
and stands between characters, or within one with the range that its next byte must be in; what does
not belong to a character is replaced.
-/
namespace Utf8

open List

def encode (text : List Char) : List UInt8 := text.flatMap String.utf8EncodeChar

lemma encode_append (text text' : List Char) : encode (text ++ text') = encode text ++ encode text' :=
  flatMap_append

def replacement : Char := '\uFFFD'

inductive State where
  | start
  /-- Bytes still needed, the code point so far, and the range of the next byte. -/
  | within (needed codePoint lower upper : Nat)

/-- The first byte of a character. -/
def first (byte : Nat) : List Char × State :=
  if byte ≤ 0x7F then ([Char.ofNat byte], .start)
  else if 0xC2 ≤ byte ∧ byte ≤ 0xDF then ([], .within 1 (byte % 32) 0x80 0xBF)
  else if 0xE0 ≤ byte ∧ byte ≤ 0xEF then
    ([], .within 2 (byte % 16) (if byte = 0xE0 then 0xA0 else 0x80) (if byte = 0xED then 0x9F else 0xBF))
  else if 0xF0 ≤ byte ∧ byte ≤ 0xF4 then
    ([], .within 3 (byte % 8) (if byte = 0xF0 then 0x90 else 0x80) (if byte = 0xF4 then 0x8F else 0xBF))
  else ([replacement], .start)

def next : State → Nat → List Char × State
  | .start, byte => first byte
  | .within needed codePoint lower upper, byte =>
    if lower ≤ byte ∧ byte ≤ upper then
      let codePoint := codePoint * 64 + byte % 64
      if needed = 1 then ([Char.ofNat codePoint], .start)
      else ([], .within (needed - 1) codePoint 0x80 0xBF)
    else
      -- the byte is read again as the first one of a character
      let (text, state) := first byte
      (replacement :: text, state)

def decodeFrom : State → List UInt8 → List Char
  | .start, [] => []
  | .within .., [] => [replacement]
  | state, byte :: bytes =>
    let (text, state) := next state byte.toNat
    text ++ decodeFrom state bytes

def decode (bytes : List UInt8) : List Char := decodeFrom .start bytes

lemma decodeFrom_cons (state : State) (byte : UInt8) (bytes : List UInt8) : decodeFrom state (byte :: bytes)
      = (next state byte.toNat).1 ++ decodeFrom (next state byte.toNat).2 bytes := by
  cases state <;> rfl

variable {n codePoint lower upper byte : Nat} {text : List Char}

lemma toNat_ofNat (hn : n < 256) : (UInt8.ofNat n).toNat = n := by
  exact Nat.mod_eq_of_lt hn

/-- A byte within the range of a character that is not its last. -/
lemma next_middle {needed : Nat} (hneed : needed ≠ 1)
    (hrange : lower ≤ byte ∧ byte ≤ upper) : next (.within needed codePoint lower upper) byte
      = ([], .within (needed - 1) (codePoint * 64 + byte % 64) 0x80 0xBF) := by
  rw [next, if_pos hrange]
  exact if_neg hneed

lemma next_last (hrange : lower ≤ byte ∧ byte ≤ upper) : next (.within 1 codePoint lower upper) byte
      = ([Char.ofNat (codePoint * 64 + byte % 64)], .start) := by
  rw [next, if_pos hrange]
  rfl

/-- A code point is no surrogate and at most the last one. -/
lemma codePoint_range (ch : Char) : ch.toNat < 0xD800 ∨ 0xDFFF < ch.toNat ∧ ch.toNat < 0x110000 := by
  have hvalid := ch.valid
  exact hvalid

/-- A byte after which the character goes on. -/
lemma decodeFrom_step {state state' : State} (hn : n < 256)
    (hnext : next state n = ([], state')) (bytes : List UInt8) :
    decodeFrom state (UInt8.ofNat n :: bytes) = decodeFrom state' bytes := by
  rw [decodeFrom_cons, toNat_ofNat hn, hnext]
  rfl

/-- The byte that ends a character. -/
lemma decodeFrom_last {v : Nat} (hrange : 0x80 ≤ n ∧ n ≤ 0xBF)
    (hvalue : codePoint * 64 + n % 64 = v) (hlast : lower ≤ n ∧ n ≤ upper)
    (bytes : List UInt8) : decodeFrom (.within 1 codePoint lower upper) (UInt8.ofNat n :: bytes)
      = Char.ofNat v :: decodeFrom .start bytes := by
  rw [decodeFrom_cons, toNat_ofNat (by omega), next_last hlast, hvalue]
  rfl

lemma next_start_two (hn : 0xC2 ≤ n ∧ n ≤ 0xDF) : next .start n = ([], .within 1 (n % 32) 0x80 0xBF) := by
  rw [next, first, if_neg (by omega), if_pos hn]

lemma next_start_three (hn : 0xE0 ≤ n ∧ n ≤ 0xEF) :
    next .start n = ([], .within 2 (n % 16) (if n = 0xE0 then 0xA0 else 0x80)
      (if n = 0xED then 0x9F else 0xBF)) := by
  rw [next, first, if_neg (by omega), if_neg (by omega), if_pos hn]

lemma next_start_four (hn : 0xF0 ≤ n ∧ n ≤ 0xF4) :
    next .start n = ([], .within 3 (n % 8) (if n = 0xF0 then 0x90 else 0x80)
      (if n = 0xF4 then 0x8F else 0xBF)) := by
  rw [next, first, if_neg (by omega), if_neg (by omega), if_neg (by omega), if_pos hn]

lemma decodeFrom_encodeChar (ch : Char) (bytes : List UInt8) :
    decodeFrom .start (String.utf8EncodeChar ch ++ bytes) = ch :: decodeFrom .start bytes := by
  have hrange := codePoint_range ch
  have hval : ch.val.toNat = ch.toNat := rfl
  have hch : Char.ofNat ch.toNat = ch := Char.ofNat_toNat ch
  simp only [String.utf8EncodeChar, hval]
  generalize ch.toNat = v at hrange hch
  subst hch
  split
  · rename_i hone
    rw [cons_append, decodeFrom_cons, toNat_ofNat (by omega), next, first, if_pos hone]
    rfl
  split
  · simp only [cons_append, nil_append]
    rw [decodeFrom_step (by omega) (next_start_two (by omega))]
    exact decodeFrom_last (by omega) (by omega) (by omega) bytes
  split
  · simp only [cons_append, nil_append]
    rw [decodeFrom_step (by omega) (next_start_three (by omega)),
      decodeFrom_step (by omega) (next_middle (by omega) (by split <;> split <;> omega))]
    exact decodeFrom_last (by omega) (by omega) (by omega) bytes
  simp only [cons_append, nil_append]
  rw [decodeFrom_step (by omega) (next_start_four (by omega)),
    decodeFrom_step (by omega) (next_middle (by omega) (by split <;> split <;> omega)),
    decodeFrom_step (by omega) (next_middle (by omega) (by omega))]
  exact decodeFrom_last (by omega) (by omega) (by omega) bytes

/-- A text is read as it was written. -/
lemma decode_encode (text : List Char) : decode (encode text) = text := by
  induction text with
  | nil => rfl
  | cons ch text ih =>
    calc decode (encode (ch :: text)) = decodeFrom .start (String.utf8EncodeChar ch ++ encode text) := rfl
      _ = ch :: decode (encode text) := decodeFrom_encodeChar ch (encode text)
      _ = ch :: text := by rw [ih]

/-- The bytes of an ASCII text are its characters. -/
lemma encodeChar_ascii {ch : Char} (hch : ch.toNat ≤ 0x7F) : String.utf8EncodeChar ch = [UInt8.ofNat ch.toNat] := by
  have hval : ch.val.toNat = ch.toNat := rfl
  exact if_pos hch

lemma length_encode_ascii (htext : ∀ ch ∈ text, ch.toNat ≤ 0x7F) : (encode text).length = text.length := by
  induction text with
  | nil => rfl
  | cons ch text ih =>
    have hmore := ih fun ch hch => htext ch (mem_cons_of_mem _ hch)
    rw [encode, flatMap_cons, encodeChar_ascii (htext ch mem_cons_self)]
    exact congrArg (· + 1) hmore

/-- A byte of a text below 0x80 is one of its characters. -/
lemma mem_encode_ascii {byte : UInt8} (hbyte : byte ∈ encode text)
    (hlow : byte.toNat < 0x80) : ∃ ch ∈ text, ch.toNat = byte.toNat := by
  obtain ⟨ch, hch, hmem⟩ := mem_flatMap.mp hbyte
  refine ⟨ch, hch, ?_⟩
  have hrange := codePoint_range ch
  have hval : ch.val.toNat = ch.toNat := rfl
  simp only [String.utf8EncodeChar, hval] at hmem
  generalize ch.toNat = v at hmem hrange ⊢
  split at hmem
  · rename_i hone
    rw [mem_singleton.mp hmem, toNat_ofNat (by omega)]
  exfalso
  -- the bytes of a longer character have their highest bit set
  have hhigh : ∃ n, 0x80 ≤ n ∧ n < 256 ∧ byte = UInt8.ofNat n := by
    split at hmem
    · rcases mem_cons.mp hmem with rfl | hmem
      · exact ⟨_, by omega, by omega, rfl⟩
      · exact ⟨_, by omega, by omega, mem_singleton.mp hmem⟩
    split at hmem
    · simp only [mem_cons, not_mem_nil, or_false] at hmem
      rcases hmem with rfl | rfl | rfl <;> exact ⟨_, by omega, by omega, rfl⟩
    · simp only [mem_cons, not_mem_nil, or_false] at hmem
      rcases hmem with rfl | rfl | rfl | rfl <;> exact ⟨_, by omega, by omega, rfl⟩
  obtain ⟨n, hn, hn', rfl⟩ := hhigh
  rw [toNat_ofNat hn'] at hlow
  omega

end Utf8
