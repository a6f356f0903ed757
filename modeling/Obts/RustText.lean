import Obts.InsertionOrder

/-!
# Texts

The operations of `str` and `char` that the bridge uses. White space is that of Unicode, upper and lower
case that of ASCII.
-/
namespace RustText

open List

/-- The property `White_Space`. -/
def isWhitespace (c : Char) : Bool :=
  let n := c.toNat
  (9 ≤ n && n ≤ 13) || n = 0x20 || n = 0x85 || n = 0xA0 || n = 0x1680 || (0x2000 ≤ n && n ≤ 0x200A) ||
    n = 0x2028 || n = 0x2029 || n = 0x202F || n = 0x205F || n = 0x3000

def trimEndChars (drops : Char → Bool) (text : List Char) : List Char :=
  (text.reverse.dropWhile drops).reverse

def trimText (text : List Char) : List Char := trimEndChars isWhitespace (text.dropWhile isWhitespace)

variable (text : String)

def trim : String := String.ofList (trimText text.toList)

def trimStartMatches (c : Char) : String :=
  String.ofList (text.toList.dropWhile (· = c))

def toAsciiLowercase : String := String.ofList (text.toList.map Char.toLower)

def eqIgnoreAsciiCase (left right : String) : Bool :=
  left.toList.length = right.toList.length &&
    (left.toList.zip right.toList).all fun pair => pair.1.toLower = pair.2.toLower

def startsWith (text start : String) : Bool := start.toList.isPrefixOf text.toList

def endsWith (text tail : String) : Bool := tail.toList.isSuffixOf text.toList

/-- By bytes, which for UTF-8 is the order of code points. -/
def byteOrder : String → String → Ordering := compareOn fun text => text.toList.map Char.toNat

instance : Std.TransCmp byteOrder :=
  InsertionOrder.transCmp_comap compare fun text : String => text.toList.map Char.toNat

lemma byteOrder_empty {text : String} (h : text ≠ "") : byteOrder "" text = .lt := by
  have hne : text.toList ≠ [] := fun hnil => h (String.toList_eq_nil_iff.mp hnil)
  obtain ⟨c, rest, hcons⟩ := exists_cons_of_ne_nil hne
  rw [byteOrder, compareOn, hcons]
  rfl

lemma byteOrder_eq {left right : String} (h : byteOrder left right = .eq) : left = right := by
  have hcodes : left.toList.map Char.toNat = right.toList.map Char.toNat :=
    Std.LawfulEqCmp.compare_eq_iff_eq.mp h
  have hinj : Function.Injective Char.toNat := fun c d hcd => Char.ext (UInt32.toNat_inj.mp hcd)
  exact String.toList_injective (map_injective_iff.mpr hinj hcodes)

variable {text : List Char} {drops : Char → Bool}

lemma dropWhile_not_head {c : Char} {rest : List Char}
    (h : text.dropWhile drops = c :: rest) : drops c = false := by
  induction text with
  | nil => cases h
  | cons d text ih =>
    rw [dropWhile_cons] at h
    split at h
    · exact ih h
    rename_i hd
    cases h
    exact Bool.not_eq_true _ ▸ hd

@[simp] lemma dropWhile_dropWhile : (text.dropWhile drops).dropWhile drops = text.dropWhile drops := by
  cases h : text.dropWhile drops with
  | nil => rfl
  | cons c rest => rw [dropWhile_cons_of_neg (by simp [dropWhile_not_head h])]

lemma dropWhile_below {start : List Char}
    (h : text.dropWhile drops = text) (hstart : start <+: text) : start.dropWhile drops = start := by
  cases start with
  | nil => rfl
  | cons c start =>
    obtain ⟨rest, rfl⟩ := hstart
    rw [dropWhile_cons_of_neg (by simpa using dropWhile_not_head h)]

lemma trimEndChars_below : trimEndChars drops text <+: text := by
  rw [trimEndChars, ← reverse_suffix, reverse_reverse]
  exact dropWhile_suffix _

@[simp] lemma trimEndChars_trimEndChars :
    trimEndChars drops (trimEndChars drops text) = trimEndChars drops text := by
  simp [trimEndChars]

lemma dropWhile_trimText : (trimText text).dropWhile isWhitespace = trimText text :=
  dropWhile_below dropWhile_dropWhile trimEndChars_below

@[simp] lemma trimText_trimText : trimText (trimText text) = trimText text := by
  rw [trimText, dropWhile_trimText, trimText, trimEndChars_trimEndChars]

@[simp] lemma trim_trim (text : String) : trim (trim text) = trim text := by
  rw [trim, trim, String.toList_ofList, trimText_trimText]

lemma eqIgnoreAsciiCase_iff {left right : String} :
    eqIgnoreAsciiCase left right ↔ toAsciiLowercase left = toAsciiLowercase right := by
  rw [toAsciiLowercase, toAsciiLowercase, String.ofList_inj, eqIgnoreAsciiCase]
  generalize left.toList = left
  generalize right.toList = right
  induction left generalizing right with
  | nil => cases right <;> simp
  | cons c left ih =>
    cases right with
    | nil => simp
    | cons d right =>
      have hrest := ih right
      simp only [length_cons, zip_cons_cons, all_cons, Bool.and_eq_true,
        decide_eq_true_eq, map_cons, cons.injEq, Nat.add_right_cancel_iff, ← hrest]
      tauto

end RustText
