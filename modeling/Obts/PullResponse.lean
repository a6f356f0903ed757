import Mathlib.Data.Bool.AllAny
import Mathlib.Data.List.TakeWhile
import Obts.ListSearch
import Obts.StableJson
import Obts.Utf8

/-!
# Pull responses

A manifest and a packfile as the two parts of one multipart body. The delimiter is made from the
manifest and the length of the packfile only, and the parts are found by searching for it; so the
packfile comes back whole when the delimiter does not occur in it, and cut short otherwise.
-/
namespace PullResponse

open List
open ListSearch StableJson Utf8

def bytes (text : String) : List UInt8 := encode text.toList

/-- What `JSON.stringify` writes for a number: no character of it needs an escape. -/
structure NumberText where
  text : List Char
  plain : ∀ ch ∈ text, ch ∈ "0123456789+-.e".toList

/-- What is stringified: unlike in JSON, a value may be undefined. -/
inductive Value where
  | undefined
  | null
  | bool (value : Bool)
  | number (value : NumberText)
  | string (value : String)
  | array (items : List Value)
  | object (members : List (String × Value))

/-- The texts with commas between them. -/
def joined : List (List Char) → List Char
  | [] => []
  | [text] => text
  | text :: second :: texts => text ++ ',' :: joined (second :: texts)

mutual

/-- An undefined item of an array is written as null. -/
def Value.text : Value → List Char
  | .undefined => "null".toList
  | .null => "null".toList
  | .bool true => "true".toList
  | .bool false => "false".toList
  | .number value => value.text
  | .string value => quoted value []
  | .array items => '[' :: joined (itemTexts items) ++ [']']
  | .object members => '{' :: joined (memberTexts members) ++ ['}']

def itemTexts : List Value → List (List Char)
  | [] => []
  | item :: items => item.text :: itemTexts items

/-- An undefined member is left out. -/
def memberTexts : List (String × Value) → List (List Char)
  | [] => []
  | (_, .undefined) :: members => memberTexts members
  | (name, value) :: members => quoted name (':' :: value.text) :: memberTexts members

end

/-- `JSON.stringify(manifest)` -/
def stringify (manifest : List (String × Value)) : List Char := (Value.object manifest).text

/-- The hash in hexadecimal digits. -/
structure Sha256 where
  hex : List UInt8 → List Char
  length_hex : ∀ data, (hex data).length = 64
  hex_digit : ∀ data, ∀ ch ∈ hex data, ch ∈ "0123456789abcdef".toList

variable (sha256 : Sha256) {text : List Char} {body : List UInt8} {α : Type} (manifest : List (String × Value))

def boundary (byteLength : Nat) : List Char :=
  "obts-".toList ++ (sha256.hex (encode (stringify manifest ++ ':' :: (Nat.repr byteLength).toList))).take 24

def crlf : List UInt8 := bytes "\r\n"

def manifestHeaders : String :=
  "Content-Disposition: form-data; name=\"manifest\"\r\nContent-Type: application/json"

def packfileHeaders : String :=
  "Content-Disposition: form-data; name=\"packfile\"; filename=\"pack.pack\"\r\n" ++
    "Content-Type: application/x-git-packed-objects"

structure Reply where
  contentType : List Char
  body : List UInt8

def sendMultipart (packfile : List UInt8) : Reply :=
  let boundary := boundary sha256 manifest packfile.length
  { contentType := "multipart/form-data; boundary=".toList ++ boundary
    body :=
      encode ("--".toList ++ boundary ++ ("\r\n" ++ manifestHeaders ++ "\r\n\r\n").toList)
        ++ encode (stringify manifest)
        ++ encode ("\r\n--".toList ++ boundary ++ ("\r\n" ++ packfileHeaders ++ "\r\n\r\n").toList)
        ++ packfile
        ++ encode ("\r\n--".toList ++ boundary ++ "--\r\n".toList) }

/-- A letter as a pattern with the flags `iu` compares it: two letters beyond ASCII fold into it. -/
def fold (ch : Char) : Char :=
  if ch = '\u017F' then 's' else if ch = '\u212A' then 'k' else ch.toLower

def boundaryKey : List Char := "boundary=".toList

/-- `/boundary=([^;]+)/iu` -/
def boundaryOf : List Char → Option (List Char)
  | [] => none
  | ch :: text =>
    let value := ((ch :: text).drop boundaryKey.length).takeWhile (· ≠ ';')
    if boundaryKey <+: (ch :: text).map fold ∧ value ≠ [] then some value else boundaryOf text

structure Part where
  headers : List Char
  body : List UInt8

def headersEnd : List UInt8 := bytes "\r\n\r\n"

/-- The loop over the parts, on what stands from the offset on. -/
def readParts (boundary : List UInt8) (data : List UInt8) : List Part :=
  if _hdata : data = [] then []
  else
    match indexOf boundary data with
    | none => []
    | some start =>
      let afterBoundary := data.drop (start + boundary.length)
      if decode (afterBoundary.take 2) = "--".toList then []
      else
        let headers := afterBoundary.drop 2
        match indexOf headersEnd headers with
        | none => []
        | some headerEnd =>
          let body := headers.drop (headerEnd + 4)
          match indexOf (crlf ++ boundary) body with
          | none => []
          | some nextBoundary =>
            { headers := decode (headers.take headerEnd), body := body.take nextBoundary } ::
              readParts boundary (body.drop (nextBoundary + 2))
  termination_by data.length
  decreasing_by
    have hpos := List.length_pos_iff.mpr _hdata
    simp only [List.length_drop]
    omega

/-- `/name="manifest"/iu` and `/name="packfile"/iu` -/
def Part.hasName (name : String) (part : Part) : Bool :=
  (indexOf ("name=\"" ++ name ++ "\"").toList (part.headers.map fold)).isSome

/-- None stands for an error that is thrown. -/
def parseMultipart {α : Type} (jsonParse : List Char → Option α) (contentType : List Char)
    (data : List UInt8) : Option (α × List UInt8) := do
  let boundary ← boundaryOf contentType
  let parts := readParts (encode ("--".toList ++ boundary)) data
  let manifestPart ← parts.find? (Part.hasName "manifest")
  let packPart ← parts.find? (Part.hasName "packfile")
  let manifest ← jsonParse (decode manifestPart.body)
  return (manifest, packPart.body)

def Printable (text : List Char) : Prop := ∀ ch ∈ text, 0x20 ≤ ch.toNat

lemma Printable.append {text' : List Char} (htext : Printable text)
    (htext' : Printable text') : Printable (text ++ text') := by
  intro ch hch
  rcases mem_append.mp hch with hch | hch
  · exact htext ch hch
  · exact htext' ch hch

lemma Printable.cons {ch : Char} (hch : 0x20 ≤ ch.toNat) (htext : Printable text) : Printable (ch :: text) := by
  intro other hother
  rcases mem_cons.mp hother with rfl | hother
  · exact hch
  · exact htext other hother

lemma hexDigit_printable : ∀ n < 16, 0x20 ≤ (hexDigit n).toNat := by decide

lemma escapeChar_printable (c : Char) : Printable (escapeChar c) := by
  simp only [escapeChar]
  split
  · rename_i e hshort
    have hmem := mem_of_find?_eq_some hshort
    have hall : ∀ e ∈ shortEscapes, ([backslash, e.2].all fun ch => 0x20 ≤ ch.toNat) = true := by
      decide
    exact all_iff_forall_prop.mp (hall e hmem)
  · split
    · have hhigh := hexDigit_printable (c.toNat / 16) (by omega)
      have hlow := hexDigit_printable (c.toNat % 16) (by omega)
      have hesc : Printable [backslash, 'u', '0', '0'] :=
        all_iff_forall_prop.mp (by decide)
      exact hesc.append (Printable.cons hhigh (Printable.cons hlow (by intro ch hch; cases hch)))
    · exact Printable.cons (by omega) (by intro ch hch; cases hch)

lemma quoted_printable (text : String) {rest : List Char} (hrest : Printable rest) :
    Printable (quoted text rest) := by
  have hquote : 0x20 ≤ doubleQuote.toNat := by decide
  have hesc : Printable (text.toList.flatMap escapeChar) := by
    intro ch hch
    obtain ⟨c, -, hch⟩ := mem_flatMap.mp hch
    exact escapeChar_printable c ch hch
  exact Printable.cons hquote (hesc.append (Printable.cons hquote hrest))

lemma joined_printable {texts : List (List Char)} (htexts : ∀ text ∈ texts, Printable text) :
    Printable (joined texts) := by
  induction texts using joined.induct with
  | case1 => intro ch hch; cases hch
  | case2 text => exact htexts text mem_cons_self
  | case3 text next texts ih =>
    have hmore := ih fun text htext => htexts text (mem_cons_of_mem _ htext)
    exact (htexts text mem_cons_self).append (Printable.cons (by decide) hmore)

lemma printable_of_decide (htext : text.all (32 ≤ ·.toNat)) : Printable text := by
  simpa [Printable] using htext

mutual

lemma Value.text_printable : ∀ value : Value, Printable value.text
  | .undefined => printable_of_decide rfl
  | .null => printable_of_decide rfl
  | .bool true => printable_of_decide rfl
  | .bool false => printable_of_decide rfl
  | .number value => by
    have hplain : ∀ ch ∈ "0123456789+-.e".toList, 0x20 ≤ ch.toNat := printable_of_decide rfl
    exact fun ch hch => hplain ch (value.plain ch hch)
  | .string value => quoted_printable value (printable_of_decide rfl)
  | .array items => by
    have hitems := joined_printable (itemTexts_printable items)
    exact (Printable.cons (by decide) hitems).append (printable_of_decide rfl)
  | .object members => by
    have hmemb := joined_printable (memberTexts_printable members)
    exact (Printable.cons (by decide) hmemb).append (printable_of_decide rfl)

lemma itemTexts_printable : ∀ items : List Value, ∀ text ∈ itemTexts items, Printable text
  | [], text, htext => by cases htext
  | item :: items, text, htext => by
    rcases mem_cons.mp htext with rfl | htext
    · exact item.text_printable
    · exact itemTexts_printable items text htext

lemma memberTexts_printable : ∀ members : List (String × Value), ∀ text ∈ memberTexts members, Printable text
  | [], text, htext => by cases htext
  | (name, value) :: members, text, htext => by
    have hmemb : Printable (quoted name (':' :: value.text)) :=
      quoted_printable name (Printable.cons (by decide) value.text_printable)
    have hcases : text ∈ memberTexts members ∨ text = quoted name (':' :: value.text) := by
      cases value with
      | undefined => exact Or.inl htext
      | _ => exact (mem_cons.mp htext).symm
    rcases hcases with htext | rfl
    · exact memberTexts_printable members text htext
    · exact hmemb

end

lemma stringify_printable (manifest : List (String × Value)) : Printable (stringify manifest) :=
  (Value.object manifest).text_printable

section Delimiter
variable (sha256 : Sha256) (manifest : List (String × Value)) (byteLength : Nat)

/-- What the parts are separated by, without the line break before it. -/
def dashBoundary : List UInt8 := encode ("--".toList ++ boundary sha256 manifest byteLength)

/-- What ends a part: a line break and the boundary. -/
def delimiter : List UInt8 := crlf ++ dashBoundary sha256 manifest byteLength

/-- A boundary has letters, digits and a hyphen only. -/
lemma boundary_plain : ∀ ch ∈ boundary sha256 manifest byteLength, ch ∈ "obts-0123456789abcdef".toList := by
  have hstart : ∀ ch ∈ "obts-".toList, ch ∈ "obts-0123456789abcdef".toList :=
    all_iff_forall_prop.mp (by decide)
  have hdigit : ∀ ch ∈ "0123456789abcdef".toList, ch ∈ "obts-0123456789abcdef".toList :=
    all_iff_forall_prop.mp (by decide)
  intro ch hch
  rcases mem_append.mp hch with hch | hch
  · exact hstart ch hch
  · exact hdigit ch (sha256.hex_digit _ ch (mem_of_mem_take hch))

lemma length_boundary : (boundary sha256 manifest byteLength).length = 29 := by
  rw [boundary, length_append, length_take, sha256.length_hex]
  decide

/-- Two bytes of the line break, two hyphens, and the boundary. -/
lemma length_delimiter : (delimiter sha256 manifest byteLength).length = 33 := by
  have hascii : ∀ ch ∈ "--obts-0123456789abcdef".toList, ch.toNat ≤ 0x7F :=
    all_iff_forall_prop.mp (by decide)
  have hdash : (dashBoundary sha256 manifest byteLength).length
      = ("--".toList ++ boundary sha256 manifest byteLength).length := by
    refine length_encode_ascii ?_
    intro ch hch
    rcases mem_append.mp hch with hch | hch
    · exact hascii ch (mem_append_left _ hch)
    · exact hascii ch (mem_append_right "--".toList (boundary_plain _ _ _ ch hch))
  rw [delimiter, length_append, hdash, length_append, length_boundary]
  decide

lemma boundary_ne_nil : boundary sha256 manifest byteLength ≠ [] :=
  append_ne_nil_of_left_ne_nil (by decide) _

lemma dashBoundary_ne_nil : dashBoundary sha256 manifest byteLength ≠ [] := by
  exact append_ne_nil_of_left_ne_nil (by decide) _

lemma carriageReturn_notMem : 13 ∉ 10 :: dashBoundary sha256 manifest byteLength := by
  have hplain : ∀ ch ∈ "--obts-0123456789abcdef".toList, ch.toNat ≠ 13 :=
    all_iff_forall_prop.mp (by decide)
  intro hmem
  rcases mem_cons.mp hmem with h | hmem
  · exact absurd h (by decide)
  obtain ⟨ch, hch, hvalue⟩ := mem_encode_ascii hmem (by decide)
  rcases mem_append.mp hch with hch | hch
  · exact hplain ch (mem_append_left _ hch) hvalue
  · exact hplain ch (mem_append_right "--".toList (boundary_plain _ _ _ ch hch)) hvalue

/-- The delimiter is found where it ends a part that does not have it. -/
lemma indexOf_delimiter (hbody : ¬ delimiter sha256 manifest byteLength <:+: body) (rest : List UInt8) :
    indexOf (delimiter sha256 manifest byteLength)
      (body ++ (delimiter sha256 manifest byteLength ++ rest)) = some body.length :=
  indexOf_unbordered (carriageReturn_notMem sha256 manifest byteLength) hbody rest

/-- The text of the manifest has no line breaks. -/
lemma delimiter_not_in_manifest : ¬ delimiter sha256 manifest byteLength <:+: encode (stringify manifest) := by
  intro hwin
  have hmem : 13 ∈ encode (stringify manifest) := hwin.subset mem_cons_self
  obtain ⟨ch, hch, hvalue⟩ := mem_encode_ascii hmem (by decide)
  have hprin := stringify_printable manifest ch hch
  rw [hvalue] at hprin
  exact absurd hprin (by decide)

end Delimiter

lemma boundaryOf_skip {front : List Char} (hfront : ∀ ch ∈ front, fold ch ≠ 'b')
    (text : List Char) : boundaryOf (front ++ text) = boundaryOf text := by
  induction front with
  | nil => rfl
  | cons ch front ih =>
    have hkey : boundaryKey = 'b' :: "oundary=".toList := by decide
    have hno : ¬ boundaryKey <+: (ch :: (front ++ text)).map fold := by
      intro hleads
      rw [hkey, map_cons, cons_prefix_cons] at hleads
      exact hfront ch mem_cons_self hleads.1.symm
    rw [cons_append, boundaryOf, if_neg fun h => hno h.1]
    exact ih fun ch hch => hfront ch (mem_cons_of_mem _ hch)

lemma boundaryOf_match {value : List Char} (hvalue : value ≠ []) (hplain : ';' ∉ value) :
    boundaryOf (boundaryKey ++ value) = some value := by
  have hfold : boundaryKey.map fold = boundaryKey := by decide
  have hmatch : boundaryKey <+: (boundaryKey ++ value).map fold := by
    exact prefix_append boundaryKey _
  have htake : ((boundaryKey ++ value).drop boundaryKey.length).takeWhile (· ≠ ';') = value := by
    rw [drop_left, takeWhile_eq_self_iff]
    intro ch hch
    simp only [decide_eq_true_eq]
    rintro rfl
    exact hplain hch
  cases htext : boundaryKey ++ value with
  | nil => exact absurd htext (append_ne_nil_of_right_ne_nil _ hvalue)
  | cons ch text =>
    rw [htext] at hmatch htake
    rw [boundaryOf, htake, if_pos ⟨hmatch, hvalue⟩]

lemma boundaryOf_contentType (sha256 : Sha256) (manifest : List (String × Value))
    (packfile : List UInt8) : boundaryOf (sendMultipart sha256 manifest packfile).contentType
      = some (boundary sha256 manifest packfile.length) := by
  have hno : ';' ∉ "obts-0123456789abcdef".toList := by decide
  have hplain : ';' ∉ boundary sha256 manifest packfile.length := fun hmem =>
    hno (boundary_plain _ _ _ _ hmem)
  have htype : (sendMultipart sha256 manifest packfile).contentType = "multipart/form-data; ".toList
        ++ (boundaryKey ++ boundary sha256 manifest packfile.length) := by
    have hfront : "multipart/form-data; boundary=".toList
        = "multipart/form-data; ".toList ++ boundaryKey := by decide +kernel
    rfl
  rw [htype, boundaryOf_skip (all_iff_forall_prop.mp (by decide +kernel)),
    boundaryOf_match (boundary_ne_nil _ _ _) hplain]

/-- One turn of the loop at a part whose headers end where they should. -/
lemma readParts_part {boundary : List UInt8} (hboun : boundary ≠ []) {headers : String}
    (hhead : ∀ rest, indexOf headersEnd (bytes headers ++ (headersEnd ++ rest))
      = some (bytes headers).length) {nextBoundary : Nat}
    (hbody : indexOf (crlf ++ boundary) body = some nextBoundary) :
    readParts boundary (boundary ++ (crlf ++ (bytes headers ++ (headersEnd ++ body))))
      = { headers := headers.toList, body := body.take nextBoundary } ::
          readParts boundary (body.drop (nextBoundary + 2)) := by
  have hne : boundary ++ (crlf ++ (bytes headers ++ (headersEnd ++ body))) ≠ [] :=
    append_ne_nil_of_left_ne_nil hboun _
  have hafter : (boundary ++ (crlf ++ (bytes headers ++ (headersEnd ++ body)))).drop
      (0 + boundary.length) = crlf ++ (bytes headers ++ (headersEnd ++ body)) := by
    rw [Nat.zero_add, drop_left]
  have hlast : ¬ decode ((crlf ++ (bytes headers ++ (headersEnd ++ body))).take 2)
      = "--".toList := by
    have htake : (crlf ++ (bytes headers ++ (headersEnd ++ body))).take 2 = crlf := rfl
    rw [htake]
    decide
  have hline : (crlf ++ (bytes headers ++ (headersEnd ++ body))).drop 2
      = bytes headers ++ (headersEnd ++ body) := rfl
  have hstart : (bytes headers ++ (headersEnd ++ body)).drop ((bytes headers).length + 4)
      = body := by
    have hend : headersEnd.length = 4 := by decide
    rw [← append_assoc, ← hend, ← length_append, drop_left]
  rw [readParts, dif_neg hne, indexOf_append_self hboun]
  simp only [hafter, if_neg hlast, hline, hhead, hstart, hbody]
  rw [take_left]
  congr 2
  exact decode_encode headers.toList

/-- The headers have line breaks, but no two in a row. -/
lemma indexOf_manifestHeaders (rest : List UInt8) :
    indexOf headersEnd (bytes manifestHeaders ++ (headersEnd ++ rest)) = some (bytes manifestHeaders).length := by
  have hfound : indexOf headersEnd (bytes manifestHeaders ++ headersEnd)
      = some (bytes manifestHeaders).length := by decide +kernel
  exact indexOf_append_right hfound rest

lemma indexOf_packfileHeaders (rest : List UInt8) :
    indexOf headersEnd (bytes packfileHeaders ++ (headersEnd ++ rest)) = some (bytes packfileHeaders).length := by
  have hfound : indexOf headersEnd (bytes packfileHeaders ++ headersEnd)
      = some (bytes packfileHeaders).length := by decide +kernel
  rw [← append_assoc]
  exact indexOf_append_right hfound rest

section RoundTrip
variable (sha256 : Sha256) (manifest : List (String × Value)) (packfile : List UInt8) {stop : Nat}

/-- What follows the packfile. -/
def closing : List UInt8 :=
  delimiter sha256 manifest packfile.length ++ encode "--\r\n".toList

lemma body_sendMultipart : (sendMultipart sha256 manifest packfile).body
      = dashBoundary sha256 manifest packfile.length ++ (crlf ++ (bytes manifestHeaders ++
        (headersEnd ++ (encode (stringify manifest) ++ (delimiter sha256 manifest packfile.length
        ++ (crlf ++ (bytes packfileHeaders ++ (headersEnd ++ (packfile
        ++ closing sha256 manifest packfile))))))))) := by
  have hline : "\r\n--".toList = "\r\n".toList ++ "--".toList := by decide
  calc (sendMultipart sha256 manifest packfile).body
      = encode ("--".toList ++ boundary sha256 manifest packfile.length
            ++ ("\r\n" ++ manifestHeaders ++ "\r\n\r\n").toList)
          ++ encode (stringify manifest)
          ++ encode ("\r\n--".toList ++ boundary sha256 manifest packfile.length
            ++ ("\r\n" ++ packfileHeaders ++ "\r\n\r\n").toList)
          ++ packfile
          ++ encode ("\r\n--".toList ++ boundary sha256 manifest packfile.length
            ++ "--\r\n".toList) := rfl
    _ = _ := by
      simp only [hline, closing, delimiter, dashBoundary, crlf, headersEnd, bytes, encode_append,
        String.toList_append, append_assoc]

/-- The packfile is read up to where the delimiter is found first. -/
lemma readParts_body (hstop : indexOf (delimiter sha256 manifest packfile.length)
      (packfile ++ closing sha256 manifest packfile) = some stop) :
    ∃ more, readParts (dashBoundary sha256 manifest packfile.length) (sendMultipart sha256 manifest packfile).body
      = { headers := manifestHeaders.toList, body := encode (stringify manifest) } ::
        { headers := packfileHeaders.toList
          body := (packfile ++ closing sha256 manifest packfile).take stop } :: more := by
  have hne := dashBoundary_ne_nil sha256 manifest packfile.length
  have hman := indexOf_delimiter sha256 manifest packfile.length
    (delimiter_not_in_manifest sha256 manifest packfile.length)
    (crlf ++ (bytes packfileHeaders ++ (headersEnd ++ (packfile ++ closing sha256 manifest packfile))))
  have hdrop : ∀ rest, (encode (stringify manifest) ++ (delimiter sha256 manifest packfile.length ++ rest)).drop
        ((encode (stringify manifest)).length + 2)
      = dashBoundary sha256 manifest packfile.length ++ rest := by
    intro rest
    rw [← drop_drop, drop_left]
    rfl
  refine ⟨readParts (dashBoundary sha256 manifest packfile.length)
    ((packfile ++ closing sha256 manifest packfile).drop (stop + 2)), ?_⟩
  rw [body_sendMultipart, readParts_part hne indexOf_manifestHeaders hman, take_left,
    hdrop, readParts_part hne indexOf_packfileHeaders hstop]

/-- The name in the headers of a part does not depend on what stands in the part. -/
theorem hasName_headers (body : List UInt8) :
    Part.hasName "manifest" { headers := manifestHeaders.toList, body := body } = true
    ∧ Part.hasName "packfile" { headers := manifestHeaders.toList, body := body } = false
    ∧ Part.hasName "packfile" { headers := packfileHeaders.toList, body := body } = true := by
  have hnames : (indexOf ("name=\"" ++ "manifest" ++ "\"").toList (manifestHeaders.toList.map fold)).isSome = true
      ∧ (indexOf ("name=\"" ++ "packfile" ++ "\"").toList (manifestHeaders.toList.map fold)).isSome = false
      ∧ (indexOf ("name=\"" ++ "packfile" ++ "\"").toList
        (packfileHeaders.toList.map fold)).isSome = true := by
    decide +kernel
  exact hnames

/-- What is read: the manifest as it was written, and the packfile up to its end mark. -/
lemma parseMultipart_body {jsonParse : List Char → Option α} {value : α}
    (hvalue : jsonParse (stringify manifest) = some value)
    (hstop : indexOf (delimiter sha256 manifest packfile.length)
      (packfile ++ closing sha256 manifest packfile) = some stop) :
    parseMultipart jsonParse (sendMultipart sha256 manifest packfile).contentType
        (sendMultipart sha256 manifest packfile).body
      = some (value, (packfile ++ closing sha256 manifest packfile).take stop) := by
  obtain ⟨more, hparts⟩ := readParts_body sha256 manifest packfile hstop
  obtain ⟨hman, hother, -⟩ := hasName_headers (encode (stringify manifest))
  obtain ⟨-, -, hpack⟩ := hasName_headers ((packfile ++ closing sha256 manifest packfile).take stop)
  rw [dashBoundary] at hparts
  simp only [parseMultipart, boundaryOf_contentType, Option.bind_eq_bind, Option.bind_some, hparts,
    List.find?_cons_of_pos hman, List.find?_cons_of_neg (Bool.not_eq_true _ ▸ hother),
    List.find?_cons_of_pos hpack, decode_encode, hvalue]
  rfl

end RoundTrip

section RoundTrip
variable (sha256 : Sha256) (manifest : List (String × Value)) (packfile : List UInt8)

/-- A packfile with the delimiter in it comes back cut short. -/
lemma parse_ne_of_infix {jsonParse : List Char → Option α} {value : α}
    (hvalue : jsonParse (stringify manifest) = some value)
    (hwin : delimiter sha256 manifest packfile.length <:+: packfile) :
    parseMultipart jsonParse (sendMultipart sha256 manifest packfile).contentType
        (sendMultipart sha256 manifest packfile).body ≠ some (value, packfile) := by
  intro hparse
  obtain ⟨stop, hlt, hstop⟩ := indexOf_lt_of_infix (cons_ne_nil _ _) hwin (closing sha256 manifest packfile)
  rw [parseMultipart_body sha256 manifest packfile hvalue hstop] at hparse
  have hsame := (Prod.mk.inj (Option.some.inj hparse)).2
  have hlen := congrArg List.length hsame
  rw [length_take] at hlen
  omega

/-- A pull response is read back as it was sent exactly when its delimiter does not occur in the
packfile; otherwise the packfile comes back cut short. -/
theorem parse_send_iff {α : Type} {jsonParse : List Char → Option α} {value : α}
    (hvalue : jsonParse (stringify manifest) = some value) :
    parseMultipart jsonParse (sendMultipart sha256 manifest packfile).contentType
        (sendMultipart sha256 manifest packfile).body = some (value, packfile)
      ↔ ¬ delimiter sha256 manifest packfile.length <:+: packfile := by
  constructor
  · exact fun hparse hwin => parse_ne_of_infix sha256 manifest packfile hvalue hwin hparse
  intro hnot
  have hstop := indexOf_delimiter sha256 manifest packfile.length hnot (encode "--\r\n".toList)
  rw [parseMultipart_body sha256 manifest packfile hvalue hstop, take_left]

end RoundTrip

/-- The hash of `{}:4`. -/
def smallDigest : List Char :=
  "bb9634ec7e52cdff1e765b2836266d94e53585b0ed5fa0ecb734d4e319027f1c".toList

theorem parse_send_small :
    parseMultipart (fun text => if text = "{}".toList then some () else none)
        (sendMultipart
          { hex := fun _ => smallDigest, length_hex := fun _ => by decide +kernel,
            hex_digit := fun _ =>
              all_iff_forall_prop.mp (by decide +kernel) } [] [80, 65, 67, 75]).contentType
        (sendMultipart
          { hex := fun _ => smallDigest, length_hex := fun _ => by decide +kernel,
            hex_digit := fun _ =>
              all_iff_forall_prop.mp (by decide +kernel) } [] [80, 65, 67, 75]).body
      = some ((), [80, 65, 67, 75]) :=
  (parse_send_iff _ [] [80, 65, 67, 75] (by decide)).mpr (by decide +kernel)

/-- Whatever the hash is, there is a packfile that its own delimiter cuts short: the delimiter. -/
theorem packfile_cut_short : ¬ ∃ (sha256 : Sha256) (jsonParse : List Char → Option (List (String × Value))),
      (jsonParse "{}".toList).isSome = true ∧ ∀ manifest packfile value,
        jsonParse (stringify manifest) = some value →
        parseMultipart jsonParse (sendMultipart sha256 manifest packfile).contentType
          (sendMultipart sha256 manifest packfile).body = some (value, packfile) := by
  rintro ⟨sha256, jsonParse, hjson, hall⟩
  obtain ⟨value, hvalue⟩ := Option.isSome_iff_exists.mp hjson
  have hlen := length_delimiter sha256 [] 33
  refine parse_ne_of_infix sha256 [] (delimiter sha256 [] 33) hvalue ?_
    (hall [] (delimiter sha256 [] 33) value hvalue)
  rw [hlen]

end PullResponse
