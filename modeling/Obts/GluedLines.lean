import Mathlib.Data.List.Chain
import Obts.ConflictDiffs

/-!
# Lines of a resolved conflict

The chosen texts of the rows are put together as they are. Each is a line of one side, but the last line of a side
may lack its terminator, and what is chosen behind it is then glued to it. Where that does not happen, or makes a
line that one of the sides has anyway, every line of the result is a line of a side.
-/
namespace GluedLines

open TextLines ConflictDiffs List Side List.Sublist

/-- Once a text lacks its terminator, all behind it but the last have theirs. -/
def Orderly : List Text → Prop
  | [] => True
  | text :: texts => if Ended text then Orderly texts else EndedBefore texts

/-- What follows a text without its terminator makes a line of the collection with it. -/
def Joins (known : Text → Prop) (text next : Text) : Prop := Ended text ∨ known (stripLineEnding (text ++ next))

section Texts
variable {known : Text → Prop} {text line : Text} {texts : List Text}

lemma mem_linesOf_append {x y : Text} (hx : Ended x) (hline : line ∈ linesOf (x ++ y)) :
    line ∈ linesOf x ∨ line ∈ linesOf y := by
  by_cases hmeet : Meet x y
  · obtain ⟨rest, rfl⟩ := head?_eq_some_iff.mp hmeet.2
    rw [linesOf_meet hmeet.1, mem_append] at hline
    refine hline.imp_right fun hrest => ?_
    exact mem_cons_of_mem _ hrest
  · rwa [linesOf_append hx hmeet, mem_append] at hline

lemma mem_linesOf_left {x y : Text} (hx : Ended x) (hline : line ∈ linesOf x) : line ∈ linesOf (x ++ y) := by
  by_cases hmeet : Meet x y
  · obtain ⟨rest, rfl⟩ := head?_eq_some_iff.mp hmeet.2
    rw [linesOf_meet hmeet.1]
    exact mem_append_left _ hline
  · rw [linesOf_append hx hmeet]
    exact mem_append_left _ hline

/-- Only the line that a line feed makes alone can be lost. -/
lemma mem_linesOf_right {x y : Text} (hx : Ended x) (hline : line ∈ linesOf y) :
    line ∈ linesOf (x ++ y) ∨ line = [] ∧ y.head? = some 10 := by
  by_cases hmeet : Meet x y
  · obtain ⟨rest, rfl⟩ := head?_eq_some_iff.mp hmeet.2
    rcases mem_cons.mp hline with rfl | hrest
    · exact .inr ⟨rfl, rfl⟩
    · rw [linesOf_meet hmeet.1]
      exact .inl (mem_append_right _ hrest)
  · rw [linesOf_append hx hmeet]
    exact .inl (mem_append_right _ hline)

/-- Lines of which only the last may lack its terminator stay what they are. -/
lemma mem_linesOf_flatten (hlines : ∀ text ∈ texts, Line text) (hended : EndedBefore texts)
    (hline : line ∈ linesOf texts.flatten) : ∃ text ∈ texts, line = stripLineEnding text := by
  induction texts with
  | nil => cases hline
  | cons text texts ih =>
    rw [forall_mem_cons] at hlines
    cases texts with
    | nil =>
      rw [flatten_singleton, hlines.1.linesOf, mem_singleton] at hline
      exact ⟨text, mem_singleton_self _, hline⟩
    | cons next texts =>
      rcases mem_linesOf_append (hended.head (cons_ne_nil _ _)) hline with hfirst | hrest
      · rw [hlines.1.linesOf, mem_singleton] at hfirst
        exact ⟨text, mem_cons_self, hfirst⟩
      · obtain ⟨other, hother, heq⟩ := ih hlines.2 hended.tail hrest
        exact ⟨other, mem_cons_of_mem _ hother, heq⟩

lemma isChain_of_endedBefore (h : EndedBefore texts) : texts.IsChain (Joins known) := by
  induction texts with
  | nil => exact isChain_nil
  | cons text texts ih =>
    cases texts with
    | nil => exact isChain_singleton _
    | cons next texts => exact isChain_cons_cons.mpr ⟨.inl (h.head (cons_ne_nil _ _)), ih h.tail⟩

/-- The empty line, where a text starts with a line feed. -/
lemma known_nil (hlines : ∀ text ∈ texts, Line text) (hknown : ∀ text ∈ texts, known (stripLineEnding text))
    (hhead : texts.flatten.head? = some 10) : known [] := by
  cases texts with
  | nil => cases hhead
  | cons text texts =>
    rw [forall_mem_cons] at hlines hknown
    cases htext : text with
    | nil => exact absurd htext hlines.1.ne_nil
    | cons c rest =>
      rw [htext, flatten_cons, cons_append, head?_cons, Option.some.injEq] at hhead
      subst hhead
      have hline : Line (10 :: rest) := htext ▸ hlines.1
      obtain rfl := eq_nil_of_splitLines (cons.inj hline).2
      simpa [htext, stripLineEnding] using hknown.1

/-- All lines of known texts put together are known just when what is glued together is. -/
lemma flatten_known_iff (hord : Orderly texts) (hlines : ∀ text ∈ texts, Line text)
    (hknown : ∀ text ∈ texts, known (stripLineEnding text)) :
    (∀ line ∈ linesOf texts.flatten, known line) ↔ texts.IsChain (Joins known) := by
  induction texts with
  | nil => exact iff_of_true (fun _ h => nomatch h) isChain_nil
  | cons text texts ih =>
    rw [forall_mem_cons] at hlines hknown
    cases texts with
    | nil =>
      refine iff_of_true (fun line hline => ?_) (isChain_singleton _)
      rw [flatten_singleton, hlines.1.linesOf, mem_singleton] at hline
      exact hline ▸ hknown.1
    | cons next texts =>
      rw [flatten_cons, isChain_cons_cons]
      by_cases hended : Ended text
      · have hrest : Orderly (next :: texts) := by rwa [Orderly, if_pos hended] at hord
        rw [← ih hrest hlines.2 hknown.2]
        constructor
        · intro hall
          refine ⟨.inl hended, fun line hline => ?_⟩
          rcases mem_linesOf_right hended hline with hthere | ⟨rfl, hhead⟩
          · exact hall line hthere
          · exact known_nil hlines.2 hknown.2 hhead
        · rintro ⟨-, hall⟩ line hline
          rcases mem_linesOf_append hended hline with hfirst | hrest
          · rw [hlines.1.linesOf, mem_singleton] at hfirst
            exact hfirst ▸ hknown.1
          · exact hall line hrest
      · have hbef : EndedBefore (next :: texts) := by rwa [Orderly, if_neg hended] at hord
        obtain ⟨hnexL, hresL⟩ := forall_mem_cons.mp hlines.2
        have hjoin : Line (text ++ next) := Line.append (plain_of_line hlines.1 hended) hnexL
        have hchain : (next :: texts).IsChain (Joins known) := isChain_of_endedBefore hbef
        rw [Joins, or_iff_right hended, and_iff_left hchain, flatten_cons, ← append_assoc]
        cases texts with
        | nil =>
          rw [flatten_nil, append_nil, hjoin.linesOf]
          simp
        | cons other texts =>
          have hnext : Ended (text ++ next) := by
            intro c hc
            rw [getLast?_append_of_ne_nil _ hnexL.ne_nil] at hc
            exact hbef.head (cons_ne_nil _ _) c hc
          constructor
          · intro hall
            apply hall
            apply mem_linesOf_left hnext
            rw [hjoin.linesOf]
            exact mem_singleton_self _
          · intro hglued line hline
            rcases mem_linesOf_append hnext hline with hfirst | hrest
            · rw [hjoin.linesOf, mem_singleton] at hfirst
              exact hfirst ▸ hglued
            · obtain ⟨text, htext, rfl⟩ := mem_linesOf_flatten hresL hbef.tail hrest
              exact hknown.2 text (mem_cons_of_mem _ htext)

end Texts

variable (choices : String → Option LineResolution)

/-- The texts of a row that are chosen. -/
def chosenIn : ConflictDiffRow → List Text
  | .context row => [row.text]
  | .change row =>
    match choices row.id with
    | some .server => row.serverText.toList
    | some .device => row.deviceText.toList
    | some .both => row.serverText.toList ++ row.deviceText.toList
    | none => []

def chosenTexts (rows : List ConflictDiffRow) : List Text :=
  rows.flatMap (chosenIn choices)

/-- An edit script of whole lines: all parts of a side but the last end with a line feed. -/
structure LineScript (parts : List Part) (file : ConflictReviewFile) : Prop extends EditScript parts file where
  whole : ∀ side : Side, ∀ value ∈ (side.values parts).dropLast, ∀ c ∈ value.getLast?, c = 10

section Chosen
variable {diff : DiffLibrary} {file : ConflictReviewFile} {choices : String → Option LineResolution}
  {rows : List ConflictDiffRow} {side : Side} {text : Text} {row : ConflictDiffRow}

lemma flatMap_splitLines {values : List Text} (h : ∀ value ∈ values.dropLast, ∀ c ∈ value.getLast?, c = 10) :
    values.flatMap splitLines = splitLines values.flatten := by
  induction values with
  | nil => rfl
  | cons value values ih =>
    cases values with
    | nil => simp
    | cons next values =>
      rw [dropLast_cons_cons, forall_mem_cons] at h
      have hended : Ended value := fun c hc => .inr (h.1 c hc)
      have hmeet : ¬ Meet value (next :: values).flatten := fun hmeet => by
        have hfeed := h.1 13 hmeet.1
        omega
      rw [flatMap_cons, ih h.2, flatten_cons (L := next :: values), splitLines_append hended hmeet]

/-- The rows hold the lines of a side. -/
lemma lines_eq (hkind : file.contentKind = .text) (hscr : LineScript (scriptOf diff file) file) (side : Side) :
    side.lines (buildConflictDiff diff file) = splitLines (side.text file) := by
  rw [lines_buildConflictDiff hkind hscr.toEditScript, flatMap_splitLines (hscr.whole side), hscr.text]

lemma chosenIn_side (h : text ∈ chosenIn choices row) : ∃ side : Side, text ∈ side.linesIn row := by
  cases row with
  | context row => exact ⟨.server, h⟩
  | change row =>
    rw [chosenIn] at h
    split at h
    · exact ⟨.server, h⟩
    · exact ⟨.device, h⟩
    · rcases mem_append.mp h with hsrv | hdev
      · exact ⟨.server, hsrv⟩
      · exact ⟨.device, hdev⟩
    · cases h

lemma chosen_side (h : text ∈ chosenTexts choices rows) : ∃ side : Side, text ∈ side.lines rows := by
  obtain ⟨row, hrow, htext⟩ := mem_flatMap.mp h
  obtain ⟨side, hside⟩ := chosenIn_side htext
  exact ⟨side, mem_flatMap.mpr ⟨row, hrow, hside⟩⟩

lemma flatten_toList (text : Option Text) : text.toList.flatten = text.getD [] := by
  cases text <;> simp

/-- The loop puts the chosen texts together. -/
lemma foldl_selectRow (selection : Selection) :
    (rows.foldl (selectRow file choices) selection).output =
      selection.output ++ (chosenTexts choices rows).flatten := by
  induction rows generalizing selection with
  | nil => simp [chosenTexts]
  | cons row rows ih =>
    have hrow : (selectRow file choices selection row).output =
        selection.output ++ (chosenIn choices row).flatten := by
      cases row with
      | context row => simp [selectRow, chosenIn]
      | change row =>
        rw [selectRow, chosenIn]
        cases choices row.id with
        | none => simp
        | some choice => cases choice <;> simp [Selection.choose, flatten_toList]
    rw [foldl_cons, ih, hrow, chosenTexts, chosenTexts, flatMap_cons, flatten_append, append_assoc]

/-- Rows after whose unterminated lines no line of the same side follows. -/
def Whole (rows : List ConflictDiffRow) : Prop := ∀ side : Side, EndedBefore (side.lines rows)

lemma whole_buildConflictDiff (hkind : file.contentKind = .text) (hscr : LineScript (scriptOf diff file) file) :
    Whole (buildConflictDiff diff file) := by
  intro side
  rw [lines_eq hkind hscr side]
  exact endedBefore_splitLines _

lemma Whole.tail (h : Whole (row :: rows)) : Whole rows :=
  fun side => (h side).sublist (sublist_append_right _ _)

/-- Where the rows have no line of a side, those of the other are chosen in order. -/
lemma chosenTexts_sublist {other : Side} (hne : other ≠ side) (hnone : side.lines rows = []) :
    (chosenTexts choices rows).Sublist (other.lines rows) := by
  induction rows with
  | nil => exact refl _
  | cons row rows ih =>
    rw [lines, flatMap_cons, append_eq_nil_iff] at hnone
    refine append ?_ (ih hnone.2)
    have hrow := hnone.1
    cases row with
    | context row => cases side <;> cases hrow
    | change row =>
      rw [chosenIn]
      cases side <;> cases other <;> first
        | exact absurd rfl hne
        | (simp only [linesIn, Option.toList_eq_nil_iff] at hrow
           split <;> simp [linesIn, hrow])

/-- Behind an unterminated line of a side it has no more. -/
lemma lines_behind (h : Whole (row :: rows)) (htext : text ∈ side.linesIn row)
    (hopen : ¬ Ended text) : side.lines rows = [] := by
  have hrow : side.linesIn row = [text] := by
    cases row with
    | context row => cases side <;> simpa [linesIn, eq_comm] using htext
    | change row => cases side <;> simpa [linesIn] using htext
  by_contra hne
  have hside := h side
  rw [lines, flatMap_cons, hrow, singleton_append] at hside
  exact hopen (hside.head hne)

def Side.other : Side → Side
  | .server => .device
  | .device => .server

lemma other_ne (side : Side) : Side.other side ≠ side := by
  cases side <;> decide

/-- The chosen texts behind an unterminated line of a side. -/
lemma endedBefore_behind (h : Whole (row :: rows)) (htext : text ∈ side.linesIn row)
    (hopen : ¬ Ended text) : EndedBefore (chosenTexts choices rows) :=
  (h.tail (Side.other side)).sublist (chosenTexts_sublist (other_ne side) (lines_behind h htext hopen))

lemma orderly_cons {texts : List Text} (hended : Ended text → Orderly texts)
    (hopen : ¬ Ended text → EndedBefore texts) : Orderly (text :: texts) := by
  rw [Orderly]
  split
  · rename_i h
    exact hended h
  · rename_i h
    exact hopen h

/-- A chosen line of a row, before the chosen lines of the rows behind it. -/
lemma orderly_toList {line : Option Text} (h : Whole (row :: rows))
    (hline : ∀ text, line = some text → text ∈ side.linesIn row) (ih : Orderly (chosenTexts choices rows)) :
    Orderly (line.toList ++ chosenTexts choices rows) := by
  cases line with
  | none => exact ih
  | some text => exact orderly_cons (fun _ => ih) (endedBefore_behind h (hline text rfl))

lemma orderly_chosenTexts (h : Whole rows) : Orderly (chosenTexts choices rows) := by
  induction rows with
  | nil => trivial
  | cons row rows ih =>
    have hrest := ih h.tail
    rw [chosenTexts, flatMap_cons, ← chosenTexts]
    cases row with
    | context row =>
      have hline : row.text ∈ server.linesIn (.context row) := mem_singleton_self _
      exact orderly_cons (fun _ => hrest) (endedBefore_behind h hline)
    | change row =>
      have hsrv : ∀ text, row.serverText = some text → text ∈ server.linesIn (.change row) := by
        intro text htext
        simp [linesIn, htext]
      have hdev : ∀ text, row.deviceText = some text → text ∈ device.linesIn (.change row) := by
        intro text htext
        simp [linesIn, htext]
      rw [chosenIn]
      cases choices row.id with
      | none => exact hrest
      | some choice =>
        cases choice with
        | server => exact orderly_toList h hsrv hrest
        | device => exact orderly_toList h hdev hrest
        | both =>
          have hboth : Orderly (row.deviceText.toList ++ chosenTexts choices rows) := orderly_toList h hdev hrest
          cases hline : row.serverText with
          | none => exact hboth
          | some text =>
            rw [Option.toList_some, singleton_append]
            refine orderly_cons (fun _ => hboth) fun hopen => ?_
            -- the device's line of this row comes before those of the rows behind it
            have hnone := lines_behind h (hsrv text hline) hopen
            have hsub : (chosenTexts choices rows).Sublist (device.lines rows) :=
              chosenTexts_sublist (by decide) hnone
            exact (h .device).sublist (append (refl row.deviceText.toList) hsub)

end Chosen

variable (file : ConflictReviewFile)

/-- A line of one of the sides. -/
def Known (line : Text) : Prop := ∃ side : Side, line ∈ linesOf (side.text file)

/-- Every line of a result is a line of a side. -/
def KeepsLines (resolved : Option Text) : Prop :=
  ∀ line ∈ linesOf (resolved.getD []), Known file line

/-- No text is chosen behind a line without its terminator, or the two make a line of a side. -/
def Unglued (rows : List ConflictDiffRow) (choices : String → Option LineResolution) : Prop :=
  (chosenTexts choices rows).IsChain (Joins (Known file))

section Result
variable {diff : DiffLibrary} {file : ConflictReviewFile} {choices : String → Option LineResolution}
  {rows : List ConflictDiffRow} {selection : Selection} {text : Text}

lemma chosen_line (hkind : file.contentKind = .text) (hscr : LineScript (scriptOf diff file) file)
    (h : text ∈ chosenTexts choices (buildConflictDiff diff file)) :
      Line text ∧ Known file (stripLineEnding text) := by
  obtain ⟨side, hside⟩ := chosen_side h
  rw [lines_eq hkind hscr side] at hside
  exact ⟨line_of_mem hside, side, mem_map_of_mem hside⟩

lemma present_foldl (h : selection.present) : (rows.foldl (selectRow file choices) selection).present := by
  induction rows generalizing selection with
  | nil => exact h
  | cons row rows ih =>
    apply ih
    cases row with
    | context row => rfl
    | change row =>
      rw [selectRow]
      split <;> simp [Selection.choose, h]

/-- A chosen text shows that the file of its side is there. -/
lemma present_of_chosen (hthere : ∀ side : Side, side.lines rows ≠ [] → (side.content file).isSome)
    (htext : text ∈ chosenTexts choices rows) : (rows.foldl (selectRow file choices) selection).present := by
  induction rows generalizing selection with
  | nil => cases htext
  | cons row rows ih =>
    rw [chosenTexts, flatMap_cons, ← chosenTexts, mem_append] at htext
    rcases htext with hrow | hrest
    · rw [foldl_cons]
      apply present_foldl
      cases row with
      | context row => rfl
      | change row =>
        have hside : ∀ side : Side, text ∈ side.linesIn (.change row) → (side.content file).isSome := by
          intro side hline
          exact hthere side (ne_nil_of_mem (mem_flatMap.mpr ⟨_, mem_cons_self, hline⟩))
        rw [chosenIn] at hrow
        rw [selectRow]
        cases hcho : choices row.id with
        | none =>
          rw [hcho] at hrow
          cases hrow
        | some choice =>
          rw [hcho] at hrow
          cases choice with
          | server => simpa [Selection.choose, content] using .inr (hside .server hrow)
          | device => simpa [Selection.choose, content] using .inr (hside .device hrow)
          | both =>
            rcases mem_append.mp hrow with hsrv | hdev
            · simpa [Selection.choose, content] using .inl (.inr (hside .server hsrv))
            · simpa [Selection.choose, content] using .inr (hside .device hdev)
    · refine ih (fun side hne => hthere side fun hnil => hne ?_) hrest
      exact (append_eq_nil_iff.mp hnil).2

/-- Without changed rows everything is chosen that the server has. -/
lemma chosenTexts_unchanged (h : changedRows rows = []) : chosenTexts choices rows = Side.server.lines rows := by
  apply flatMap_congr
  intro row hrow
  cases row with
  | context row => rfl
  | change row =>
    have hmem := mem_changedRows.mpr hrow
    rw [h] at hmem
    cases hmem

/-- A result is what the chosen texts make together. -/
lemma resolved_text (hkind : file.contentKind = .text) (hscr : LineScript (scriptOf diff file) file)
    {resolved : Option Text} (h : resolveConflictFile file (buildConflictDiff diff file) choices = .ok resolved) :
    resolved.getD [] = (chosenTexts choices (buildConflictDiff diff file)).flatten := by
  by_cases hchg : changedRows (buildConflictDiff diff file) = []
  · rw [resolveConflictFile, if_neg (not_not.mpr hkind), if_pos hchg] at h
    split at h
    · cases h
      rw [chosenTexts_unchanged hchg, flatten_buildConflictDiff hkind hscr.toEditScript]
      rfl
    · cases h
  · by_cases hdec : ∀ row ∈ changedRows (buildConflictDiff diff file), choices row.id ≠ none
    · rw [resolveConflictFile_decided hkind hchg hdec] at h
      cases h
      have houtp : (selectionOf file choices (buildConflictDiff diff file)).output
          = (chosenTexts choices (buildConflictDiff diff file)).flatten := foldl_selectRow ⟨[], false⟩
      split
      · exact houtp
      rename_i habs
      have hnone : chosenTexts choices (buildConflictDiff diff file) = [] := by
        rw [eq_nil_iff_forall_not_mem]
        intro text htext
        refine habs (present_of_chosen (fun side hne => ?_) htext)
        -- a text with lines is there
        cases hcont : side.content file with
        | some content => rfl
        | none =>
          rw [lines_eq hkind hscr, Side.text, hcont] at hne
          exact absurd rfl hne
      rw [hnone]
      rfl
    · have hany : ((changedRows (buildConflictDiff diff file)).any fun row => (choices row.id).isNone) = true := by
        simpa using hdec
      rw [resolveConflictFile, if_neg (not_not.mpr hkind), if_neg hchg, if_pos hany] at h
      cases h

end Result

/-- A resolution of a text file with every changed row decided returns, and every line of the result is a line of a
side just when no chosen text is glued to an unterminated line, or the two make a line of a side. -/
theorem keepsLines_iff (diff : DiffLibrary) (file : ConflictReviewFile) (choices : String → Option LineResolution)
    (hkind : file.contentKind = .text) (hscript : LineScript (scriptOf diff file) file)
    (hdecided : ∀ row ∈ changedRows (buildConflictDiff diff file), choices row.id ≠ none) :
    (changedRows (buildConflictDiff diff file) ≠ [] →
      ∃ resolved, resolveConflictFile file (buildConflictDiff diff file) choices = .ok resolved) ∧
    ∀ resolved, resolveConflictFile file (buildConflictDiff diff file) choices = .ok resolved →
      (KeepsLines file resolved ↔ Unglued file (buildConflictDiff diff file) choices) := by
  constructor
  · exact fun hchg => ⟨_, resolveConflictFile_decided hkind hchg hdecided⟩
  intro resolved h
  rw [KeepsLines, resolved_text hkind hscript h]
  apply flatten_known_iff (orderly_chosenTexts (whole_buildConflictDiff hkind hscript))
  · exact fun text htext => (chosen_line hkind hscript htext).1
  · exact fun text htext => (chosen_line hkind hscript htext).2

lemma lineScript_longerNote : LineScript (scriptOf replacingDiff longerNote) longerNote where
  toEditScript := editScript_longerNote
  whole side := by cases side <;> decide

/-- The server's line first, and then what the device has put behind its own. -/
def mixedChoices (id : String) : Option LineResolution := if id = "change-0" then some .server else some .device

theorem keepsLines_iff_longerNote : (changedRows (buildConflictDiff replacingDiff longerNote) ≠ [] → ∃ resolved,
      resolveConflictFile longerNote (buildConflictDiff replacingDiff longerNote) mixedChoices = .ok resolved) ∧
    ∀ resolved, resolveConflictFile longerNote (buildConflictDiff replacingDiff longerNote) mixedChoices =
      .ok resolved →
      (KeepsLines longerNote resolved ↔
        Unglued longerNote (buildConflictDiff replacingDiff longerNote) mixedChoices) :=
  keepsLines_iff replacingDiff longerNote mixedChoices rfl lineScript_longerNote (by decide)

/-- The result is the one line `ab`, which neither side has. -/
theorem longerNote_glued :
    ¬ ∀ (diff : DiffLibrary) (file : ConflictReviewFile) (choices : String → Option LineResolution),
      file.contentKind = .text → LineScript (scriptOf diff file) file →
      (∀ row ∈ changedRows (buildConflictDiff diff file), choices row.id ≠ none) →
      ∀ resolved, resolveConflictFile file (buildConflictDiff diff file) choices = .ok resolved →
        KeepsLines file resolved := by
  intro hclaim
  have hres : resolveConflictFile longerNote (buildConflictDiff replacingDiff longerNote) mixedChoices
      = .ok (some [97, 98]) := by decide
  obtain ⟨side, hside⟩ := hclaim replacingDiff longerNote mixedChoices rfl lineScript_longerNote (by decide) _ hres
    [97, 98] (by decide)
  revert hside
  cases side <;> decide

end GluedLines
