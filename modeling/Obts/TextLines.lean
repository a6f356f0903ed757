import Mathlib.Data.List.Basic

/-!
# Lines of a text

A text of UTF-16 code units is cut into lines, each with the terminator that ends it: a carriage return with a
line feed, or one of the two alone. A cut between two texts is a cut between lines when the first one ends with a
terminator, but a carriage return and a line feed that meet there become one.
-/
namespace TextLines

open List

abbrev Text := List Nat

/-- A unit goes in front of the first line. -/
def consLine (c : Nat) : List Text → List Text
  | [] => [[c]]
  | line :: lines => (c :: line) :: lines

/-- The matches of `[^\r\n]*(?:\r\n|\n|\r)|[^\r\n]+$`. -/
def splitLines : Text → List Text
  | [] => []
  | 13 :: 10 :: rest => [13, 10] :: splitLines rest
  | 13 :: rest => [13] :: splitLines rest
  | 10 :: rest => [10] :: splitLines rest
  | c :: rest => consLine c (splitLines rest)

/-- `value.replace(/(?:\r\n|\n|\r)$/u, '')` -/
def stripLineEnding : Text → Text
  | [] => []
  | [13, 10] => []
  | [13] => []
  | [10] => []
  | c :: rest => c :: stripLineEnding rest

/-- The lines without their terminators. -/
def linesOf (text : Text) : List Text := (splitLines text).map stripLineEnding

/-- A unit that no terminator has. -/
def Plain (c : Nat) : Prop := c ≠ 13 ∧ c ≠ 10

/-- The text is empty or ends with a terminator. -/
def Ended (text : Text) : Prop := ∀ c ∈ text.getLast?, c = 13 ∨ c = 10

instance (text : Text) : Decidable (Ended text) :=
  inferInstanceAs (Decidable (∀ c ∈ text.getLast?, c = 13 ∨ c = 10))

/-- Induction from the front of a text, by what comes next. -/
@[elab_as_elim]
lemma lines_induction {motive : Text → Prop} (nil : motive [])
    (both : ∀ rest, motive rest → motive (13 :: 10 :: rest))
    (carriage : ∀ rest, rest.head? ≠ some 10 → motive rest → motive (13 :: rest))
    (feed : ∀ rest, motive rest → motive (10 :: rest))
    (plain : ∀ c rest, Plain c → motive rest → motive (c :: rest)) (text : Text) : motive text := by
  induction text using splitLines.induct with
  | case1 => exact nil
  | case2 rest ih => exact both rest ih
  | case3 rest hfeed ih =>
    refine carriage rest (fun hhead => ?_) ih
    obtain ⟨tail, rfl⟩ := head?_eq_some_iff.mp hhead
    exact hfeed tail rfl
  | case4 rest ih => exact feed rest ih
  | case5 c rest _ hret hfeed ih => exact plain c rest ⟨hret, hfeed⟩ ih

section Units
variable {c : Nat} {text x y rest line : Text} {lines others : List Text}

@[simp] lemma splitLines_both (rest : Text) : splitLines (13 :: 10 :: rest) = [13, 10] :: splitLines rest := rfl

@[simp] lemma splitLines_feed (rest : Text) : splitLines (10 :: rest) = [10] :: splitLines rest := rfl

lemma splitLines_carriage (h : rest.head? ≠ some 10) : splitLines (13 :: rest) = [13] :: splitLines rest := by
  rw [splitLines]
  rintro tail rfl
  exact h rfl

lemma splitLines_plain (hc : Plain c) (rest : Text) : splitLines (c :: rest) = consLine c (splitLines rest) := by
  rw [splitLines]
  · exact fun _ heq _ => hc.1 heq
  · exact hc.1
  · exact hc.2

@[simp] lemma flatten_consLine : (consLine c lines).flatten = c :: lines.flatten := by
  cases lines <;> rfl

lemma consLine_append (h : lines ≠ []) : consLine c (lines ++ others) = consLine c lines ++ others := by
  cases lines with
  | nil => exact absurd rfl h
  | cons line lines => rfl

lemma consLine_ne_nil : consLine c lines ≠ [] := by
  cases lines <;> exact cons_ne_nil _ _

lemma splitLines_ne_nil (h : text ≠ []) : splitLines text ≠ [] := by
  induction text using lines_induction with
  | nil => exact absurd rfl h
  | both | feed => exact cons_ne_nil _ _
  | carriage rest hhead ih => simp [splitLines_carriage hhead]
  | plain c rest hc ih =>
    rw [splitLines_plain hc]
    exact consLine_ne_nil

/-- The lines together are the text. -/
lemma flatten_splitLines (text : Text) : (splitLines text).flatten = text := by
  induction text using lines_induction with
  | nil => rfl
  | both _ ih | feed _ ih => simp [ih]
  | carriage rest hhead ih => simp [splitLines_carriage hhead, ih]
  | plain c rest hc ih => simp [splitLines_plain hc, ih]

lemma getLast?_cons_of_some {d : Nat} (h : rest.getLast? = some d) : (c :: rest).getLast? = some d := by
  rw [getLast?_cons, h, Option.getD_some]

lemma Ended.of_cons (h : Ended (c :: rest)) : Ended rest :=
  fun d hd => h d (getLast?_cons_of_some hd)

lemma Ended.ne_nil_of_plain (h : Ended (c :: rest)) (hc : Plain c) : rest ≠ [] := by
  rintro rfl
  rcases h c rfl with hret | hfeed
  · exact hc.1 hret
  · exact hc.2 hfeed

/-- A carriage return ends the one text and a line feed begins the other. -/
def Meet (x y : Text) : Prop := x.getLast? = some 13 ∧ y.head? = some 10

lemma Meet.cons (h : Meet rest y) : Meet (c :: rest) y := ⟨getLast?_cons_of_some h.1, h.2⟩

/-- A text that ends with a terminator keeps its lines before another text, unless a carriage return and a line
feed meet. -/
lemma splitLines_append (hx : Ended x) (hmeet : ¬ Meet x y) :
    splitLines (x ++ y) = splitLines x ++ splitLines y := by
  induction x using lines_induction with
  | nil => rfl
  | both rest ih => simp [ih hx.of_cons.of_cons fun h => hmeet h.cons.cons]
  | carriage rest hhead ih =>
    have hrest : (rest ++ y).head? ≠ some 10 := by
      cases rest with
      | nil => exact fun h => hmeet ⟨rfl, h⟩
      | cons c rest => exact hhead
    have htail := ih hx.of_cons fun h => hmeet h.cons
    simp [splitLines_carriage hhead, splitLines_carriage hrest, htail]
  | feed rest ih => simp [ih hx.of_cons fun h => hmeet h.cons]
  | plain c rest hc ih =>
    have htail := ih hx.of_cons fun h => hmeet h.cons
    have hne := splitLines_ne_nil (hx.ne_nil_of_plain hc)
    rw [cons_append, splitLines_plain hc, splitLines_plain hc, htail, consLine_append hne]

/-- Where a carriage return and a line feed meet, the line feed joins the last line. -/
lemma splitLines_meet (hx : x.getLast? = some 13) : ∃ front line, splitLines x = front ++ [line ++ [13]] ∧
      splitLines (x ++ 10 :: y) = front ++ [line ++ [13, 10]] ++ splitLines y := by
  induction x using lines_induction with
  | nil => cases hx
  | both rest ih =>
    cases rest with
    | nil => cases hx
    | cons c rest =>
      obtain ⟨front, line, hfront, hall⟩ := ih (by simpa using hx)
      exact ⟨[13, 10] :: front, line, by simp [hfront], by simpa using hall⟩
  | carriage rest hhead ih =>
    cases rest with
    | nil => exact ⟨[], [], rfl, rfl⟩
    | cons c rest =>
      obtain ⟨front, line, hfront, hall⟩ := ih (by simpa using hx)
      have hrest : (c :: rest ++ 10 :: y).head? ≠ some 10 := hhead
      refine ⟨[13] :: front, line, by simp [splitLines_carriage hhead, hfront], ?_⟩
      rw [cons_append, splitLines_carriage hrest, hall]
      rfl
  | feed rest ih =>
    cases rest with
    | nil => cases hx
    | cons c rest =>
      obtain ⟨front, line, hfront, hall⟩ := ih (by simpa using hx)
      exact ⟨[10] :: front, line, by simp [hfront], by simpa using hall⟩
  | plain c rest hc ih =>
    cases rest with
    | nil => exact absurd (Option.some.inj hx) hc.1
    | cons d rest =>
      obtain ⟨front, line, hfront, hall⟩ := ih (by simpa using hx)
      rw [cons_append, splitLines_plain hc, splitLines_plain hc, hall, hfront]
      cases front with
      | nil => exact ⟨[], c :: line, rfl, rfl⟩
      | cons first front => exact ⟨(c :: first) :: front, line, rfl, rfl⟩

/-- A text that is one line. -/
def Line (text : Text) : Prop := splitLines text = [text]

lemma mem_consLine (h : line ∈ consLine c lines) :
    line ∈ lines ∨ line = [c] ∧ lines = [] ∨ ∃ first rest, lines = first :: rest ∧ line = c :: first := by
  cases lines with
  | nil => exact .inr (.inl ⟨mem_singleton.mp h, rfl⟩)
  | cons first rest =>
    rcases mem_cons.mp h with rfl | hrest
    · exact .inr (.inr ⟨first, rest, rfl, rfl⟩)
    · exact .inl (mem_cons_of_mem _ hrest)

lemma Line.cons (hc : Plain c) (h : Line line) : Line (c :: line) := by
  rw [Line, splitLines_plain hc, h]
  rfl

/-- Each line of a text is one line. -/
lemma line_of_mem (h : line ∈ splitLines text) : Line line := by
  induction text using lines_induction generalizing line with
  | nil => cases h
  | both _ ih | feed _ ih =>
    rcases mem_cons.mp h with rfl | hrest
    · rfl
    · exact ih hrest
  | carriage rest hhead ih =>
    rw [splitLines_carriage hhead] at h
    rcases mem_cons.mp h with rfl | hrest
    · rfl
    · exact ih hrest
  | plain c rest hc ih =>
    rw [splitLines_plain hc] at h
    rcases mem_consLine h with hrest | ⟨rfl, -⟩ | ⟨first, others, hlines, rfl⟩
    · exact ih hrest
    · exact splitLines_plain hc []
    · exact Line.cons hc (ih (hlines ▸ mem_cons_self))

lemma Line.ne_nil (h : Line line) : line ≠ [] := by
  rintro rfl
  cases h

lemma Ended.cons (h : Ended rest) (hne : rest ≠ []) : Ended (c :: rest) := by
  intro d hd
  obtain ⟨last, hlast⟩ := Option.isSome_iff_exists.mp (getLast?_isSome.mpr hne)
  obtain rfl := Option.some.inj ((getLast?_cons_of_some hlast).symm.trans hd)
  exact h last hlast

/-- All texts but the last are ended. -/
def EndedBefore (texts : List Text) : Prop := ∀ text ∈ texts.dropLast, Ended text

lemma endedBefore_nil : EndedBefore [] := fun _ h => nomatch h

lemma endedBefore_singleton (text : Text) : EndedBefore [text] := fun _ h => nomatch h

lemma endedBefore_cons (hline : Ended line) (h : EndedBefore lines) : EndedBefore (line :: lines) := by
  cases lines with
  | nil => exact endedBefore_singleton line
  | cons other others => exact forall_mem_cons.mpr ⟨hline, h⟩

lemma EndedBefore.tail (h : EndedBefore (line :: lines)) : EndedBefore lines := by
  cases lines with
  | nil => exact endedBefore_nil
  | cons other others => exact (forall_mem_cons.mp h).2

lemma EndedBefore.head (h : EndedBefore (line :: lines)) (hne : lines ≠ []) : Ended line := by
  cases lines with
  | nil => exact absurd rfl hne
  | cons other others => exact h line mem_cons_self

lemma EndedBefore.sublist (h : EndedBefore lines) (hsub : others.Sublist lines) : EndedBefore others := by
  induction hsub with
  | slnil => exact h
  | cons _ _ ih => exact ih h.tail
  | cons_cons line hsub ih =>
    rename_i others lines
    cases lines with
    | nil =>
      rw [sublist_nil.mp hsub]
      exact endedBefore_singleton line
    | cons other rest => exact endedBefore_cons (h.head (cons_ne_nil _ _)) (ih h.tail)

/-- Only the last line of a text may lack its terminator. -/
lemma endedBefore_splitLines (text : Text) : EndedBefore (splitLines text) := by
  induction text using lines_induction with
  | nil => exact endedBefore_nil
  | both _ ih | feed _ ih => exact endedBefore_cons (by decide) ih
  | carriage rest hhead ih =>
    rw [splitLines_carriage hhead]
    exact endedBefore_cons (by decide) ih
  | plain c rest hc ih =>
    rw [splitLines_plain hc]
    cases hlines : splitLines rest with
    | nil => exact endedBefore_singleton _
    | cons first others =>
      rw [hlines] at ih
      cases others with
      | nil => exact endedBefore_singleton _
      | cons other others =>
        have hfirst : first ≠ [] := (line_of_mem (hlines ▸ mem_cons_self)).ne_nil
        exact endedBefore_cons ((ih.head (cons_ne_nil _ _)).cons hfirst) ih.tail

lemma eq_nil_of_splitLines (h : splitLines text = []) : text = [] := by
  by_contra hne
  exact splitLines_ne_nil hne h

/-- A line without its terminator has none elsewhere. -/
lemma plain_of_line (h : Line text) (hended : ¬ Ended text) : ∀ c ∈ text, Plain c := by
  induction text using lines_induction with
  | nil => exact fun _ hc => nomatch hc
  | both | feed =>
    obtain rfl := eq_nil_of_splitLines (cons.inj h).2
    exact absurd (by decide) hended
  | carriage rest hhead ih =>
    rw [Line, splitLines_carriage hhead] at h
    obtain rfl := eq_nil_of_splitLines (cons.inj h).2
    exact absurd (by decide) hended
  | plain c rest hc ih =>
    rw [Line, splitLines_plain hc] at h
    cases hlines : splitLines rest with
    | nil =>
      obtain rfl := eq_nil_of_splitLines hlines
      simpa using hc
    | cons first others =>
      rw [hlines] at h
      obtain ⟨hfirst, rfl⟩ := cons.inj h
      obtain rfl := (cons.inj hfirst).2
      refine forall_mem_cons.mpr ⟨hc, ih hlines fun hrest => hended (hrest.cons ?_)⟩
      exact (line_of_mem (hlines ▸ mem_cons_self)).ne_nil

lemma Line.append (hx : ∀ c ∈ x, Plain c) (h : Line line) : Line (x ++ line) := by
  induction x with
  | nil => exact h
  | cons c x ih =>
    rw [forall_mem_cons] at hx
    exact Line.cons hx.1 (ih hx.2)

lemma Line.linesOf (h : Line line) : linesOf line = [stripLineEnding line] := by
  rw [TextLines.linesOf, h]
  rfl

lemma stripLineEnding_carriage (line : Text) : stripLineEnding (line ++ [13]) = line := by
  induction line with
  | nil => rfl
  | cons c line ih =>
    rw [cons_append, stripLineEnding, ih]
    · intro _ h
      simpa using congrArg getLast? h
    · simp
    · simp

lemma stripLineEnding_both (line : Text) : stripLineEnding (line ++ [13, 10]) = line := by
  induction line with
  | nil => rfl
  | cons c line ih =>
    rw [cons_append, stripLineEnding, ih]
    · intro _ h
      simpa using congrArg length h
    · simp
    · simp

/-- Behind an ended text the lines of another follow, but a line feed that meets a carriage return makes none. -/
lemma linesOf_append (hx : Ended x) (hmeet : ¬ Meet x y) :
    TextLines.linesOf (x ++ y) = TextLines.linesOf x ++ TextLines.linesOf y := by
  rw [TextLines.linesOf, splitLines_append hx hmeet, map_append]
  rfl

lemma linesOf_meet (hx : x.getLast? = some 13) :
    TextLines.linesOf (x ++ 10 :: y) = TextLines.linesOf x ++ TextLines.linesOf y := by
  obtain ⟨front, line, hfront, hall⟩ := splitLines_meet (y := y) hx
  simp [TextLines.linesOf, hfront, hall, stripLineEnding_carriage, stripLineEnding_both]

end Units

end TextLines
