import Mathlib.Order.Basic
import Mathlib.Tactic.Common

/-!
# Pages of an index inventory

The bridge asks a child for one page of its inventory after another, and puts the pages together. The
pages declare how many entries there are, and each but the last names the cursor of the next one.
-/
namespace IndexPages

structure HeadlessIndexFile where
  (path oid : String)

structure HeadlessIndexChange where
  (path kind : String)
  oid : Option String

structure Identity where
  (head base : Option String)
  mode : String
  deriving DecidableEq

structure HeadlessIndexDelta extends Identity where
  files : List HeadlessIndexFile
  changes : List HeadlessIndexChange

structure HeadlessIndexDeltaPage extends HeadlessIndexDelta where
  nextCursor : Option Nat
  (totalFiles totalChanges : Nat)

variable (page : HeadlessIndexDeltaPage)

def HeadlessIndexDeltaPage.entries : Nat :=
  page.files.length + page.changes.length

def HeadlessIndexDeltaPage.totals : Nat × Nat :=
  (page.totalFiles, page.totalChanges)

structure Reading where
  cursor : Nat := 0
  combined : Option HeadlessIndexDelta := none
  expectedTotals : Option (Nat × Nat) := none

/-- One turn of the loop: the reading goes on, or it ends with a delta or the text of an error. -/
def Reading.receive (reading : Reading) (page : HeadlessIndexDeltaPage) :
    Reading ⊕ Except String HeadlessIndexDelta :=
  let totals := page.totals
  let expected := reading.expectedTotals.getD totals
  if expected ≠ totals then .inr (.error "read-index-delta page totals changed")
  else
    let delta := reading.combined.getD ⟨page.toIdentity, [], []⟩
    if delta.toIdentity ≠ page.toIdentity then .inr (.error "read-index-delta page identity changed")
    else
      let combined := { delta with
        files := delta.files ++ page.files
        changes := delta.changes ++ page.changes }
      match page.nextCursor with
      | some next =>
        if next = reading.cursor + page.entries then .inl ⟨next, some combined, some expected⟩
        else .inr (.error "read-index-delta cursor did not advance")
      | none =>
        if combined.files.length = page.totalFiles ∧ combined.changes.length = page.totalChanges then
          .inr (.ok combined)
        else .inr (.error "read-index-delta ended before the declared inventory")

/-- The pages from the one at an index on, as far as a number of requests goes. -/
def Reading.run (pages : Nat → HeadlessIndexDeltaPage) :
    Nat → Nat → Reading → Option (Except String HeadlessIndexDelta)
  | 0, _, _ => none
  | requests + 1, i, reading =>
    match reading.receive (pages i) with
    | .inr result => some result
    | .inl reading => reading.run pages requests (i + 1)

/-- What a reading has returned by a number of requests. -/
def readIndexDelta (pages : Nat → HeadlessIndexDeltaPage) (requests : Nat) :
    Option (Except String HeadlessIndexDelta) :=
  Reading.run pages requests 0 {}

variable (pages : Nat → HeadlessIndexDeltaPage)

def sent : Nat → Nat
  | 0 => 0
  | n + 1 => sent n + (pages n).entries

/-- The page is like the first one, and names as the next cursor the number of entries sent by then. -/
def GoesOn (i : Nat) : Prop :=
  (pages i).totals = (pages 0).totals ∧ (pages i).toIdentity = (pages 0).toIdentity ∧
    (pages i).nextCursor = some (sent pages (i + 1))

variable {pages}

/-- The state of a reading after as many pages that go on. -/
structure HasRead (pages : Nat → HeadlessIndexDeltaPage) (i : Nat) (reading : Reading) : Prop where
  cursor : reading.cursor = sent pages i
  totals : reading.expectedTotals.getD (pages i).totals = (pages 0).totals
  identity : (reading.combined.getD ⟨(pages i).toIdentity, [], []⟩).toIdentity = (pages 0).toIdentity

lemma receive_goesOn {i : Nat} {reading : Reading} (hread : HasRead pages i reading) (h : GoesOn pages i) :
    ∃ next, reading.receive (pages i) = .inl next ∧ HasRead pages (i + 1) next := by
  obtain ⟨htot, hidn, hnext⟩ := h
  rw [Reading.receive]
  dsimp only
  rw [if_neg (not_not.mpr (hread.totals.trans htot.symm)),
    if_neg (not_not.mpr (hread.identity.trans hidn.symm)), hnext, hread.cursor]
  refine ⟨_, if_pos rfl, ?_⟩
  exact { hread with cursor := rfl }

lemma receive_ends {i : Nat} {reading : Reading} (hread : HasRead pages i reading)
    (h : ¬ GoesOn pages i) : ∃ result, reading.receive (pages i) = .inr result := by
  rw [Reading.receive]
  dsimp only
  rw [hread.totals, hread.identity, hread.cursor]
  split
  · exact ⟨_, rfl⟩
  rename_i htot
  split
  · exact ⟨_, rfl⟩
  rename_i hidn
  rw [not_not] at htot hidn
  split
  · rename_i next hnext
    refine ⟨_, if_neg fun hcurs => h ⟨htot.symm, hidn.symm, ?_⟩⟩
    rw [hnext, hcurs]
    rfl
  · split
    · exact ⟨_, rfl⟩
    · exact ⟨_, rfl⟩

/-- A reading goes on as long as the pages do. -/
lemma run_isSome_iff {requests i : Nat} {reading : Reading} (hread : HasRead pages i reading) :
    (Reading.run pages requests i reading).isSome ↔ ∃ j < requests, ¬ GoesOn pages (i + j) := by
  induction requests generalizing i reading with
  | zero => simp [Reading.run]
  | succ requests ih =>
    rw [Reading.run]
    by_cases h : GoesOn pages i
    · obtain ⟨next, hnext, hread⟩ := receive_goesOn hread h
      rw [hnext]
      simp only [ih hread]
      constructor
      · rintro ⟨j, hj, hends⟩
        exact ⟨j + 1, Nat.succ_lt_succ hj, by rwa [← Nat.add_assoc, Nat.add_right_comm]⟩
      rintro ⟨j, hj, hends⟩
      cases j with
      | zero => exact absurd h hends
      | succ j =>
        exact ⟨j, Nat.lt_of_succ_lt_succ hj, by rwa [Nat.add_right_comm, Nat.add_assoc]⟩
    · obtain ⟨result, hres⟩ := receive_ends hread h
      rw [hres]
      exact ⟨fun _ => ⟨0, requests.succ_pos, h⟩, fun _ => rfl⟩

/-- The entries that the first page declares. -/
def declared (pages : Nat → HeadlessIndexDeltaPage) : Nat :=
  (pages 0).totalFiles + (pages 0).totalChanges

/-- Without empty pages the entries grow by one with every page. -/
lemma le_sent (hents : ∀ i, (pages i).nextCursor ≠ none → 0 < (pages i).entries) {n : Nat}
    (h : ∀ i < n, GoesOn pages i) : n ≤ sent pages n := by
  induction n with
  | zero => exact Nat.le_refl 0
  | succ n ih =>
    have hn := ih fun i hi => h i (Nat.lt_succ_of_lt hi)
    have hpos := hents n (by rw [(h n n.lt_succ_self).2.2]; exact nofun)
    rw [sent]
    omega

/-- A reading ends in time when one of the pages ends it, which pages that name a cursor without being
empty and do not exceed what they declare cannot avoid. -/
theorem readIndexDelta_ends_iff (pages : Nat → HeadlessIndexDeltaPage) :
    ((readIndexDelta pages (declared pages + 1)).isSome = true ↔ ∃ i ≤ declared pages, ¬ GoesOn pages i) ∧
    ((∀ i, (pages i).nextCursor ≠ none → 0 < (pages i).entries) → (∀ n, sent pages n ≤ declared pages) →
      ∃ i ≤ declared pages, ¬ GoesOn pages i) := by
  constructor
  · rw [readIndexDelta, run_isSome_iff ⟨rfl, rfl, rfl⟩]
    simp [Nat.lt_succ_iff]
  intro hents hsent
  by_contra hall
  have hle := le_sent hents (n := declared pages + 1) fun i hi => by
    by_contra hends
    exact hall ⟨i, Nat.lt_succ_iff.mp hi, hends⟩
  have hle' := hsent (declared pages + 1)
  omega

/-- An empty page that names its own cursor. -/
def stalledPage : HeadlessIndexDeltaPage :=
  ⟨⟨⟨none, none, "unavailable"⟩, [], []⟩, some 0, 0, 0⟩

theorem stalled_never_ends : ¬ ∃ requests result, readIndexDelta (fun _ => stalledPage) requests = some result := by
  rintro ⟨requests, result, h⟩
  have hsent : ∀ n, sent (fun _ => stalledPage) n = 0 := by
    intro n
    induction n with
    | zero => rfl
    | succ n ih => rw [sent, ih]; rfl
  obtain ⟨i, -, hends⟩ := (@run_isSome_iff (fun _ => stalledPage) _ 0 _ ⟨rfl, rfl, rfl⟩).mp
    (Option.isSome_iff_exists.mpr ⟨result, h⟩)
  exact hends ⟨rfl, rfl, by rw [hsent]; rfl⟩

end IndexPages
