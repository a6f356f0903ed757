import Obts.DisjointMerge
import Obts.WorkTrees

/-!
# The identity-overlap merge

When the only overlaps are identical paths, the server builds the merge tree through a work
tree instead of the index. The two trees are compared path by path. They agree exactly when no
change runs into a file of main that stands above or below it, no later removal takes a written
file with it, every written file is tracked on main or not ignored and has the mode that the work
tree gives it, `git show` can print it, and no attribute of the work tree converts a file.
-/
namespace OverlayMerge

open SlashPath FileTrees InsertionOrder GitTrees WorkTrees Metadata MergeDecision DisjointMerge List Option WorkOp
open FileTree

variable {w w' : WorkTree} {p x r : Path} {changes : List GitDiffEntry} {input : MergeInput}
  {repo : Repository} {e : GitDiffEntry} {server : Server}

section Runs

variable {rt : Runtime} {content : Path → Option String} {ops : List WorkOp}

lemma rm_ok (h : rm rt w p = .ok w') : w' = w.removeBelow p := by
  unfold rm at h
  split at h
  · cases h
  · exact (Except.ok.inj h).symm

lemma writeFile_ok {oid : String} (h : writeFile w p oid = .ok w') :
    (∀ q, q < p → w.files.get q = none) ∧ p ∉ w.dirs ∧ (∀ x, w'.files.get x =
      if x = p then some ⟨modeAfterWrite (w.files.get p), oid⟩ else w.files.get x) ∧
    w'.dirs = w.dirs ++ directoryPrefixes p := by
  unfold writeFile at h
  split at h
  · cases h
  rename_i habove
  split at h
  · cases h
  rename_i hdir
  cases h
  have hnone : ∀ q, q < p → w.files.get q = none := by
    intro q hq
    by_contra hne
    exact habove (belowFile_iff.mpr ⟨q, hne, hq⟩)
  refine ⟨hnone, hdir, ?_, rfl⟩
  intro x
  change (w.files.put p _).get x = _
  rw [get_put]
  by_cases hx : x = p
  · rw [if_pos hx, if_pos hx]
  rw [if_neg hx, if_neg hx]
  split
  · rename_i hn
    rcases hn with hlt | hlt
    · exact (hnone x hlt).symm
    · by_contra hne
      exact hdir (w.closed x (Ne.symm hne) p hlt)
  · rfl

/-- Some removal of the run reaches the path. -/
def removes (ops : List WorkOp) (x : Path) : Bool :=
  ops.any fun
    | .remove r => r ≤ x
    | .write _ => false

lemma removes_iff : removes ops x ↔ ∃ r, WorkOp.remove r ∈ ops ∧ r ≤ x := by
  simp only [removes, List.any_eq_true]
  constructor
  · rintro ⟨op, hop, htest⟩
    cases op with
    | remove r => exact ⟨r, hop, by simpa using htest⟩
    | write p => cases htest
  · rintro ⟨r, hr, hle⟩
    exact ⟨_, hr, by simpa using hle⟩

@[simp] lemma removes_nil (x : Path) : removes [] x = false := rfl

@[simp] lemma removes_cons_remove (r x : Path) (ops : List WorkOp) :
    removes (.remove r :: ops) x = (decide (r ≤ x) || removes ops x) := rfl

@[simp] lemma removes_cons_write (p x : Path) (ops : List WorkOp) :
    removes (.write p :: ops) x = removes ops x := rfl

/-- A path that no operation writes keeps its file unless a removal reaches it. -/
lemma files_of_not_written (h : applyOps rt content w ops = .ok w') (hx : WorkOp.write x ∉ ops) :
    w'.files.get x = if removes ops x then none else w.files.get x := by
  induction ops generalizing w with
  | nil =>
    cases h
    simp
  | cons op ops ih =>
    obtain ⟨w1, hstep, h⟩ := bind_eq_ok.mp h
    have htail := ih h (fun hmem => hx (mem_cons_of_mem _ hmem))
    cases op with
    | remove r =>
      rw [htail, rm_ok hstep]
      change (if _ then none else (w.files.removeBelow r).get x) = _
      rw [get_removeBelow]
      by_cases hr : r ≤ x
      · simp [hr]
      · simp [hr]
    | write p =>
      have hne : x ≠ p := by
        rintro rfl
        exact hx mem_cons_self
      have hkept : w1.files.get x = w.files.get x := by
        simp only [applyOp] at hstep
        split at hstep
        · rw [(writeFile_ok hstep).2.2.1 x, if_neg hne]
        · cases hstep
      rw [htail, hkept]
      rfl

/-- A directory that no operation writes into stays unless a removal reaches it. -/
lemma mem_dirs_of_not_written
    (h : applyOps rt content w ops = .ok w') {q : Path} (hq : ∀ p, WorkOp.write p ∈ ops → ¬ q < p) :
    q ∈ w'.dirs ↔ q ∈ w.dirs ∧ removes ops q = false := by
  induction ops generalizing w with
  | nil =>
    cases h
    simp
  | cons op ops ih =>
    obtain ⟨w1, hstep, h⟩ := bind_eq_ok.mp h
    have htail := ih h (fun p hmem => hq p (mem_cons_of_mem _ hmem))
    cases op with
    | remove r =>
      have hdirs : q ∈ w1.dirs ↔ q ∈ w.dirs ∧ ¬ r ≤ q := by
        rw [rm_ok hstep]
        simp [WorkTree.removeBelow]
      rw [htail, hdirs]
      simp [and_assoc]
    | write p =>
      have hdirs : q ∈ w1.dirs ↔ q ∈ w.dirs := by
        simp only [applyOp] at hstep
        split at hstep
        · rw [(writeFile_ok hstep).2.2.2, mem_append, mem_directoryPrefixes]
          have := hq p mem_cons_self
          tauto
        · cases hstep
      rw [htail, hdirs]
      simp

/-- A run succeeds when each operation does in the state the earlier ones leave. -/
lemma applyOps_ok_iff : (∃ w', applyOps rt content w ops = .ok w') ↔ ∀ done op rest, ops = done ++ op :: rest →
        ∀ w1, applyOps rt content w done = .ok w1 → ∃ w2, applyOp rt content w1 op = .ok w2 := by
  constructor
  · rintro ⟨w', h⟩ done op rest rfl w1 hdone
    rw [applyOps, foldlM_append] at h
    obtain ⟨w1', hdone', h⟩ := bind_eq_ok.mp h
    cases hdone.symm.trans hdone'
    obtain ⟨w2, hstep, -⟩ := bind_eq_ok.mp h
    exact ⟨w2, hstep⟩
  · induction ops using List.reverseRecOn with
    | nil => exact fun _ => ⟨w, rfl⟩
    | append_singleton ops op ih =>
      intro h
      have hinit : ∃ w', applyOps rt content w ops = .ok w' := by
        refine ih fun done op' rest heq => h done op' (rest ++ [op]) ?_
        rw [heq]
        simp
      obtain ⟨w1, hdone⟩ := hinit
      obtain ⟨w2, hstep⟩ := h ops op [] rfl w1 hdone
      refine ⟨w2, ?_⟩
      rw [applyOps, foldlM_append]
      exact bind_eq_ok.mpr ⟨w1, hdone, by simpa using hstep⟩

end Runs

lemma perm_workOps {x y : Tree} (h : e.Describes x y) : ((workOps e).map WorkOp.path).Perm e.endpoints := by
  obtain ⟨status, oldPath, path⟩ := e
  cases oldPath with
  | none => cases status <;> exact List.Perm.refl _
  | some old =>
    cases status with
    | renamed =>
      have hne : old ≠ path := by
        rintro rfl
        exact h.1.1 h.2.1
      simp only [workOps, hne, ne_eq, not_false_eq_true, if_true, GitDiffEntry.endpoints]
      exact List.Perm.swap _ _ _
    | added | modified | typeChanged | deleted => exact h.elim

/-- An operation of an entry writes a path of the second tree or removes one it lacks. -/
lemma mem_workOps {x y : Tree} (h : e.Describes x y) {op : WorkOp} (hop : op ∈ workOps e) :
    (op = .write op.path ∧ y.get op.path ≠ none) ∨ (op = .remove op.path ∧ y.get op.path = none) := by
  obtain ⟨status, oldPath, path⟩ := e
  cases oldPath with
  | none =>
    cases status with
    | added =>
      obtain rfl : op = .write path := by simpa [workOps] using hop
      exact .inl ⟨rfl, h.2⟩
    | modified | typeChanged =>
      obtain rfl : op = .write path := by simpa [workOps] using hop
      exact .inl ⟨rfl, h.2.1⟩
    | deleted =>
      obtain rfl : op = .remove path := by simpa [workOps] using hop
      exact .inr ⟨rfl, h.2⟩
    | renamed => exact h.elim
  | some old =>
    cases status with
    | renamed =>
      have hne : old ≠ path := by
        rintro rfl
        exact h.1.1 h.2.1
      have hcases : op = .remove old ∨ op = .write path := by simpa [workOps, hne] using hop
      rcases hcases with rfl | rfl
      · exact .inr ⟨rfl, h.1.2⟩
      · exact .inl ⟨rfl, h.2.2⟩
    | added | modified | typeChanged | deleted => exact h.elim

section Operations

variable {base device : Tree} {changes : List GitDiffEntry} (hdiff : IsDiff base device changes)
include hdiff

lemma perm_ops : ((changes.flatMap workOps).map WorkOp.path).Perm (changes.flatMap GitDiffEntry.endpoints) := by
  rw [map_flatMap]
  exact List.Perm.flatMap_left changes fun e he => perm_workOps (hdiff.describes e he)

lemma nodup_ops : ((changes.flatMap workOps).map WorkOp.path).Nodup :=
  (perm_ops hdiff).nodup_iff.mpr hdiff.nodup

lemma path_mem_ops : p ∈ (changes.flatMap workOps).map WorkOp.path ↔ base.get p ≠ device.get p := by
  rw [(perm_ops hdiff).mem_iff, ← hdiff.mem_changedPathSet]
  simp [changedPathSet]

lemma write_mem_ops : WorkOp.write p ∈ changes.flatMap workOps ↔
    base.get p ≠ device.get p ∧ device.get p ≠ none := by
  constructor
  · intro hmem
    obtain ⟨e, he, hop⟩ := mem_flatMap.mp hmem
    refine ⟨(path_mem_ops hdiff).mp (mem_map.mpr ⟨_, hmem, rfl⟩), ?_⟩
    rcases mem_workOps (hdiff.describes e he) hop with ⟨-, h⟩ | ⟨h, -⟩
    · exact h
    · cases h
  · rintro ⟨hne, hsome⟩
    obtain ⟨op, hop, rfl⟩ := mem_map.mp ((path_mem_ops hdiff).mpr hne)
    obtain ⟨e, he, hmem⟩ := mem_flatMap.mp hop
    rcases mem_workOps (hdiff.describes e he) hmem with ⟨h, -⟩ | ⟨-, h⟩
    · exact h ▸ hop
    · exact absurd h hsome

lemma remove_mem_ops : WorkOp.remove p ∈ changes.flatMap workOps ↔ base.get p ≠ none ∧ device.get p = none := by
  constructor
  · intro hmem
    obtain ⟨e, he, hop⟩ := mem_flatMap.mp hmem
    have hne := (path_mem_ops hdiff).mp (mem_map.mpr ⟨_, hmem, rfl⟩)
    rcases mem_workOps (hdiff.describes e he) hop with ⟨h, -⟩ | ⟨-, h⟩
    · cases h
    · exact ⟨fun hb => hne (hb.trans h.symm), h⟩
  · rintro ⟨hsome, hnone⟩
    have hne : base.get p ≠ device.get p := fun h => hsome (h.trans hnone)
    obtain ⟨op, hop, rfl⟩ := mem_map.mp ((path_mem_ops hdiff).mpr hne)
    obtain ⟨e, he, hmem⟩ := mem_flatMap.mp hop
    rcases mem_workOps (hdiff.describes e he) hmem with ⟨-, h⟩ | ⟨h, -⟩
    · exact absurd hnone h
    · exact h ▸ hop

end Operations

section Success

variable {rt : Runtime} {base main device : Tree} {changes : List GitDiffEntry}
  (hdiff : IsDiff base device changes) {done rest : List WorkOp}

/-- The bytes the loop writes: the device's blob at the path. -/
def deviceContent (device : Tree) (p : Path) : Option String := (device.get p).map (·.oid)

/-- The blobs the operations write can all be printed. -/
def Printable (blobSize : String → Nat) (device : Tree) (ops : List WorkOp) : Prop :=
  ∀ p, WorkOp.write p ∈ ops → ∀ e, device.get p = some e → blobSize e.oid ≤ maxBuffer

lemma applyOps_sized_iff {blobSize : String → Nat} {ops : List WorkOp} : applyOps rt (fun p =>
      (deviceContent device p).filter fun oid => blobSize oid ≤ maxBuffer) w ops = .ok w' ↔
    Printable blobSize device ops ∧ applyOps rt (deviceContent device) w ops = .ok w' := by
  induction ops generalizing w with
  | nil => simp [applyOps, Printable]
  | cons op ops ih =>
    have hsplit : ∀ read, applyOps rt read w (op :: ops) = .ok w' ↔
        ∃ w1, applyOp rt read w op = .ok w1 ∧ applyOps rt read w1 ops = .ok w' :=
      fun _ => bind_eq_ok
    rw [hsplit, hsplit]
    simp only [ih]
    cases op with
    | remove r =>
      have hprn : Printable blobSize device (.remove r :: ops) ↔ Printable blobSize device ops := by
        simp [Printable]
      simp [applyOp, hprn, and_left_comm]
    | write p =>
      have hprn : Printable blobSize device (.write p :: ops) ↔
          (∀ e, device.get p = some e → blobSize e.oid ≤ maxBuffer) ∧
            Printable blobSize device ops := by
        simp [Printable, or_imp, forall_and]
      rw [hprn]
      cases he : device.get p with
      | none => simp [applyOp, deviceContent, he]
      | some e =>
        by_cases hsize : blobSize e.oid ≤ maxBuffer
        · simp [applyOp, deviceContent, he, hsize, Option.filter, and_left_comm]
        · simp [applyOp, deviceContent, he, hsize, Option.filter]

/-- The file at a written path: the device's blob in the mode found there, unless a later
removal reaches it. -/
lemma files_of_written (hdone : WorkOp.write p ∉ done) (hrest : WorkOp.write p ∉ rest)
    (h : applyOps rt (deviceContent device) (checkout main) (done ++ .write p :: rest) = .ok w)
    {e : TreeEntry} (he : device.get p = some e) : w.files.get p = if removes rest p then none
      else some ⟨modeAfterWrite (if removes done p then none else main.get p), e.oid⟩ := by
  rw [applyOps, foldlM_append] at h
  obtain ⟨w1, hfirst, h⟩ := bind_eq_ok.mp h
  obtain ⟨w2, hstep, hlast⟩ := bind_eq_ok.mp h
  rw [files_of_not_written hlast hrest]
  simp only [applyOp, deviceContent, he, map_some] at hstep
  rw [(writeFile_ok hstep).2.2.1 p, if_pos rfl, files_of_not_written hfirst hdone]
  rfl

include hdiff

lemma write_split (hops : changes.flatMap workOps = done ++ .write p :: rest) :
    (base.get p ≠ device.get p ∧ device.get p ≠ none) ∧ WorkOp.write p ∉ done ∧ WorkOp.write p ∉ rest := by
  have hnodup := nodup_ops hdiff
  rw [hops, map_append, map_cons] at hnodup
  obtain ⟨-, hrest, hdone⟩ := nodup_append.mp hnodup
  refine ⟨(write_mem_ops hdiff).mp (by simp [hops]), fun h => ?_, fun h => ?_⟩
  · exact hdone _ (mem_map_of_mem h) _ mem_cons_self rfl
  · exact (nodup_cons.mp hrest).1 (mem_map_of_mem (f := path) h)

/-- What main has above or below a written file went with an earlier removal at or above both. -/
def Writable (main : Tree) (ops : List WorkOp) : Prop :=
  ∀ done p rest, ops = done ++ .write p :: rest → ∀ x, main.get x ≠ none → Nested x p →
    ∃ r, WorkOp.remove r ∈ done ∧ r ≤ x ∧ r ≤ p

/-- No file of main and no file written before stands above a removed path, where `rm` minds. -/
def Removable (rt : Runtime) (main : Tree) (ops : List WorkOp) : Prop :=
  rt.refusesBelowFile = true → ∀ done r rest, ops = done ++ .remove r :: rest →
    ∀ a, a < r → main.get a = none ∧ WorkOp.write a ∉ done

lemma write_succeeds_iff (hops : changes.flatMap workOps = done ++ .write p :: rest)
    (h : applyOps rt (deviceContent device) (checkout main) done = .ok w) :
    (∃ w', applyOp rt (deviceContent device) w (.write p) = .ok w') ↔
      ∀ x, main.get x ≠ none → Nested x p → ∃ r, WorkOp.remove r ∈ done ∧ r ≤ x ∧ r ≤ p := by
  obtain ⟨⟨-, hp⟩, -, -⟩ := write_split hdiff hops
  obtain ⟨e, he⟩ := ne_none_iff_exists'.mp hp
  have hwr : ∀ q, write q ∈ done → ¬ q < p ∧ ¬ p < q := by
    intro q hq
    have hq' := ((write_mem_ops hdiff).mp (by simp [hops, hq] : write q ∈ _)).2
    exact ⟨not_lt_of_get hq' hp, not_lt_of_get hp hq'⟩
  have habove : belowFile w p = false ↔
      ∀ x, main.get x ≠ none → x < p → removes done x = true := by
    rw [← Bool.not_eq_true, belowFile_iff, not_exists]
    refine forall_congr' fun x => ?_
    by_cases hx : x < p
    · rw [files_of_not_written h fun hq => (hwr x hq).1 hx]
      by_cases hr : removes done x = true
      · simp [hr]
      · simp [hr, hx, checkout]
    · simp [hx]
  have hdir : p ∉ w.dirs ↔ ∀ x, main.get x ≠ none → p < x → removes done p = true := by
    rw [mem_dirs_of_not_written h fun q hq => (hwr q hq).2]
    have hchec : p ∈ (checkout main).dirs ↔ ∃ f, main.get f ≠ none ∧ p < f :=
      mem_directoryPrefixes_of_get
    rw [hchec]
    constructor
    · intro hnot x hx hlt
      by_contra hr
      exact hnot ⟨⟨x, hx, hlt⟩, by simpa using hr⟩
    rintro hall ⟨⟨x, hx, hlt⟩, hr⟩
    rw [hall x hx hlt] at hr
    cases hr
  have hstep : (∃ w', applyOp rt (deviceContent device) w (.write p) = .ok w') ↔
      belowFile w p = false ∧ p ∉ w.dirs := by
    simp only [applyOp, deviceContent, he, map_some, writeFile]
    split
    · simp_all
    split
    · simp_all
    · simp_all
  rw [hstep, habove, hdir]
  constructor
  · rintro ⟨ha, hd⟩ x hx hn
    rcases hn with hlt | hlt
    · obtain ⟨r, hr, hle⟩ := removes_iff.mp (ha x hx hlt)
      exact ⟨r, hr, hle, hle.trans hlt.le⟩
    · obtain ⟨r, hr, hle⟩ := removes_iff.mp (hd x hx hlt)
      exact ⟨r, hr, hle.trans hlt.le, hle⟩
  · intro hall
    constructor
    · intro x hx hlt
      obtain ⟨r, hr, hle, -⟩ := hall x hx (.inl hlt)
      exact removes_iff.mpr ⟨r, hr, hle⟩
    intro x hx hlt
    obtain ⟨r, hr, -, hle⟩ := hall x hx (.inr hlt)
    exact removes_iff.mpr ⟨r, hr, hle⟩

lemma removes_eq_false_above {a : Path} (hops : changes.flatMap workOps = done ++ .remove r :: rest) (ha : a < r)
    (part : List WorkOp) (hpart : part ⊆ done) : removes part a = false := by
  -- two removed paths are files of the base, so they are not nested
  rw [← Bool.not_eq_true, removes_iff]
  rintro ⟨r', hr', hle⟩
  have hr := ((remove_mem_ops hdiff).mp (by simp [hops] : remove r ∈ _)).1
  have hr'' := ((remove_mem_ops hdiff).mp (by simp [hops, hpart hr'] : remove r' ∈ _)).1
  exact not_lt_of_get hr'' hr (lt_of_le_of_lt hle ha)

lemma remove_succeeds_iff (hops : changes.flatMap workOps = done ++ .remove r :: rest)
    (h : applyOps rt (deviceContent device) (checkout main) done = .ok w) :
    (∃ w', applyOp rt (deviceContent device) w (.remove r) = .ok w') ↔ (rt.refusesBelowFile →
        ∀ a, a < r → main.get a = none ∧ WorkOp.write a ∉ done) := by
  have hfile : ∀ a, a < r → (w.files.get a = none ↔
      main.get a = none ∧ write a ∉ done) := by
    intro a ha
    by_cases hw : write a ∈ done
    · obtain ⟨first, last, rfl⟩ := append_of_mem hw
      have hsplit : changes.flatMap workOps = first ++ .write a :: (last ++ .remove r :: rest) := by simp [hops]
      obtain ⟨⟨-, hd⟩, hfirst, hlast⟩ := write_split hdiff hsplit
      obtain ⟨e, he⟩ := ne_none_iff_exists'.mp hd
      have hlast' : write a ∉ last := fun hmem => hlast (mem_append_left _ hmem)
      have hnone := removes_eq_false_above hdiff hops ha last fun op hop => by simp [hop]
      rw [files_of_written hfirst hlast' h he, hnone]
      simp
    · rw [files_of_not_written h hw, removes_eq_false_above hdiff hops ha done (List.Subset.refl _)]
      simp [hw, checkout]
  have hstep : (∃ w', applyOp rt (deviceContent device) w (.remove r) = .ok w') ↔
      (rt.refusesBelowFile = true → belowFile w r = false) := by
    simp only [applyOp, rm]
    cases rt.refusesBelowFile <;> cases belowFile w r <;> simp
  rw [hstep]
  refine imp_congr_right fun _ => ?_
  rw [← Bool.not_eq_true, belowFile_iff, not_exists]
  refine forall_congr' fun a => ?_
  by_cases ha : a < r
  · simp only [ha, and_true, not_not, true_imp_iff]
    exact hfile a ha
  · simp [ha]

lemma applyOps_checkout_ok_iff :
    (∃ w, applyOps rt (deviceContent device) (checkout main) (changes.flatMap workOps) = .ok w) ↔
      Writable main (changes.flatMap workOps) ∧ Removable rt main (changes.flatMap workOps) := by
  rw [applyOps_ok_iff]
  constructor
  · intro h
    have hleads : ∀ done op rest, changes.flatMap workOps = done ++ op :: rest →
        ∃ w, applyOps rt (deviceContent device) (checkout main) done = .ok w := by
      intro done op rest hops
      refine applyOps_ok_iff.mpr fun first o last hdone => h first o (last ++ op :: rest) ?_
      rw [hops, hdone]
      simp
    constructor
    · intro done p rest hops
      obtain ⟨w, hw⟩ := hleads done _ rest hops
      exact (write_succeeds_iff hdiff hops hw).mp (h done _ rest hops w hw)
    intro hrt done r rest hops
    obtain ⟨w, hw⟩ := hleads done _ rest hops
    exact (remove_succeeds_iff hdiff hops hw).mp (h done _ rest hops w hw) hrt
  · rintro ⟨hwrite, hrem⟩ done op rest hops w hw
    cases op with
    | write p => exact (write_succeeds_iff hdiff hops hw).mpr (hwrite done p rest hops)
    | remove r =>
      exact (remove_succeeds_iff hdiff hops hw).mpr fun hrt => hrem hrt done r rest hops

end Success

lemma smudged_get (rt : Runtime) (tree : Tree) (p : Path) : (smudged rt tree).get p
    = (tree.get p).map fun entry => { entry with oid := rt.smudge tree p entry.oid } :=
  get_mapValues _ _ _

@[simp] lemma smudged_eq_none {rt : Runtime} {tree : Tree} :
    (smudged rt tree).get p = none ↔ tree.get p = none := by
  rw [smudged_get, map_eq_none_iff]

/-- A checkout keeps the modes. -/
lemma modeAfterWrite_smudged (rt : Runtime) (tree : Tree) (p : Path) (removed : Bool) :
    modeAfterWrite (if removed then none else (smudged rt tree).get p)
      = modeAfterWrite (if removed then none else tree.get p) := by
  cases removed with
  | true => rfl
  | false =>
    rw [smudged_get]
    cases tree.get p <;> rfl

/-- The files that the work tree has in the end when nothing goes wrong: the device's blobs, and the
other files of main as they are checked out. -/
def workFiles (rt : Runtime) (main base device : Tree) : Path → Option TreeEntry :=
  (disjointMergeTree base (smudged rt main) device).get

/-- When the tree built through a work tree is the tree built through the index, for main's
tree, the natural base, the device's tree and the operations the device's changes cause. -/
structure OverlayFaithful (rt : Runtime) (blobSize : String → Nat) (main base device : Tree)
    (ops : List WorkOp) : Prop where
  printable : Printable blobSize device ops
  writable : Writable main ops
  removable : Removable rt main ops
  /-- No removal comes after a file written below it. -/
  kept : ∀ done r rest, ops = done ++ .remove r :: rest → ∀ p, WorkOp.write p ∈ done → ¬ r ≤ p
  /-- A file of main below a removed path is itself changed, or nested with a written file. -/
  untouched : ∀ x r, main.get x ≠ none → WorkOp.remove r ∈ ops → r < x → WorkOp.write x ∉ ops →
    ∃ p, WorkOp.write p ∈ ops ∧ Nested p x
  /-- A written file that main does not track is not ignored. -/
  tracked : ∀ p, WorkOp.write p ∈ ops → main.get p = none → rt.ignored (workFiles rt main base device) p = false
  /-- The device's mode is the one the work tree gives the file. -/
  modes : ∀ done p rest, ops = done ++ .write p :: rest → ∀ e, device.get p = some e →
    e.mode = modeAfterWrite (if removes done p then none else main.get p)
  /-- Staging converts the bytes of every file to the blob that the file is to have. -/
  staged : ∀ p e f, (disjointMergeTree base main device).get p = some e → workFiles rt main base device p = some f →
    rt.clean main (fun q => (workFiles rt main base device q).map (·.oid)) p f.oid = some e.oid

lemma createOverlayTree_ok_iff {rt : Runtime} {blobSize : String → Nat} {main device tree : Tree} :
    createOverlayTree rt blobSize main device changes [] = .ok tree ↔
      Printable blobSize device (changes.flatMap workOps) ∧
      ∃ w, applyOps rt (deviceContent device) (checkout (smudged rt main))
        (changes.flatMap workOps) = .ok w ∧ addAll rt main w = .ok tree := by
  have hcont : (fun p => (valueAt ([] : List (Path × String)) p).or
      (((device.get p).map (·.oid)).filter fun oid => blobSize oid ≤ maxBuffer))
      = fun p => (deviceContent device p).filter fun oid => blobSize oid ≤ maxBuffer := by
    funext p
    rfl
  have hbuild : createOverlayTree rt blobSize main device changes [] = .ok tree ↔
      ∃ w, applyOps rt (fun p => (deviceContent device p).filter fun oid => blobSize oid ≤ maxBuffer)
        (checkout (smudged rt main)) (changes.flatMap workOps) = .ok w ∧ addAll rt main w = .ok tree := by
    rw [← hcont]
    exact bind_eq_ok
  rw [hbuild]
  simp [applyOps_sized_iff, and_assoc, exists_and_left]

section Trees

variable {rt : Runtime} {base main device : Tree} {changes : List GitDiffEntry} (hdiff : IsDiff base device changes)
include hdiff

lemma wroteBeside_iff : DeviceWroteBeside base device x ↔
    ∃ p, WorkOp.write p ∈ changes.flatMap workOps ∧ Nested p x := by
  constructor
  · rintro ⟨p, hne, hp, hn⟩
    exact ⟨p, (write_mem_ops hdiff).mpr ⟨hne, hp⟩, hn⟩
  rintro ⟨p, hp, hn⟩
  obtain ⟨hne, hsome⟩ := (write_mem_ops hdiff).mp hp
  exact ⟨p, hne, hsome, hn⟩

lemma disjoint_get_of_write (hx : WorkOp.write x ∈ changes.flatMap workOps) :
    (disjointMergeTree base main device).get x = device.get x :=
  disjointMergeTree_of_ne ((write_mem_ops hdiff).mp hx).1

omit hdiff in
/-- The work tree is to have the index-built tree's files, with main's untouched ones checked out. -/
lemma workFiles_eq (p : Path) : workFiles rt main base device p =
    if base.get p = device.get p then ((disjointMergeTree base main device).get p).map
      fun entry => { entry with oid := rt.smudge main p entry.oid }
    else (disjointMergeTree base main device).get p := by
  unfold workFiles
  split
  · rename_i heq
    by_cases hbes : DeviceWroteBeside base device p
    · rw [disjointMergeTree_of_wroteBeside heq hbes, disjointMergeTree_of_wroteBeside heq hbes]
      rfl
    · rw [disjointMergeTree_of_eq heq hbes, disjointMergeTree_of_eq heq hbes, smudged_get]
  · rename_i hne
    rw [disjointMergeTree_of_ne hne, disjointMergeTree_of_ne hne]

omit hdiff in
lemma workFiles_eq_none :
    workFiles rt main base device p = none ↔ (disjointMergeTree base main device).get p = none := by
  rw [workFiles_eq]
  split
  · exact map_eq_none_iff
  · exact Iff.rfl

/-- The finished work tree holds the files that it is to have. -/
lemma files_eq_workFiles {blobSize : String → Nat}
    (hfait : OverlayFaithful rt blobSize main base device (changes.flatMap workOps))
    (h : applyOps rt (deviceContent device) (checkout (smudged rt main))
      (changes.flatMap workOps) = .ok w) (x : Path) : w.files.get x = workFiles rt main base device x := by
  by_cases hx : write x ∈ changes.flatMap workOps
  · obtain ⟨done, rest, hops⟩ := append_of_mem hx
    obtain ⟨⟨hne, hsome⟩, hdone, hrest⟩ := write_split hdiff hops
    obtain ⟨e, he⟩ := ne_none_iff_exists'.mp hsome
    have hkept : removes rest x = false := by
      rw [← Bool.not_eq_true, removes_iff]
      rintro ⟨r, hr, hle⟩
      obtain ⟨middle, last, rfl⟩ := append_of_mem hr
      refine hfait.kept (done ++ .write x :: middle) r last ?_ x (by simp) hle
      rw [hops]
      simp
    rw [hops] at h
    rw [files_of_written hdone hrest h he, hkept, workFiles, disjointMergeTree_of_ne hne, he,
      modeAfterWrite_smudged, ← hfait.modes done x rest hops e he]
    rfl
  · rw [files_of_not_written h hx]
    change (if removes _ x then none else (smudged rt main).get x) = _
    by_cases hne : base.get x = device.get x
    · have hnots : remove x ∉ changes.flatMap workOps := by
        intro hmem
        obtain ⟨hb, hd⟩ := (remove_mem_ops hdiff).mp hmem
        exact hb (hne.trans hd)
      by_cases hbes : DeviceWroteBeside base device x
      · rw [workFiles, disjointMergeTree_of_wroteBeside hne hbes]
        by_cases hmain : main.get x = none
        · simp [hmain]
        obtain ⟨p, hp, hn⟩ := (wroteBeside_iff hdiff).mp hbes
        obtain ⟨done, rest, hops⟩ := append_of_mem hp
        obtain ⟨r, hr, hle, -⟩ := hfait.writable done p rest hops x hmain hn.symm
        have hrch : removes (changes.flatMap workOps) x = true :=
          removes_iff.mpr ⟨r, by simp [hops, hr], hle⟩
        rw [hrch]
        rfl
      · rw [workFiles, disjointMergeTree_of_eq hne hbes]
        split
        · rename_i hrch
          obtain ⟨r, hr, hle⟩ := removes_iff.mp hrch
          by_contra hmain
          have hlt : r < x := lt_of_le_of_ne hle fun heq => hnots (heq ▸ hr)
          exact hbes ((wroteBeside_iff hdiff).mpr
            (hfait.untouched x r (mt smudged_eq_none.mpr (Ne.symm hmain)) hr hlt hx))
        · rfl
    · have hnone : device.get x = none := by
        by_contra hsome
        exact hx ((write_mem_ops hdiff).mpr ⟨hne, hsome⟩)
      have hself : remove x ∈ changes.flatMap workOps :=
        (remove_mem_ops hdiff).mpr ⟨fun hb => hne (hb.trans hnone.symm), hnone⟩
      have hrch : removes (changes.flatMap workOps) x = true :=
        removes_iff.mpr ⟨x, hself, le_rfl⟩
      rw [workFiles, disjointMergeTree_of_ne hne, hnone, hrch]
      rfl

omit hdiff in
/-- A file of the staged tree is a file of the work tree, kept and converted. -/
lemma staged_of_addAll {tree : Tree} (hadd : addAll rt main w = .ok tree) {e : TreeEntry}
    (he : tree.get x = some e) : ((main.get x).isSome || !rt.ignored w.files.get x) = true ∧
      ∃ f, w.files.get x = some f ∧ f.mode = e.mode ∧ rt.clean main w.contents x f.oid = some e.oid := by
  rw [stage_get hadd] at he
  obtain ⟨hkeep, he⟩ := ite_none_right_eq_some.mp he
  obtain ⟨f, hf, he⟩ := bind_eq_some_iff.mp he
  obtain ⟨oid, hoid, rfl⟩ := map_eq_some_iff.mp he
  exact ⟨hkeep, f, hf, rfl, hoid⟩

/-- Where the staged tree is the index-built one, a written file is the device's. -/
lemma files_of_staged {tree : Tree} (h : applyOps rt (deviceContent device) (checkout (smudged rt main))
      (changes.flatMap workOps) = .ok w) (hadd : addAll rt main w = .ok tree)
    (heq : ∀ x, tree.get x = (disjointMergeTree base main device).get x)
    (hx : WorkOp.write x ∈ changes.flatMap workOps) : w.files.get x = device.get x := by
  obtain ⟨done, rest, hops⟩ := append_of_mem hx
  obtain ⟨⟨-, hsome⟩, hdone, hrest⟩ := write_split hdiff hops
  obtain ⟨e, he⟩ := ne_none_iff_exists'.mp hsome
  obtain ⟨-, f, hf, hmode, -⟩ :=
    staged_of_addAll hadd ((heq x).trans ((disjoint_get_of_write hdiff hx).trans he))
  rw [hops] at h
  have hfile := files_of_written hdone hrest h he
  rw [hf] at hfile
  split at hfile
  · cases hfile
  · cases hfile
    rw [hf, he]
    exact congrArg some (congrArg (TreeEntry.mk · e.oid) hmode)

/-- Where the staged tree is the index-built one, the work tree holds the files that it is to have. -/
lemma workFiles_of_eq {tree : Tree} (h : applyOps rt (deviceContent device) (checkout (smudged rt main))
      (changes.flatMap workOps) = .ok w) (hadd : addAll rt main w = .ok tree)
    (heq : ∀ x, tree.get x = (disjointMergeTree base main device).get x) (x : Path) :
    w.files.get x = workFiles rt main base device x := by
  by_cases hx : write x ∈ changes.flatMap workOps
  · rw [files_of_staged hdiff h hadd heq hx, workFiles, disjointMergeTree_of_ne ((write_mem_ops hdiff).mp hx).1]
  have hget := stage_get hadd x
  cases hfile : w.files.get x with
  | none =>
    rw [hfile, bind_none, ite_self, heq] at hget
    exact (workFiles_eq_none).mpr hget |>.symm
  | some f =>
    have hkept := files_of_not_written h hx
    rw [hfile] at hkept
    split at hkept
    · cases hkept
    have hmain : main.get x ≠ none := mt smudged_eq_none.mpr (by
      change (smudged rt main).get x ≠ none
      exact fun hnone => nomatch hkept.trans hnone)
    -- main tracks the file, so it is staged, and the index-built tree has it
    have hkeep : ((main.get x).isSome || !rt.ignored w.files.get x) = true := by
      simp [isSome_iff_ne_none.mpr hmain]
    obtain ⟨oid, hoid⟩ :=
      isSome_iff_exists.mp (stage_succeeds_iff.mp ⟨tree, hadd⟩ x f hkeep hfile)
    rw [if_pos hkeep, hfile, bind_some, hoid, map_some, heq] at hget
    have hbase : base.get x = device.get x := by
      by_contra hne
      rw [disjointMergeTree_of_ne hne] at hget
      exact hx ((write_mem_ops hdiff).mpr ⟨hne, fun hnone => nomatch hget.symm.trans hnone⟩)
    have hbes : ¬ DeviceWroteBeside base device x := fun hbes =>
      nomatch hget.symm.trans (disjointMergeTree_of_wroteBeside hbase hbes)
    rw [workFiles, disjointMergeTree_of_eq hbase hbes]
    exact hkept

lemma faithful_of_eq {blobSize : String → Nat} {tree : Tree}
    (hprn : Printable blobSize device (changes.flatMap workOps))
    (h : applyOps rt (deviceContent device) (checkout (smudged rt main))
      (changes.flatMap workOps) = .ok w) (hadd : addAll rt main w = .ok tree)
    (heq : ∀ x, tree.get x = (disjointMergeTree base main device).get x) :
    OverlayFaithful rt blobSize main base device (changes.flatMap workOps) := by
  obtain ⟨hwrit, hrem⟩ := (applyOps_checkout_ok_iff hdiff).mp ⟨w, h⟩
  have hwritten : ∀ x, write x ∈ changes.flatMap workOps → w.files.get x = device.get x :=
    fun x => files_of_staged hdiff h hadd heq
  have hfile : ∀ x, write x ∈ changes.flatMap workOps → w.files.get x ≠ none := by
    intro x hx
    rw [hwritten x hx]
    exact ((write_mem_ops hdiff).mp hx).2
  have hfiles := funext (workFiles_of_eq hdiff h hadd heq)
  refine ⟨hprn, ?_, ?_, ?_, ?_, ?_, ?_, ?_⟩
  · simpa [Writable] using hwrit
  · simpa [Removable] using hrem
  · intro done r rest hops p hp hle
    obtain ⟨first, last, rfl⟩ := append_of_mem hp
    have hsplit : changes.flatMap workOps = first ++ .write p :: (last ++ .remove r :: rest) := by
      simp [hops]
    obtain ⟨⟨-, hsome⟩, hfirst, hlast⟩ := write_split hdiff hsplit
    obtain ⟨e, he⟩ := ne_none_iff_exists'.mp hsome
    have hrch : removes (last ++ .remove r :: rest) p = true :=
      removes_iff.mpr ⟨r, by simp, hle⟩
    refine hfile p ((write_mem_ops hdiff).mpr (write_split hdiff hsplit).1) ?_
    rw [hsplit] at h
    rw [files_of_written hfirst hlast h he, hrch]
    rfl
  · intro x r hmain hr hlt hx
    by_contra hbes
    have hnone : w.files.get x = none := by
      have hrch : removes (changes.flatMap workOps) x = true :=
        removes_iff.mpr ⟨r, hr, hlt.le⟩
      rw [files_of_not_written h hx, hrch]
      rfl
    have hbase : base.get x = device.get x := by
      by_contra hne
      have hd : device.get x = none := by
        by_contra hsome
        exact hx ((write_mem_ops hdiff).mpr ⟨hne, hsome⟩)
      have hb : base.get x ≠ none := fun hb => hne (hb.trans hd.symm)
      exact not_lt_of_get ((remove_mem_ops hdiff).mp hr).1 hb hlt
    rw [hfiles, workFiles_eq_none, disjointMergeTree_of_eq hbase (mt (wroteBeside_iff hdiff).mp hbes)] at hnone
    exact hmain hnone
  · intro p hp hmain
    obtain ⟨e, he⟩ := ne_none_iff_exists'.mp ((write_mem_ops hdiff).mp hp).2
    have hkeep := (staged_of_addAll hadd ((heq p).trans ((disjoint_get_of_write hdiff hp).trans he))).1
    rw [hfiles] at hkeep
    simpa [hmain] using hkeep
  · intro done p rest hops e he
    obtain ⟨hp, hdone, hrest⟩ := write_split hdiff hops
    have hmem := (write_mem_ops hdiff).mpr hp
    have hget := hwritten p hmem
    have hpres := hfile p hmem
    rw [hops] at h
    rw [files_of_written hdone hrest h he] at hget hpres
    split at hget
    · rename_i hrch
      exact absurd (if_pos hrch) hpres
    · rw [he, modeAfterWrite_smudged] at hget
      exact (congrArg TreeEntry.mode (some.inj hget)).symm
  · intro p e f he hf
    obtain ⟨-, found, hfound, -, hclean⟩ := staged_of_addAll hadd ((heq p).trans he)
    rw [hfiles] at hfound
    cases hfound.symm.trans hf
    have hcont : w.contents = fun q => (workFiles rt main base device q).map (·.oid) := by
      rw [← hfiles]
      rfl
    rwa [hcont] at hclean

/-- The work tree and the index build one tree exactly when the condition holds. -/
lemma overlay_eq_disjoint_iff {blobSize : String → Nat} :
    (∃ tree, createOverlayTree rt blobSize main device changes [] = .ok tree ∧
      ∀ p, tree.get p = (disjointMergeTree base main device).get p) ↔
    OverlayFaithful rt blobSize main base device (changes.flatMap workOps) := by
  constructor
  · rintro ⟨tree, htree, heq⟩
    obtain ⟨hprn, w, hrun, hadd⟩ := createOverlayTree_ok_iff.mp htree
    exact faithful_of_eq hdiff hprn hrun hadd heq
  intro hfait
  obtain ⟨w, hrun⟩ : ∃ w, applyOps rt (deviceContent device) (checkout (smudged rt main))
      (changes.flatMap workOps) = .ok w := (applyOps_checkout_ok_iff hdiff).mpr
    ⟨by simpa [Writable] using hfait.writable, by simpa [Removable] using hfait.removable⟩
  have hfiles := funext (files_eq_workFiles hdiff hfait hrun)
  have hcont : w.contents = fun q => (workFiles rt main base device q).map (·.oid) := by
    rw [← hfiles]
    rfl
  have hclean : ∀ p f, w.files.get p = some f → ∃ e, (disjointMergeTree base main device).get p = some e ∧
        rt.clean main w.contents p f.oid = some e.oid := by
    intro p f hf
    rw [hfiles] at hf
    obtain ⟨e, he⟩ := ne_none_iff_exists'.mp (mt (workFiles_eq_none).mpr fun hnone => nomatch hf.symm.trans hnone)
    exact ⟨e, he, hcont ▸ hfait.staged p e f he hf⟩
  obtain ⟨tree, hadd⟩ := stage_succeeds_iff.mpr fun p f (_ : ((main.get p).isSome ||
    !rt.ignored w.files.get p) = true) hf => by
      obtain ⟨e, -, hoid⟩ := hclean p f hf
      rw [hoid]
      rfl
  refine ⟨tree, createOverlayTree_ok_iff.mpr ⟨hfait.printable, w, hrun, hadd⟩, fun x => ?_⟩
  rw [stage_get hadd]
  cases hf : w.files.get x with
  | none =>
    rw [bind_none, ite_self]
    exact ((workFiles_eq_none).mp ((congrFun hfiles x).symm.trans hf)).symm
  | some f =>
    obtain ⟨e, he, hoid⟩ := hclean x f hf
    have hmode : f.mode = e.mode := by
      have hwork := (congrFun hfiles x).symm.trans hf
      rw [workFiles_eq, he] at hwork
      split at hwork <;> cases hwork <;> rfl
    rw [bind_some, hoid, he, if_pos]
    · exact congrArg some (congrArg (TreeEntry.mk · e.oid) hmode)
    by_cases hmain : main.get x = none
    · -- main does not have the file, so that the device wrote it
      have hx : write x ∈ changes.flatMap workOps := by
        by_contra hx
        have hkept := files_of_not_written hrun hx
        rw [hf] at hkept
        split at hkept
        · cases hkept
        · exact nomatch hkept.trans (smudged_eq_none.mpr hmain)
      have hign := hfait.tracked x hx hmain
      rw [← hfiles] at hign
      rw [hign, Bool.not_false, Bool.or_true]
    · rw [isSome_iff_ne_none.mpr hmain, Bool.true_or]

end Trees

lemma changes_of_identityMerge {point : MergePoint} {overlapping : List Path}
    (h : mergeRoute repo server input = .ok (.identityMerge point changes overlapping)) :
    changes = repo.changedPaths point.naturalBase input.deviceCommit := by
  obtain ⟨point', -, hroute⟩ := contentRoute_of_mergesContent h rfl
  rcases contentRoute_cases repo input point' with ⟨_, _, hcont⟩ | ⟨-, -, _, -, hcont⟩ |
    ⟨_, _, -, hcont⟩ | ⟨-, hcont⟩
  · rw [hcont] at hroute
    cases hroute
  · rw [hcont] at hroute
    cases hroute
    rfl
  · rw [hcont] at hroute
    cases hroute
  · rw [hcont] at hroute
    cases hroute

/-- In the identity-overlap branch the tree built through the work tree is the one the index
would give exactly under `OverlayFaithful`. -/
theorem identityMerge_trees_agree_iff {rt : Runtime} {repo : Repository} {server : Server}
    {input : MergeInput} {point : MergePoint} {changes : List GitDiffEntry} {overlapping : List Path}
    (hroute : mergeRoute repo server input = .ok (.identityMerge point changes overlapping)) :
    (∃ tree, createOverlayTree rt repo.blobSize (repo.tree point.main)
        (repo.tree input.deviceCommit) changes [] = .ok tree ∧
      ∀ p, tree.get p = (disjointMergeTree (repo.tree point.naturalBase) (repo.tree point.main)
        (repo.tree input.deviceCommit)).get p) ↔
    OverlayFaithful rt repo.blobSize (repo.tree point.main) (repo.tree point.naturalBase)
      (repo.tree input.deviceCommit) (changes.flatMap workOps) := by
  obtain rfl := changes_of_identityMerge hroute
  exact overlay_eq_disjoint_iff (repo.isDiff point.naturalBase input.deviceCommit)

def ignoringBase : Tree where
  entries := [(⟨"n/.gitignore"⟩, ⟨.regular, "01"⟩)]
  nodup := by decide
  antichain := by decide

def ignoringMain : Tree where
  entries := [(⟨"n/.gitignore"⟩, ⟨.regular, "01"⟩), (⟨"p.md"⟩, ⟨.regular, "03"⟩)]
  nodup := by decide
  antichain := by decide

/-- The device adds main's new note and a file that the nested ignore file names. -/
def ignoringDevice : Tree where
  entries := [(⟨"n/.gitignore"⟩, ⟨.regular, "01"⟩), (⟨"n/x.log"⟩, ⟨.regular, "04"⟩), (⟨"p.md"⟩, ⟨.regular, "03"⟩)]
  nodup := by decide
  antichain := by decide

/-- Blob `01` is the text `*.log`. -/
def ignoringRuntime : Runtime where
  refusesBelowFile := true
  ignored files p := (files ⟨"n/.gitignore"⟩).map (·.oid) = some "01" && p.text = "n/x.log"
  smudge _ _ oid := oid
  clean _ _ _ oid := some oid

def ignoringRepository : Repository :=
  forkedRepository ignoringBase ignoringMain ignoringDevice

def plainInput : MergeInput :=
  { renamingInput with attestation := none }

def ignoringChanges : List GitDiffEntry := plainDiff ignoringBase ignoringDevice

theorem identityMerge_trees_agree_iff_ignored :
    (∃ tree, createOverlayTree ignoringRuntime ignoringRepository.blobSize ignoringMain
        ignoringDevice ignoringChanges [] = .ok tree ∧
      ∀ p, tree.get p = (disjointMergeTree ignoringBase ignoringMain ignoringDevice).get p) ↔
    OverlayFaithful ignoringRuntime ignoringRepository.blobSize ignoringMain ignoringBase ignoringDevice
      (ignoringChanges.flatMap workOps) :=
  @identityMerge_trees_agree_iff ignoringRuntime ignoringRepository sampleServer plainInput
    forkPoint ignoringChanges [⟨"p.md"⟩] (by decide +kernel)

/-- The work tree loses the device's file; the index keeps it. -/
theorem identityMerge_drops_ignored_file : mergeRoute ignoringRepository sampleServer plainInput
      = .ok (.identityMerge forkPoint ignoringChanges [⟨"p.md"⟩]) ∧
    ∃ tree, createOverlayTree ignoringRuntime ignoringRepository.blobSize ignoringMain
        ignoringDevice ignoringChanges [] = .ok tree ∧ tree.get ⟨"n/x.log"⟩ = none ∧
      (disjointMergeTree ignoringBase ignoringMain ignoringDevice).get ⟨"n/x.log"⟩ = some ⟨.regular, "04"⟩ :=
  ⟨by decide +kernel, _, rfl, by decide +kernel, by decide +kernel⟩

end OverlayMerge
