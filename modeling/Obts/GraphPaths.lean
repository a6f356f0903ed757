import Obts.BreadthFirst
import Obts.ProjectionWrites
import Obts.ReadScope

/-!
# Paths through the links

A path from note to note follows link rows and passes only what the caller may read. It is searched in
breadth, over pages of the targets of each note found.
-/
namespace GraphPaths

open AccessPolicies BreadthFirst InsertionOrder RustText ReadScope List
open ProjectionTables (pageAfter keysLeft keysLeft_last)

/-- The rows of the notes, whose ids are their paths, and of their links. -/
structure LinkGraph extends Tables where
  links : List ProjectionTables.LinkRow
  named : ∀ n ∈ notes, n.id ≠ ""

structure PathResponse where
  (source target : String)
  path : Option (List String)
  length : Option Nat

/-- The loop over the pages, from the keys after a key on. -/
def targetsAfter (keys : List String) (after : String) (targets : List String) : List String :=
  match _h : (pageAfter keys after).getLast? with
  | none => targets
  | some last => targetsAfter keys last (targets ++ pageAfter keys after)
termination_by keysLeft keys after
decreasing_by exact keysLeft_last _h

def sqlLinkTargets (graph : LinkGraph) (id : String) : List String :=
  targetsAfter ((graph.links.filter (·.sourceId = id)).map (·.targetId)) "" []

section Search
variable (regex : String → Option (String → Bool)) (config : AuthorizationConfig) (auth : AuthContext)
variable (now : Int) (graph : LinkGraph)

def sqlAuthorized (id : String) : Bool :=
  (graph.notes.find? (·.id = id)).any fun n =>
    policyAllows regex config auth .read (policyNote graph.toTables n) now

/-- No more turns are needed than there are rows of links and two. -/
def sqlPath (source target : String) : Option PathResponse :=
  if sqlAuthorized regex config auth now graph source && sqlAuthorized regex config auth now graph target then
    (run (sqlLinkTargets graph) (sqlAuthorized regex config auth now graph) target
      (graph.links.length + 1) (graph.links.length + 2) (start source)).map fun path =>
        ⟨source, target, path, path.map fun path => path.length - 1⟩
  else some ⟨source, target, none, none⟩

/-- A step along a row to a note that the caller may read. -/
def Links (a b : String) : Prop :=
  (∃ row ∈ graph.links, row.sourceId = a ∧ row.targetId = b) ∧ sqlAuthorized regex config auth now graph b = true

end Search

section Targets
variable {keys targets : List String} {after key : String}

lemma mem_sorted_iff : key ∈ sortBy byteOrder (keys.filter fun key => byteOrder after key = .lt) ↔
    key ∈ keys ∧ byteOrder after key = .lt := by
  rw [mem_sortBy, mem_filter, decide_eq_true_eq]

/-- A page holds every key up to its last one. -/
lemma mem_pageAfter_or {last : String} (hlast : (pageAfter keys after).getLast? = some last)
    (hkey : key ∈ keys) (hafter : byteOrder after key = .lt) :
    key ∈ pageAfter keys after ∨ byteOrder last key = .lt := by
  refine (mem_page (mem_filter.mpr ⟨hkey, decide_eq_true hafter⟩) hlast).elim .inl fun hle => ?_
  cases horder : byteOrder last key with
  | lt => exact .inr rfl
  | eq => exact .inl (byteOrder_eq horder ▸ mem_of_getLast? hlast)
  | gt =>
    rw [horder] at hle
    cases hle

lemma mem_targetsAfter : key ∈ targetsAfter keys after targets ↔
    key ∈ targets ∨ key ∈ keys ∧ byteOrder after key = .lt := by
  fun_induction targetsAfter keys after targets with
  | case1 after targets hlast =>
    refine ⟨.inl, fun h => h.resolve_right fun hkey => ?_⟩
    have hnil : pageAfter keys after = [] := getLast?_eq_none_iff.mp hlast
    rw [pageAfter, take_eq_nil_iff] at hnil
    have hmem := mem_sorted_iff.mpr hkey
    rw [hnil.resolve_left (by decide)] at hmem
    cases hmem
  | case2 after targets last hlast ih =>
    rw [ih, mem_append, or_assoc]
    refine or_congr_right ⟨?_, fun ⟨hkey, hafter⟩ => ?_⟩
    · rintro (hpage | ⟨hkey, hlater⟩)
      · exact mem_sorted_iff.mp (mem_of_mem_take hpage)
      · have hafter := (mem_sorted_iff.mp (mem_of_mem_take (mem_of_getLast? hlast))).2
        exact ⟨hkey, Std.TransCmp.lt_trans hafter hlater⟩
    · exact (mem_pageAfter_or hlast hkey hafter).imp_right fun hlater => ⟨hkey, hlater⟩

lemma mem_sqlLinkTargets {graph : LinkGraph} {id : String} : key ∈ sqlLinkTargets graph id ↔
    (∃ row ∈ graph.links, row.sourceId = id ∧ row.targetId = key) ∧ byteOrder "" key = .lt := by
  rw [sqlLinkTargets, mem_targetsAfter, or_iff_right not_mem_nil]
  simp [and_assoc]

/-- Two notes, and a link from the one to the other. -/
def sampleGraph : LinkGraph where
  notes := [⟨"a.md", "a.md", "a", none, none, 0⟩, ⟨"b.md", "b.md", "b", none, none, 0⟩]
  tags := []
  links := [⟨"a.md", "b.md", 0⟩]
  named := by simp

example : "b.md" ∈ sqlLinkTargets sampleGraph "a.md" :=
  mem_sqlLinkTargets.mpr ⟨⟨_, mem_cons_self, by decide⟩, by decide⟩

end Targets

variable {regex : String → Option (String → Bool)} {config : AuthorizationConfig} {auth : AuthContext}
variable {now : Int} {graph : LinkGraph} {source target : String}

lemma step_eq_links : Step (sqlLinkTargets graph) (sqlAuthorized regex config auth now graph)
    = Links regex config auth now graph := by
  funext a b
  refine propext (and_congr_left fun hread => mem_sqlLinkTargets.trans (and_iff_left ?_))
  obtain ⟨n, hn, -⟩ := (Option.any_eq_true _ _).mp hread
  obtain rfl : n.id = b := by simpa using find?_some hn
  exact byteOrder_empty (graph.named n (mem_of_find?_eq_some hn))

/-- A shortest chain of links through notes that may be read is found when there is one. -/
theorem sqlPath_shortest (regex : String → Option (String → Bool)) (config : AuthorizationConfig)
    (auth : AuthContext) (now : Int) (graph : LinkGraph) (source target : String) :
    ∃ response, sqlPath regex config auth now graph source target = some response ∧
      response.source = source ∧ response.target = target ∧
      ((sqlAuthorized regex config auth now graph source = true ∧
          sqlAuthorized regex config auth now graph target = true ∧
          ∃ chain, Leads (Links regex config auth now graph) source chain target) →
        ∃ path, response.path = some path ∧ response.length = some (path.length - 1) ∧
          Leads (Links regex config auth now graph) source path target ∧
          ∀ chain, Leads (Links regex config auth now graph) source chain target → path.length ≤ chain.length) ∧
      (¬ (sqlAuthorized regex config auth now graph source = true ∧
          sqlAuthorized regex config auth now graph target = true ∧
          ∃ chain, Leads (Links regex config auth now graph) source chain target) →
        response.path = none ∧ response.length = none) := by
  rw [sqlPath]
  split
  · rename_i hread
    rw [Bool.and_eq_true] at hread
    have hnodes : ∀ u, sqlLinkTargets graph u ⊆ source :: graph.links.map (·.targetId) := by
      intro u v hv
      obtain ⟨⟨row, hrow, -, rfl⟩, -⟩ := mem_sqlLinkTargets.mp hv
      exact mem_cons_of_mem _ (mem_map_of_mem hrow)
    obtain ⟨answer, hrun, hans⟩ : ∃ answer, run (sqlLinkTargets graph)
        (sqlAuthorized regex config auth now graph) target (graph.links.length + 1)
        (graph.links.length + 2) (start source) = some answer ∧ Answers _ source target answer :=
      run_spec mem_cons_self hnodes (by simp) (by simp) searched_start not_mem_nil
    rw [step_eq_links] at hans
    rw [hrun]
    refine ⟨_, rfl, rfl, rfl, fun ⟨_, _, chain, hchain⟩ => ?_, fun hno => ?_⟩
    · cases answer with
      | none => exact absurd hchain (hans chain)
      | some path => exact ⟨path, rfl, rfl, hans⟩
    cases answer with
    | none => exact ⟨rfl, rfl⟩
    | some path => exact absurd ⟨hread.1, hread.2, path, hans.1⟩ hno
  · rename_i hread
    rw [Bool.and_eq_true] at hread
    exact ⟨_, rfl, rfl, rfl, fun h => absurd ⟨h.1, h.2.1⟩ hread, fun _ => ⟨rfl, rfl⟩⟩

end GraphPaths
