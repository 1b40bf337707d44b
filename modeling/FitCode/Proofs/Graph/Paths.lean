import FitCode.Graph.Query
import FitCode.Proofs.Graph.Typed
import Mathlib.Data.List.Chain

/-! # Dependence as the existence of a path

A node depends on what a path of operands leads to. If the search stops at reducers, none of them
stands strictly inside of the path; its ends may be reducers. Graphs may have cycles here.
-/
namespace FitCode.Graph

variable {g : Graph} {stop : Bool} {v w t : Nat}

/-- Operands are nodes or collections of nodes. -/
def OfNodes (g : Graph) : Prop := ∀ v, ∀ w ∈ g.links v, (g.kind w).isNode = true

/-- A path of zero or more steps from a vertex to one of its operands, collections being expanded. -/
def HasPath (g : Graph) (stop : Bool) (v t : Nat) : Prop :=
  v = t ∨ ∃ inner : List Nat, (v :: (inner ++ [t])).IsChain (fun a b => b ∈ g.operands a) ∧
    (stop = true → ∀ m ∈ inner, (g.kind m).isReducer = false)

theorem ofNodes_of_lt (h : ∀ v < g.size, ∀ w ∈ g.links v, (g.kind w).isNode = true) : g.OfNodes := by
  intro v w hw
  refine h v (lt_size_of_kind fun hk => ?_) w hw
  simp [links, operands?, hk, Kind.parts?, Kind.members?] at hw

theorem links_of_isNode (hv : (g.kind v).isNode = true) : g.links v = g.operands v := by
  obtain ⟨ws,hws⟩ := Option.isSome_iff_exists.mp hv
  simp [links, operands, operands?, hws]

theorem isOpen_iff : g.isOpen stop v ↔ (stop = true → (g.kind v).isReducer = false) := by
  rw [isOpen, not_and, Bool.not_eq_true]

theorem HasPath.step (hw : w ∈ g.operands v) (ho : w = t ∨ g.isOpen stop w) (h : g.HasPath stop w t) :
    g.HasPath stop v t := by
  have hdirect : w = t → g.HasPath stop v t := by
    rintro rfl
    exact .inr ⟨[],by simpa using hw,by simp⟩
  rcases h with rfl | ⟨inner,hchain,hinner⟩
  · exact hdirect rfl
  · rcases ho with rfl | ho
    · exact hdirect rfl
    · refine .inr ⟨w :: inner,?_,fun hs m hm => ?_⟩
      · rw [List.cons_append, List.isChain_cons_cons]
        exact ⟨hw,hchain⟩
      · rcases List.mem_cons.mp hm with rfl | hm
        · exact isOpen_iff.mp ho hs
        · exact hinner hs m hm

theorem Leads.hasPath (hg : g.OfNodes) (hv : (g.kind v).isNode = true) (h : g.Leads stop v t) :
    g.HasPath stop v t := by
  induction h with
  | refl v => exact .inl rfl
  | @step v w t hw ho _ ih =>
    rw [links_of_isNode hv] at hw
    exact .step hw ho (ih (hg v w (by rwa [links_of_isNode hv])))

theorem HasPath.leads (hg : g.OfNodes) (hv : (g.kind v).isNode = true) (h : g.HasPath stop v t) :
    g.Leads stop v t := by
  rcases h with rfl | ⟨inner,hchain,hinner⟩
  · exact .refl v
  · induction inner generalizing v with
    | nil =>
      rw [List.nil_append, List.isChain_cons_cons, ← links_of_isNode hv] at hchain
      exact .step hchain.1 (.inl rfl) (.refl t)
    | cons w inner ih =>
      rw [List.cons_append, List.isChain_cons_cons, ← links_of_isNode hv] at hchain
      have hopen : g.isOpen stop w := isOpen_iff.mpr fun hs => hinner hs w (by simp)
      have hrest := ih (hg v w hchain.1) hchain.2 fun hs m hm => hinner hs m (by simp [hm])
      exact .step hchain.1 (.inr hopen) hrest

theorem leads_iff_hasPath (hg : g.OfNodes) (hv : (g.kind v).isNode = true) :
    g.Leads stop v t ↔ g.HasPath stop v t := ⟨Leads.hasPath hg hv,HasPath.leads hg hv⟩

theorem reaches_node_iff (hg : g.OfNodes) (hv : (g.kind v).isNode = true) (t : Nat) (stop : Bool) :
    ∃ b, g.reaches v t stop = .ok b ∧ (b = true ↔ g.HasPath stop v t) := by
  obtain ⟨b,hb⟩ := reaches_node_ok hg hv t stop
  refine ⟨b,hb,?_⟩
  rw [← leads_iff_hasPath hg hv]
  refine nodeReaches_eq ?_
  rw [reaches] at hb
  split at hb
  · cases hb
  · rename_i ms hk
    rw [hk] at hv
    cases hv
  · exact hb

/-- The search from a collection answers whether there is a path from one of its members. -/
theorem reaches_members_iff (hg : g.OfNodes) {ms : List Nat} (hv : g.kind v = .collection ms) (t : Nat)
    (stop : Bool) : ∃ b, g.reaches v t stop = .ok b ∧
      (b = true ↔ ∃ m ∈ ms, (m = t ∨ g.isOpen stop m) ∧ g.HasPath stop m t) := by
  have hlinks : g.links v = ms := by simp [links, operands?, hv, Kind.parts?, Kind.members?]
  have hms : ∀ m ∈ ms, (g.kind m).isNode = true := fun m hm => hg v m (hlinks ▸ hm)
  obtain ⟨b,hb⟩ := anyReaches_ok hg t stop (g.membersReach t stop g.size) hms
  refine ⟨b,by rw [reaches, hv]; exact hb,?_⟩
  rw [anyReaches_eq (.inr fun m hm => members_of_isNode (hms m hm)) hb]
  refine exists_congr fun m => and_congr_right fun hm => ?_
  rw [leads_iff_hasPath hg (hms m hm)]

/-- Whether a node or a collection depends on another object is always answered, and the answer is
whether a path leads there. A search that stops at reducers does not go on from a member of a collection
that is one. -/
theorem reachesDatum_iff_hasPath (hg : g.OfNodes) (stop : Bool) {d : Datum} {target : Identity}
    (hd : g.identityOf d = .ok target) :
    (∀ v, (g.kind v).isNode = true → ∃ b, g.reachesDatum (.object v) d stop = .ok b ∧
      (b = true ↔ g.HasPath stop v target.serial)) ∧
    ∀ v ms, g.kind v = .collection ms → ∃ b, g.reachesDatum (.object v) d stop = .ok b ∧
      (b = true ↔ ∃ m ∈ ms, (m = target.serial ∨ (stop = true → (g.kind m).isReducer = false)) ∧
        g.HasPath stop m target.serial) := by
  have hask : ∀ v, g.reachesDatum (.object v) d stop = g.reaches v target.serial stop := by
    intro v
    rw [reachesDatum, hd]
    rfl
  constructor
  · intro v hv
    rw [hask]
    exact reaches_node_iff hg hv target.serial stop
  · intro v ms hv
    rw [hask]
    simpa only [isOpen_iff] using reaches_members_iff hg hv target.serial stop

/-- The vector observables that a node or a collection depends on are always found. -/
theorem OfNodes.exists_inputs {s : Setting} (hg : s.graph.OfNodes) (c : Draft)
    (hv : (s.graph.kind v).isNode = true ∨ ∃ ms, s.graph.kind v = .collection ms) :
    ∃ ids, s.inputs c (.object v) = .ok ids := by
  have hok : ∀ t, ∃ b, s.graph.reaches v t true = .ok b := by
    intro t
    rcases hv with hv | ⟨ms,hv⟩
    · exact reaches_node_ok hg hv t true
    · obtain ⟨b,hb,-⟩ := reaches_members_iff hg hv t true
      exact ⟨b,hb⟩
  have hfilter := List.filterM_eq_ok.mpr ⟨fun (e : Identity × Int) (_ : e ∈ c.columns) => hok e.1.serial,rfl⟩
  exact ⟨_,by rw [Setting.inputs, hfilter]; rfl⟩

/-- Two nodes on a cycle, a reducer on a second one, an observable and a collection. -/
def knot : Graph := ⟨#[⟨"x", .observable⟩, ⟨"s", .sum [2, 3]⟩, ⟨"p", .product [1, 0]⟩,
  ⟨"r", .entrySum 1⟩, ⟨"c", .collection [3, 1]⟩]⟩

/-- On a cycle the search ends, and it answers that the sum depends on the observable. -/
theorem reachesDatum_iff_hasPath_knot : knot.OfNodes ∧
    (∃ b, knot.reachesDatum (.object 1) (.object 0) true = .ok b ∧
      (b = true ↔ knot.HasPath true 1 0)) ∧ knot.reachesDatum (.object 1) (.object 0) true = .ok true := by
  have hg : knot.OfNodes := ofNodes_of_lt (by decide)
  exact ⟨hg,(reachesDatum_iff_hasPath hg true (d := .object 0) rfl).1 1 (by decide),by decide +kernel⟩

end FitCode.Graph
