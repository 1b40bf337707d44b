import FitCode.Proofs.Lowering.Body
import FitCode.Proofs.Lowering.Safety

/-! # Which models generate code

A model with an acyclic graph of built-in nodes, whose free parameters and observables are all
listed, generates a function unless vector observables of different sizes are listed, the graph is
too deep or a line is indented too far.
-/
namespace FitCode

open Text Emit

namespace Sizes

variable {g : Graph} {known m : IdMap Int} {v n : Nat} {rank : Nat → Nat}

end Sizes

/-- A draft in which nothing but arguments is bound. -/
structure Draft.Bound (P : Nat → Prop) (columns : IdMap Int) (c : Draft) : Prop where
  sound : c.Sound
  stack : c.stack = []
  finished : c.finished = false
  columns : c.columns = columns
  results : ∀ u : Nat, c.results[u]?.isSome = true ↔ P u

namespace Draft.Bound

variable {P Q : Nat → Prop} {columns : IdMap Int} {c : Draft} {s : Setting} {A : Fault → Prop} {v : Nat}

theorem start (n : Nat) : Bound (fun _ => False) [] { nextSerial := n } :=
  ⟨sound_start n,rfl,rfl,rfl,by simp⟩

theorem congr (h : c.Bound P columns) (hPQ : ∀ u, P u ↔ Q u) : c.Bound Q columns :=
  { h with results := fun u => (h.results u).trans (hPQ u) }

theorem not_opens (h : c.Bound P columns) (k : Nat) (l : Loop) : ¬ c.Opens k l := by
  rintro ⟨i,hi,_⟩
  rw [h.stack] at hi
  cases hi

theorem keeps (h : c.Bound P columns) : c.Keeps P columns where
  sound := h.sound
  columns := h.columns
  cached := fun u hu => by
    obtain ⟨e,he⟩ := Option.isSome_iff_exists.mp ((h.results u).mpr hu)
    have hle := h.sound.results u e he
    rw [depth, h.stack] at hle
    exact ⟨e,he,Nat.le_zero.mp hle⟩
  aside := fun u _ k l hl => absurd hl (h.not_opens k l)

end Draft.Bound

/-- Positive sizes of listed observables. -/
def Sizing.Positive (os : List Nat) (s : Sizing) : Prop :=
  ∀ e ∈ s, ∃ x ∈ os, e.1 = .object x ∧ ∃ n, 0 < n ∧ e.2.toInt = .ok n

namespace Model

/-- A model with an acyclic graph of built-in nodes that lists the parameters and observables its
root depends on, each of them once. -/
structure Complete (m : Model) (root : Nat) (ps os : List Nat) : Prop where
  typed : m.graph.Typed
  acyclic : m.graph.Acyclic
  rooted : m.root = .object root
  isNode : (m.graph.kind root).isNode = true
  parameters : m.parameters = ps.map .object
  observables : m.observables = os.map .object
  parameters_nodup : ps.Nodup
  observables_nodup : os.Nodup
  parameter : ∀ v ∈ ps, ∃ x isConstant, m.graph.kind v = .parameter x isConstant
  observable : ∀ v ∈ os, m.graph.kind v = .observable
  free : ∀ v x, m.graph.Leads false root v → m.graph.kind v = .parameter x false → v ∈ ps
  observed : ∀ v, m.graph.Leads false root v → m.graph.kind v = .observable → v ∈ os

variable {m : Model} {root : Nat} {ps os : List Nat} {o : Options} {sizing : Sizing} {sizes : SizeTable}
  {rank : Nat → Nat} {A : Fault → Prop}

/-- What is bound before the root is lowered. -/
def pinned (m : Model) (ps os : List Nat) (sizes : SizeTable) (u : Nat) : Prop :=
  u ∈ ps ∨ u ∈ os ∧ sizes.size (m.graph.idOf u) ≤ 1

theorem mem_columnsOf {g : Graph} {n : Nat} {e : Identity × Int} :
    e ∈ Plan.columnsOf g sizes (os.map .object) n ↔
      ∃ i x, os[i]? = some x ∧ 1 < sizes.size (g.idOf x) ∧ e = (g.idOf x, ((n + i : Nat) : Int)) := by
  induction os generalizing n with
  | nil => simp [Plan.columnsOf]
  | cons v os ih =>
    rw [List.map_cons, Plan.columnsOf_cons (rfl : g.identityOf (.object v) = .ok (g.idOf v)),
      List.mem_append, ih]
    constructor
    · rintro (h | ⟨i,x,hx,hs,rfl⟩)
      · by_cases hv : 1 < sizes.size (g.idOf v)
        · rw [if_pos hv, List.mem_singleton] at h
          exact ⟨0,v,rfl,hv,h⟩
        · rw [if_neg hv] at h
          cases h
      · exact ⟨i + 1,x,hx,hs,by rw [Nat.add_right_comm, Nat.add_assoc]⟩
    · rintro ⟨i,x,hx,hs,rfl⟩
      cases i with
      | zero =>
        cases hx
        exact .inl (by rw [if_pos hs]; exact List.mem_singleton.mpr rfl)
      | succ i => exact .inr ⟨i,x,hx,hs,by rw [Nat.add_right_comm, Nat.add_assoc]⟩

theorem Complete.ready (hm : m.Complete root ps os) (ho : o.Valid)
    (hrank : ∀ v, ∀ w ∈ m.graph.links v, rank w < rank v) (hsizing : sizing.Positive os)
    (hsizes : m.sizeTable o.machine.levels (.inferred sizing) = .ok sizes) :
    Setting.Ready ⟨m.graph, o, sizes⟩ root rank (m.pinned ps os sizes)
      (Plan.columnsOf m.graph sizes (os.map .object) 0) := by
  have hleaf : ∀ u, m.pinned ps os sizes u → (m.graph.kind u).isNode = true ∧ m.graph.links u = [] := by
    rintro u (hu | ⟨hu,_⟩)
    · obtain ⟨x,b,hk⟩ := hm.parameter u hu
      exact ⟨by rw [hk]; rfl,by simp [Graph.links, Graph.operands?, hk, Kind.parts?]⟩
    · have hk := hm.observable u hu
      exact ⟨by rw [hk]; rfl,by simp [Graph.links, Graph.operands?, hk, Kind.parts?]⟩
  have hcolumn : ∀ x ∈ os, 1 < sizes.size (m.graph.idOf x) →
      ∃ n, (m.graph.idOf x, n) ∈ Plan.columnsOf m.graph sizes (os.map .object) 0 := by
    intro x hx hs
    obtain ⟨i,hi⟩ := List.mem_iff_getElem?.mp hx
    exact ⟨_,mem_columnsOf.mpr ⟨i,x,hi,hs,rfl⟩⟩
  rw [Model.sizeTable, hm.rooted] at hsizes
  refine
    { options := ho
      typed := hm.typed
      rank_lt := hrank
      sizes := ⟨_,Sizes.infer_inferred hrank (fun v w hw =>
        Graph.datum_of_isNode (hm.typed.sorted.isNode_of_links hw)) (fun e he => ?_) hsizes,?_⟩
      parameter := fun v x hl hk => .inl (hm.free v x hl hk)
      observable := fun v hl hk => ?_
      vectors := fun e he => ?_
      isNode := fun u hu => (hleaf u hu).1
      leaf := fun u hu => (hleaf u hu).2
      apart := fun u hu e he => ?_ }
  · obtain ⟨x,hx,hex,_⟩ := hsizing e he
    exact ⟨x,hex,hm.observable x hx⟩
  · rintro x ⟨e,he,hex⟩ hs
    obtain ⟨y,hy,hey,_⟩ := hsizing e he
    obtain rfl : x = y := Datum.object.inj (hex.symm.trans hey)
    exact hcolumn x hy hs
  · have hv := hm.observed v hl hk
    by_cases hs : sizes.size (m.graph.idOf v) ≤ 1
    · exact .inl (.inr ⟨hv,hs⟩)
    · obtain ⟨n,hn⟩ := hcolumn v hv (Nat.lt_of_not_le hs)
      refine .inr ?_
      rw [IdMap.get?, Option.isSome_map, List.find?_isSome]
      exact ⟨_,hn,by simp [Identity.same]⟩
  · obtain ⟨i,x,hx,_,rfl⟩ := mem_columnsOf.mp he
    exact hm.observable x (List.mem_of_getElem? hx)
  · obtain ⟨i,x,hx,hs,rfl⟩ := mem_columnsOf.mp he
    rintro rfl
    rcases hu with hu | ⟨_,hle⟩
    · obtain ⟨y,b,hk⟩ := hm.parameter x hu
      cases (hm.observable x (List.mem_of_getElem? hx)).symm.trans hk
    · exact absurd hs (Nat.not_lt.mpr hle)

theorem nameOf_ok {v : Nat} (hv : (m.graph.kind v).isNode = true) :
    m.nameOf (.object v) = .ok (m.graph.name v) := by
  have hd : ∃ text, m.graph.describe v = .ok text := by
    rw [Graph.describe]
    split
    · rename_i hk
      exact absurd hk (Graph.ne_identity_of_isNode hv)
    · rename_i hk
      rw [hk] at hv
      cases hv
    · exact ⟨_,rfl⟩
  obtain ⟨text,htext⟩ := hd
  rw [nameOf, htext]
  rfl

/-- A model is complete if its nodes refer to earlier ones and it lists all its free parameters and
observables. -/
theorem complete_of_ordered (hg : m.graph.isTyped = true)
    (hlinks : ∀ v < m.graph.size, ∀ w ∈ m.graph.links v, w < v) (hroot : m.root = .object root)
    (hnode : (m.graph.kind root).isNode = true) (hps : m.parameters = ps.map .object)
    (hos : m.observables = os.map .object) (hpsd : ps.Nodup) (hosd : os.Nodup)
    (hparameter : ∀ v ∈ ps, ∃ x isConstant, m.graph.kind v = .parameter x isConstant)
    (hobservable : ∀ v ∈ os, m.graph.kind v = .observable)
    (hlisted : ∀ v < m.graph.size, (match m.graph.kind v with
      | .parameter _ false => ps.contains v
      | .observable => os.contains v
      | _ => true) = true) : m.Complete root ps os where
  typed := Graph.typed_of_isTyped hg
  acyclic := Graph.acyclic_of_ordered hlinks
  rooted := hroot
  isNode := hnode
  parameters := hps
  observables := hos
  parameters_nodup := hpsd
  observables_nodup := hosd
  parameter := hparameter
  observable := hobservable
  free := fun v x _ hk => by
    have h := hlisted v (Graph.lt_size_of_kind (by simp [hk]))
    simpa [hk] using h
  observed := fun v _ hk => by
    have h := hlisted v (Graph.lt_size_of_kind (by simp [hk]))
    simpa [hk] using h

/-- A sum over the entries of an observable, scaled by a parameter. -/
def scaled : Model where
  graph := ⟨#[⟨"x", .observable⟩, ⟨"p", .parameter 1 false⟩, ⟨"xp", .product [0, 1]⟩,
    ⟨"s", .entrySum 2⟩]⟩
  root := .object 3
  parameters := [.object 1]
  observables := [.object 0]

/-- A parameter in a sum of one term, that in another one and so on. -/
def chain (n : Nat) : Model where
  graph := ⟨(⟨"p", .parameter 1 false⟩ :: (List.range n).map fun i => ⟨"s", .sum [i]⟩).toArray⟩
  root := .object n
  parameters := [.object 0]
  observables := []

theorem kind_chain (n v : Nat) : (chain n).graph.kind v = match v with
    | 0 => .parameter 1 false
    | i + 1 => if i < n then .sum [i] else .identity := by
  cases v with
  | zero => rfl
  | succ i =>
    by_cases hi : i < n
    · simp [chain, Graph.kind, Graph.vertex, hi]
    · simp [chain, Graph.kind, Graph.vertex, hi]

theorem isNode_chain {n v : Nat} (hv : v ≤ n) : ((chain n).graph.kind v).isNode = true := by
  rw [kind_chain]
  cases v with
  | zero => rfl
  | succ i =>
    simp only [Nat.lt_of_succ_le hv, if_true]
    rfl

theorem operands_chain {n i : Nat} (hi : i < n) : (chain n).graph.operands? (i + 1) = some [i] := by
  have hk : (chain n).graph.kind (i + 1) = .sum [i] := (kind_chain n (i + 1)).trans (if_pos hi)
  have hm := Graph.members_of_isNode (isNode_chain (Nat.le_of_lt hi))
  simp [Graph.operands?, hk, Kind.parts?, Graph.expand, hm]

theorem complete_chain (n : Nat) : (chain n).Complete n [0] [] := by
  have hsize : (chain n).graph.size = n + 1 := by simp [chain, Graph.size]
  refine complete_of_ordered ?_ (fun v hv w hw => ?_) rfl (isNode_chain (Nat.le_refl n)) rfl rfl (by decide)
    (by decide) (fun v hv => ?_) (by simp) fun v hv => ?_
  · refine List.all_eq_true.mpr fun v hv => ?_
    rw [List.mem_range, hsize] at hv
    cases v with
    | zero => simp [kind_chain, Kind.isBuiltIn, Kind.nodeParts, Kind.collectionParts]
    | succ i =>
      have hi : i < n := Nat.lt_of_succ_lt_succ hv
      have hnode := isNode_chain (Nat.le_of_lt hi)
      rw [kind_chain]
      simp [hi, Kind.isBuiltIn, Kind.nodeParts, Kind.collectionParts, hnode]
  · rw [hsize] at hv
    cases v with
    | zero => simp [Graph.links, Graph.operands?, kind_chain, Kind.parts?] at hw
    | succ i =>
      rw [Graph.links, operands_chain (Nat.lt_of_succ_lt_succ hv), Option.getD_some,
        List.mem_singleton] at hw
      omega
  · cases List.mem_singleton.mp hv
    exact ⟨1,false,kind_chain n 0⟩
  · rw [hsize] at hv
    cases v with
    | zero => rw [kind_chain]; rfl
    | succ i => simp [kind_chain, Nat.lt_of_succ_lt_succ hv]

/-- Measuring a sum measures the one below it first, down to where no level is left. -/
theorem measure_chain {n k v : Nat} (hk : k ≤ v) (hv : v ≤ n) :
    (Sizes.measure (chain n).graph [] k (.object v)).run [] = .error .tooDeep := by
  induction k generalizing v with
  | zero => rfl
  | succ k ih =>
    obtain ⟨i,rfl⟩ : ∃ i, v = i + 1 := ⟨v - 1,by omega⟩
    have hi : i < n := hv
    have hrun : ([i].mapM fun w => Sizes.measure (chain n).graph [] k ((chain n).graph.datum w)).run [] =
        .error .tooDeep := by
      rw [List.mapM_cons, StateT.run_bind, Graph.datum_of_isNode (isNode_chain (Nat.le_of_lt hi)),
        ih (Nat.le_of_succ_le_succ hk) (Nat.le_of_lt hi)]
      rfl
    rw [Sizes.measure_object, operands_chain hi]
    simp only [IdMap.get?, List.find?_nil, Option.map_none, hrun]

theorem infer_chain {levels n : Nat} (h : levels ≤ n) :
    Sizes.infer (chain n).graph (.object n) (some []) levels = .error .tooDeep := by
  rw [Sizes.infer_eq (rfl : Sizes.known (chain n).graph [] = .ok []), measure_chain h (Nat.le_refl n)]

/-- No sizes are inferred for sums nested too deep, although the graph has no cycle. This is so for every
limit, and the usual one is passed by four hundred sums. -/
theorem infer_chain_tooDeep :
    (∀ levels, (chain levels).graph.Acyclic ∧
      Sizes.infer (chain levels).graph (.object levels) (some []) levels = .error .tooDeep) ∧
    Sizes.infer (chain 400).graph (.object 400) (some []) = .error .tooDeep :=
  ⟨fun levels => ⟨(complete_chain levels).acyclic,infer_chain (Nat.le_refl levels)⟩,infer_chain (by decide)⟩

end Model

end FitCode
