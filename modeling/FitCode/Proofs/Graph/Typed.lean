import FitCode.Proofs.Graph.Measure
import FitCode.Proofs.Lowering.Refine
import FitCode.Proofs.Lowering.Requests

/-! # Graphs with nodes where nodes are expected

In such a graph every question about dependence has an answer, and what is touched on the way to a
node is what the node depends on.
-/
namespace FitCode

open Text

namespace Kind

/-- The operands that have to be nodes, and the members of a collection. -/
def nodeParts : Kind → List Nat
  | sum ts => ts
  | product fs => fs
  | formula _ as => as
  | gaussian x mean sigma => [x, mean, sigma]
  | exponential x c => [x, c]
  | polynomial x _ _ => [x]
  | entrySum t => [t]
  | negLogLikelihood t => [t]
  | collection ms => ms
  | _ => []

/-- The operands that have to be collections. -/
def collectionParts : Kind → List Nat
  | polynomial _ cs _ => [cs]
  | mixture ds cs => [ds, cs]
  | _ => []

theorem mem_targets_of_nodeParts {k : Kind} {w : Nat} (hw : w ∈ k.nodeParts) : w ∈ k.targets := by
  cases k <;> simp_all [nodeParts, targets, parts?, members?]

end Kind

/-- Built-in nodes with operands of the right sort. -/
structure Graph.Sorted (g : Graph) : Prop where
  kinds : ∀ v < g.size, (g.kind v).isBuiltIn = true
  nodes : ∀ v, ∀ w ∈ (g.kind v).nodeParts, (g.kind w).isNode = true
  collections : ∀ v, ∀ w ∈ (g.kind v).collectionParts, ∃ ms, (g.kind w).members? = some ms

/-- Built-in nodes with operands of the right sort and templates that find their arguments. -/
structure Graph.Typed (g : Graph) : Prop where
  kinds : ∀ v < g.size, (g.kind v).isBuiltIn = true
  nodes : ∀ v, ∀ w ∈ (g.kind v).nodeParts, (g.kind w).isNode = true
  collections : ∀ v, ∀ w ∈ (g.kind v).collectionParts, ∃ ms, (g.kind w).members? = some ms
  templates : ∀ v template args, g.kind v = .formula template args →
    ∃ o, outline? template = some o ∧ ∀ i ∈ o.holes, i < args.length

namespace Graph

variable {g : Graph} {v w u : Nat}

theorem ne_identity_of_isNode (hv : (g.kind v).isNode = true) : g.kind v ≠ .identity := by
  intro hk
  rw [hk] at hv
  cases hv

theorem members_of_isNode (hv : (g.kind v).isNode = true) : (g.kind v).members? = none := by
  cases hk : g.kind v with
  | collection ms =>
    rw [hk] at hv
    cases hv
  | _ => rfl

theorem datum_of_isNode (hv : (g.kind v).isNode = true) : g.datum v = .object v := by
  rw [datum]
  split
  · rename_i hk
    exact absurd hk (ne_identity_of_isNode hv)
  · rfl

theorem kind_of_members {ms : List Nat} (h : (g.kind v).members? = some ms) : g.kind v = .collection ms := by
  cases hk : g.kind v with
  | collection ms' =>
    rw [hk] at h
    cases h
    rfl
  | _ =>
    rw [hk] at h
    cases h

theorem datum_of_members {ms : List Nat} (h : (g.kind v).members? = some ms) : g.datum v = .object v := by
  rw [datum, kind_of_members h]

/-- A test for graphs with nodes where nodes are expected. -/
def isTyped (g : Graph) : Bool :=
  (List.range g.size).all fun v => (g.kind v).isBuiltIn &&
    (g.kind v).nodeParts.all (fun w => (g.kind w).isNode) &&
    (g.kind v).collectionParts.all (fun w => (g.kind w).members?.isSome) &&
    match g.kind v with
    | .formula template args => (outline? template).any fun o => o.holes.all (· < args.length)
    | _ => true

theorem typed_of_isTyped (h : g.isTyped = true) : g.Typed := by
  simp only [isTyped, List.all_eq_true, List.mem_range, Bool.and_eq_true] at h
  have hlt : ∀ v, g.kind v ≠ .identity → v < g.size := fun v => lt_size_of_kind
  refine ⟨fun v hv => (h v hv).1.1.1,fun v w hw => ?_,fun v w hw => ?_,fun v template args hk => ?_⟩
  · have hv := hlt v fun hk => by simp [hk, Kind.nodeParts] at hw
    exact (h v hv).1.1.2 w hw
  · have hv := hlt v fun hk => by simp [hk, Kind.collectionParts] at hw
    exact Option.isSome_iff_exists.mp ((h v hv).1.2 w hw)
  · have hv := hlt v fun hk' => by simp [hk'] at hk
    have ht := (h v hv).2
    rw [hk] at ht
    cases ho : outline? template with
    | none => simp [ho] at ht
    | some o => exact ⟨o,rfl,by simpa [ho] using ht⟩

theorem Typed.sorted (hg : g.Typed) : g.Sorted := ⟨hg.kinds,hg.nodes,hg.collections⟩

theorem search_ok (hlinks : ∀ v, ∀ w ∈ g.links v, (g.kind w).isNode = true) (start target : Nat)
    (stop : Bool) (steps : Nat) (seen : Std.TreeSet Nat) (stack : List Nat)
    (hs : ∀ u ∈ stack, (g.kind u).isNode = true) :
    ∃ b, g.search start target stop steps seen stack = .ok b := by
  induction steps generalizing seen stack with
  | zero => exact ⟨false,rfl⟩
  | succ steps ih =>
    rw [search]
    cases hd : stack.dropWhile seen.contains with
    | nil => exact ⟨false,rfl⟩
    | cons v rest =>
      obtain ⟨_,hv,hrest,_⟩ := exists_of_dropWhile hd
      have hrest : ∀ u ∈ rest, (g.kind u).isNode = true := fun u hu => hs u (hrest u hu)
      obtain ⟨ws,hws⟩ := Option.isSome_iff_exists.mp (hs v hv)
      have hops : g.operands? v = some (ws.flatMap g.expand) := by rw [operands?, hws]; rfl
      dsimp only
      split
      · rename_i hk
        exact absurd hk (ne_identity_of_isNode (hs v hv))
      · split
        · exact ⟨true,rfl⟩
        · split
          · exact ih _ rest hrest
          · rw [hops]
            refine ih _ _ fun u hu => ?_
            rcases List.mem_append.mp hu with hu | hu
            · exact hlinks v u (by simpa [links, hops] using hu)
            · exact hrest u hu

/-- Whether a node depends on a vertex is always answered where links lead to nodes. -/
theorem reaches_node_ok (hlinks : ∀ v, ∀ w ∈ g.links v, (g.kind w).isNode = true)
    (hv : (g.kind v).isNode = true) (target : Nat) (stop : Bool) : ∃ b, g.reaches v target stop = .ok b := by
  rw [reaches]
  split
  · rename_i hk
    exact absurd hk (ne_identity_of_isNode hv)
  · rename_i ms hk
    rw [hk] at hv
    cases hv
  · exact search_ok hlinks v target stop (g.size + 1) ∅ [v] (by simpa using hv)

theorem anyReaches_ok (hlinks : ∀ v, ∀ w ∈ g.links v, (g.kind w).isNode = true) (target : Nat)
    (stop : Bool) (inside : List Nat → Except Fault Bool) {ms : List Nat}
    (hms : ∀ m ∈ ms, (g.kind m).isNode = true) : ∃ b, g.anyReaches target stop inside ms = .ok b := by
  induction ms with
  | nil => exact ⟨false,rfl⟩
  | cons m ms ih =>
    obtain ⟨b,hb⟩ := ih fun m' hm' => hms m' (by simp [hm'])
    have hm := hms m (by simp)
    obtain ⟨found,hfound⟩ := search_ok hlinks m target stop (g.size + 1) ∅ [m] (by simpa using hm)
    rw [anyReaches]
    split
    · rename_i hk
      exact absurd hk (ne_identity_of_isNode hm)
    · by_cases ht : (m == target) = true
      · exact ⟨true,by rw [if_pos ht]; rfl⟩
      · rw [if_neg ht]
        split
        · rename_i inner hk
          rw [hk] at hm
          cases hm
        · split
          · exact ⟨b,hb⟩
          · rw [nodeReaches, hfound]
            cases found with
            | true => exact ⟨true,rfl⟩
            | false => exact ⟨b,hb⟩

namespace Sorted

theorem isBuiltIn (hg : g.Sorted) (hv : g.kind v ≠ .identity) : (g.kind v).isBuiltIn = true :=
  hg.kinds v (lt_size_of_kind hv)

theorem scriptless (hg : g.Sorted) : g.Scriptless := by
  intro v steps args reducer hk
  have hb := hg.isBuiltIn (v := v) (by rw [hk]; exact Kind.noConfusion)
  rw [hk] at hb
  cases hb

theorem of_targets (hg : g.Sorted) (hw : w ∈ (g.kind v).targets) :
    (g.kind w).isNode = true ∨ ∃ ms, (g.kind w).members? = some ms := by
  have hn := hg.nodes v w
  have hc := hg.collections v w
  have hb := hg.isBuiltIn (v := v)
  cases hk : g.kind v with
  | custom expr args save =>
    rw [hk] at hb
    cases hb Kind.noConfusion
  | script steps args reducer =>
    rw [hk] at hb
    cases hb Kind.noConfusion
  | mixture ds cs =>
    simp only [hk, Kind.targets, Kind.parts?, Kind.members?, Kind.collectionParts, Option.getD_some,
      Option.getD_none, List.append_nil] at hw hc
    exact .inr (hc hw)
  | polynomial x cs order =>
    simp only [hk, Kind.targets, Kind.parts?, Kind.members?, Kind.collectionParts, Kind.nodeParts,
      Option.getD_some, Option.getD_none, List.append_nil, List.mem_cons, List.not_mem_nil,
      or_false] at hw hn hc
    exact hw.imp hn hc
  | _ =>
    simp only [hk, Kind.targets, Kind.parts?, Kind.members?, Kind.nodeParts, Option.getD_some,
      Option.getD_none, List.append_nil, List.nil_append] at hw hn
    exact .inl (hn hw)

theorem isNode_of_member (hg : g.Sorted) {ms : List Nat} (hv : (g.kind v).members? = some ms)
    (hw : w ∈ ms) : (g.kind w).isNode = true := hg.nodes v w (by rw [kind_of_members hv]; exact hw)

/-- What a vertex depends on next is a node, collections being expanded. -/
theorem isNode_of_links (hg : g.Sorted) (hw : w ∈ g.links v) : (g.kind w).isNode = true := by
  rw [links, operands?] at hw
  cases hp : (g.kind v).parts? with
  | none =>
    rw [hp, Option.map_none, Option.getD_none] at hw
    cases hm : (g.kind v).members? with
    | none => simp [hm] at hw
    | some ms =>
      rw [hm, Option.getD_some] at hw
      exact hg.isNode_of_member hm hw
  | some ws =>
    simp only [hp, Option.map_some, Option.getD_some, List.mem_flatMap, mem_expand] at hw
    obtain ⟨w',hw',⟨hm,rfl⟩ | ⟨ms,hm,hmem⟩⟩ := hw
    · have ht : w ∈ (g.kind v).targets := by simp [Kind.targets, hp, hw']
      rcases hg.of_targets ht with hn | ⟨ms,hms⟩
      · exact hn
      · cases hm.symm.trans hms
    · exact hg.isNode_of_member hm hmem

theorem reaches_ok (hg : g.Sorted) (hv : (g.kind v).isNode = true ∨ ∃ ms, (g.kind v).members? = some ms)
    (target : Nat) : ∃ b, g.reaches v target true = .ok b := by
  rcases hv with hv | ⟨ms,hms⟩
  · exact reaches_node_ok (fun _ _ => hg.isNode_of_links) hv target true
  · rw [reaches, kind_of_members hms]
    exact anyReaches_ok (fun _ _ => hg.isNode_of_links) target true _ fun m hm => hg.isNode_of_member hms hm

theorem mem_links (hg : g.Sorted) {x : Nat} (hw : w ∈ (g.kind v).targets) (hx : x ∈ g.expand w) :
    x ∈ g.links v := by
  rw [links, operands?]
  cases hp : (g.kind v).parts? with
  | some ws =>
    have hm : (g.kind v).members? = none := members_of_isNode (by rw [Kind.isNode, hp]; rfl)
    simp only [Kind.targets, hp, hm, Option.getD_some, Option.getD_none, List.append_nil] at hw
    exact List.mem_flatMap.mpr ⟨w,hw,hx⟩
  | none =>
    simp only [Kind.targets, hp, Option.getD_none, List.nil_append] at hw
    cases hm : (g.kind v).members? with
    | none => simp [hm] at hw
    | some ms =>
      rw [hm, Option.getD_some] at hw
      rcases mem_expand.mp hx with ⟨_,rfl⟩ | ⟨ms',hms',_⟩
      · simpa using hw
      · cases (members_of_isNode (hg.isNode_of_member hm hw)).symm.trans hms'

/-- Where an operand leads, one of the links leads: a collection passes the question on to its
members. -/
theorem exists_link (hg : g.Sorted) (hw : w ∈ (g.kind v).targets) (h : g.Leads false w u)
    (hu : (g.kind u).isNode = true) : ∃ x ∈ g.links v, g.Leads false x u := by
  rcases hg.of_targets hw with hn | ⟨ms,hms⟩
  · exact ⟨w,hg.mem_links hw (mem_expand.mpr (.inl ⟨members_of_isNode hn,rfl⟩)),h⟩
  · cases h with
    | refl => cases (members_of_isNode hu).symm.trans hms
    | @step _ m _ hm _ h =>
      have hp : (g.kind w).parts? = none := by rw [kind_of_members hms]; rfl
      have hmem : m ∈ ms := by simpa [links, operands?, hp, hms] using hm
      exact ⟨m,hg.mem_links hw (mem_expand.mpr (.inr ⟨ms,hms,hmem⟩)),h⟩

/-- A node that is touched on the way is one that the vertex depends on. -/
theorem leads_of_touches (hg : g.Sorted) (h : g.Touches v u) (hu : (g.kind u).isNode = true) :
    g.Leads false v u := by
  induction h with
  | refl v => exact .refl v
  | step hw _ ih =>
    obtain ⟨x,hx,hl⟩ := hg.exists_link hw (ih hu) hu
    exact .step hx (.inr (g.isOpen_false x)) hl

end Sorted

end Graph

theorem IdMap.exists_mem_of_isSome {α : Type} {m : IdMap α} {id : Identity}
    (h : (m.get? id).isSome = true) : ∃ e ∈ m, e.1.serial = id.serial := by
  rw [get?, Option.isSome_map, List.find?_isSome] at h
  obtain ⟨e,he,hsame⟩ := h
  exact ⟨e,he,by simpa [Identity.same] using hsame⟩

/-- The inputs of a vertex are the vector observables it depends on without looking into reducers. -/
theorem Graph.Sorted.inputs {s : Setting} (hg : s.graph.Sorted) {c : Draft}
    (hcolumns : ∀ e ∈ c.columns, s.graph.kind e.1.serial = .observable) {v : Nat}
    (hv : (s.graph.kind v).isNode = true ∨ ∃ ms, (s.graph.kind v).members? = some ms) :
    ∃ ids, s.inputs c (.object v) = .ok ids ∧
      ∀ id, id ∈ ids ↔ (∃ n, (id, n) ∈ c.columns) ∧ s.graph.Leads true v id.serial := by
  have hok := fun target => hg.reaches_ok hv target
  have hfilter : c.columns.filterM (fun e => s.graph.reaches v e.1.serial true) =
      .ok (c.columns.filter fun e => (s.graph.reaches v e.1.serial true).toOption == some true) :=
    List.filterM_eq_ok.mpr ⟨fun e _ => hok e.1.serial,rfl⟩
  refine ⟨(c.columns.filter fun e => (s.graph.reaches v e.1.serial true).toOption == some true).map (·.1),
    by rw [Setting.inputs, hfilter]; rfl,fun id => ?_⟩
  have hmem : ∀ id : Identity, ∀ n, (id, n) ∈ c.columns →
      (((s.graph.reaches v id.serial true).toOption == some true) = true ↔ s.graph.Leads true v id.serial) := by
    intro id n hn
    obtain ⟨b,hb⟩ := hok id.serial
    have ht : (s.graph.kind id.serial).members? = none := by rw [hcolumns _ hn]; rfl
    rw [← Graph.reaches_eq ht hb, hb]
    cases b <;> simp [Except.toOption]
  simp only [List.mem_map, List.mem_filter]
  constructor
  · rintro ⟨⟨id,n⟩,⟨hn,hr⟩,rfl⟩
    exact ⟨⟨n,hn⟩,(hmem id n hn).mp hr⟩
  · rintro ⟨⟨n,hn⟩,hl⟩
    exact ⟨(id, n),⟨hn,(hmem id n hn).mpr hl⟩,rfl⟩

theorem Setting.exists_isLiftable {s : Setting} {c : Draft} {d : Datum} {ids : List Identity}
    (hids : s.inputs c d = .ok ids) : ∃ b, s.isLiftable c d = .ok b := by
  rw [Setting.isLiftable]
  split
  · exact ⟨false,rfl⟩
  · exact ⟨_,by rw [hids]; rfl⟩

end FitCode
