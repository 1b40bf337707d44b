import FitCode.Proofs.Lowering.Answered
import FitCode.Proofs.Lowering.Composition
import FitCode.Proofs.Lowering.Deep

/-! # Asking twice

The text of a node mentions the texts of all its operands, whatever its kind, but for a formula that leaves
out an argument. So a result that has been given is deep enough to be used again: asking once more gives the
same text, runs nothing and changes nothing.
-/
namespace FitCode

open Emit Text

namespace Graph

variable {g : Graph}

/-- Every formula is plain and has a hole for each of its arguments. -/
def Attentive (g : Graph) : Prop := ∀ v template args, g.kind v = .formula template args →
  ∃ o, outline? template = some o ∧ ∀ i < args.length, i ∈ o.holes

/-- A test for such graphs. -/
def isAttentive (g : Graph) : Bool :=
  (List.range g.size).all fun v => match g.kind v with
    | .formula template args =>
      (outline? template).any fun o => (List.range args.length).all o.holes.contains
    | _ => true

theorem attentive_of_isAttentive (h : g.isAttentive = true) : g.Attentive := by
  intro v template args hk
  have hv : v < g.size := lt_size_of_kind (by rw [hk]; exact Kind.noConfusion)
  have ht := List.all_eq_true.mp h v (List.mem_range.mpr hv)
  rw [hk] at ht
  cases ho : outline? template with
  | none => simp [ho] at ht
  | some o => exact ⟨o,rfl,by simpa [ho] using ht⟩

end Graph

/-- What a lowering relies on whose results are to be found again. -/
structure Setting.Regular (s : Setting) : Prop where
  valid : s.options.Valid
  legible : s.options.Legible
  sorted : s.graph.Sorted
  attentive : s.graph.Attentive

namespace Setting

open Draft

variable {s : Setting} {c c' : Draft} {v : Nat} {d : Datum} {text : String}

/-- The node has been lowered: its result is as deep as its text, and the text is bound in all loops that
its operands vary in. -/
def Lowered (s : Setting) (c : Draft) (v : Nat) : Prop :=
  ∃ text, c.results[v]? = some ⟨text, c.depthOf text⟩ ∧ c.Deep (s.graph.Needs v) text

theorem lowered_inlineResult (h : c.Deep (s.graph.Needs v) text) {u : PUnit}
    (hgives : (s.inlineResult v text).Gives c u c') : s.Lowered c' v := by
  obtain ⟨t,hgives⟩ := gives_discard.mp hgives
  obtain ⟨id,hid,-,rfl,rfl⟩ := gives_register hgives
  cases hid
  exact ⟨t,Cache.getElem?_insert_self _ _ _,h⟩

theorem lowered_saveResult (hs : s.Regular) (hc : c.Poised s) (h : c.Deep (s.graph.Needs v) text)
    {u : PUnit} (hgives : (s.saveResult v text).Gives c u c') : s.Lowered c' v := by
  obtain ⟨name,hgives⟩ := gives_discard.mp hgives
  have hp := hc.gives hs.legible (shelved_register hs.legible.allows _ _ _) hgives
  obtain ⟨id,hid,-,hname,rfl⟩ := gives_register_saved hgives
  cases hid
  refine ⟨name,Cache.getElem?_insert_self _ _ _,?_⟩
  have hcoins := c.coins_bindFresh s.options (P := s.options.IsPlainName) hs.legible.allows.temp text
  have hplain : Text.names name = [name] := hname ▸ hcoins.allowed.1
  refine h.of_expr hc hp hplain ?_
  have hfresh := c.coins_freshTemp s.options (P := s.options.IsPlainName) hs.legible.allows.temp
  have hle : c.depthOf text ≤ (c.freshTemp s.options).2.depthOf text :=
    (hc.anchored.rises_coins hfresh).depthOf rfl text
  subst hname
  exact Nat.le_trans hle (depthOf_le_introduce _ _ _ _ _)

/-! ## Operands -/

theorem members_eq_ok {ms : List Nat} : s.members d = .ok ms ↔
    ∃ w, d = .object w ∧ (s.graph.kind w).members? = some ms := by
  cases d with
  | object w =>
    cases hk : (s.graph.kind w).members? with
    | none => simp [members, hk]
    | some ms' => simp [members, hk]
  | _ => simp [members]

/-- Results that the lowerer gives are at hand. -/
structure Answers (s : Setting) (l : Lowerer) : Prop where
  shelved : ∀ trail d, s.Shelved s.options.IsPlainName (l.resolve trail d)
  atHand : ∀ {trail d c text c'}, c.Poised s → (l.resolve trail d).Gives c text c' → s.AtHand c' d text

section

variable {l : Lowerer} {trail : Trail} {α β : Type}

/-- Steps one after the other, each of which gives what is wanted of its operand and keeps what was given
for the operands before. -/
theorem passes_mapM {f : α → Emit β} {Q : Draft → α → β → Prop} {as : List α} {bs : List β}
    (hkeep : ∀ {c c' a b}, c.Poised s → c.Passes s c' → Q c a b → Q c' a b)
    (hf : ∀ a ∈ as, ∀ {c b c'}, c.Poised s → (f a).Gives c b c' → c.Passes s c' ∧ Q c' a b)
    (hc : c.Poised s) (h : (as.mapM f).Gives c bs c') : c.Passes s c' ∧ List.Forall₂ (Q c') as bs := by
  induction as generalizing c bs with
  | nil =>
    simp only [List.mapM_nil, gives_pure] at h
    obtain ⟨rfl,rfl⟩ := h
    exact ⟨.refl hc,.nil⟩
  | cons a as ih =>
    obtain ⟨b,c₁,bs,ha,hbs,rfl⟩ := gives_mapM_cons.mp h
    obtain ⟨hp,hb⟩ := hf a (by simp) hc ha
    have hc₁ := hc.passes hp
    obtain ⟨hp',hall⟩ := ih (fun a' ha' => hf a' (by simp [ha'])) hc₁ hbs
    exact ⟨hp.trans hp',.cons (hkeep hc₁ hp' hb) hall⟩

variable (hs : s.Regular) (hl : s.Answers l)

include hs hl

theorem Answers.result {w : Nat} (hw : (s.graph.kind w).isNode = true) (hc : c.Poised s)
    (h : (l.resolve trail (s.graph.datum w)).Gives c text c') :
    c.Passes s c' ∧ c'.Deep (s.graph.Varies w) text := by
  have hp := hc.gives hs.legible (hl.shelved _ _) h
  rw [Graph.datum_of_isNode hw] at h
  exact ⟨hp,(hl.atHand hc h).deep hs.sorted (hc.passes hp) hw⟩

theorem Answers.results {ws : List Nat} (hws : ∀ w ∈ ws, (s.graph.kind w).isNode = true)
    (hc : c.Poised s) {texts : List String}
    (h : (ws.mapM fun w => l.resolve trail (s.graph.datum w)).Gives c texts c') :
    c.Passes s c' ∧ List.Forall₂ (fun w t => c'.Deep (s.graph.Varies w) t) ws texts :=
  passes_mapM (Q := fun c w t => c.Deep (s.graph.Varies w) t) (fun hc hp hd => hd.passes hc hp)
    (fun w hw _ _ _ hc h => hl.result hs (hws w hw) hc h) hc h

end

theorem passes_introduceArray (hs : s.Regular) (hc : c.Poised s) {id : Identity} {texts : List String}
    {given : Option String} {name : String}
    (hgiven : ∀ name, explicitName given = some name → s.options.IsPlainName name)
    (h : (s.introduceArray id texts given).Gives c name c') :
    c.Passes s c' ∧ Text.names name = [name] ∧ c'.arrays[id.serial]? = some ⟨name, c'.bindingDepth name⟩ ∧
      c.depthOf (arrayCode texts) ≤ c'.bindingDepth name := by
  have hm : c.Moves (fun _ => True) ((s.introduceArray id texts given).outcome c).2 :=
    balances_introduceArray trivial texts given c hc.sound
  have hdepth : c.depthOf (arrayCode texts) ≤ c'.bindingDepth name := by
    rcases s.introduceArray_cases id texts given c with ⟨e,he⟩ | ⟨c₀,name',hc₀,he⟩
    · cases he.symm.trans h
    · cases he.symm.trans h
      rcases hc₀ with rfl | rfl
      · exact depthOf_le_introduce _ _ _ _ _
      · exact depthOf_le_introduce (c.freshArray s.options).2 _ _ _ _
  rcases introduceArray_coins hs.legible.allows id texts hgiven c with ⟨e,he⟩ | ⟨name',c₁,hcoins,he⟩
  · cases he.symm.trans h
  · rw [he] at hm
    cases he.symm.trans h
    have hanchored := (hc.anchored.coins hcoins).insertArray id.serial hcoins.allowed.1
    have hrises : c.Rises c₁ := hc.anchored.rises_coins hcoins
    exact ⟨⟨hm,hanchored,hrises⟩,hcoins.allowed.1,Cache.getElem?_insert_self _ _ _,hdepth⟩

section

variable {l : Lowerer} {trail : Trail} (hs : s.Regular) (hl : s.Answers l)

include hs hl

theorem Answers.listed {w : Nat} {ms : List Nat} (hms : (s.graph.kind w).members? = some ms)
    (hc : c.Poised s) {given : Option String}
    (hgiven : ∀ name, explicitName given = some name → s.options.IsPlainName name)
    (h : (ms.mapM (fun m => l.resolve trail (s.graph.datum m)) >>= fun texts =>
      s.introduceArray (s.graph.idOf w) texts given).Gives c text c') :
    s.Usable c' .arrays (.object w) w text := by
  obtain ⟨texts,c₁,hresults,h⟩ := gives_bind.mp h
  obtain ⟨hp,hall⟩ := hl.results hs (fun m hm => hs.sorted.isNode_of_member hms hm) hc hresults
  have hc₁ := hc.passes hp
  obtain ⟨hp',hname,hcached,hdepth⟩ := passes_introduceArray hs hc₁ hgiven h
  have hc' := hc₁.passes hp'
  have hk := Graph.kind_of_members hms
  have hle : c'.depthOf text ≤ c'.bindingDepth text := by
    rw [depthOf_eq, mentioned_name hname]
    exact Nat.min_le_left _ _
  have hfree := hc'.unbound_of_members hms
  refine usable_of_deep hs.sorted hc' (.inr ⟨ms,hms⟩) hfree hcached hle (.needs fun m hm => ?_)
  have hm : m ∈ ms := by simpa [hk, Kind.targets, Kind.parts?, Kind.members?] using hm
  obtain ⟨t,ht,hdeep⟩ := Sizes.exists_of_forall₂ hall hm
  have hmentions : ∀ n ∈ Text.names t, n ∈ Text.names (arrayCode texts) :=
    fun n => Composition.mem_names_of_used s.options.machine.address (k := .array) rfl ht
  exact (hdeep.mono hmentions).of_expr hc₁ hp' hname hdepth

theorem Answers.array (hc : c.Poised s) {given : Option String}
    (hgiven : ∀ name, explicitName given = some name → s.options.IsPlainName name)
    (h : (s.arrayOf l trail d given).Gives c text c') :
    ∃ id, s.graph.identityOf d = .ok id ∧ s.Usable c' .arrays d id.serial text := by
  obtain ⟨id,hid,hlist⟩ := gives_arrayOf h
  refine ⟨id,hid,?_⟩
  cases hlist with
  | @kept e n ha hn hle => exact ⟨e,n,ha,rfl,hn,hle⟩
  | new ha hmembers h =>
    obtain ⟨w,rfl,hms⟩ := members_eq_ok.mp hmembers
    cases hid
    exact hl.listed hs hms hc hgiven h
  | again ha hn hlt hmembers h =>
    obtain ⟨w,rfl,hms⟩ := members_eq_ok.mp hmembers
    cases hid
    exact hl.listed hs hms (hc.passes (hc.setAside .arrays ha hn hlt)) hgiven h

theorem Answers.argument {w : Nat}
    (hw : (s.graph.kind w).isNode = true ∨ ∃ ms, (s.graph.kind w).members? = some ms) (hc : c.Poised s)
    {code : Datum} (h : (Emit.ofExcept (s.graph.toArgument (.object w)) >>= fun a =>
      s.argumentCode l trail a).Gives c code c') :
    ∃ t, code = .text t ∧ c'.Deep (s.graph.Varies w) t := by
  have hallows := hs.legible.allows
  rw [gives_ofExcept_bind] at h
  obtain ⟨a,ha,h⟩ := h
  have hp := hc.gives hs.legible (shelved_argumentCode hallows hl.shelved trail a.1 a.2) h
  have hc' := hc.passes hp
  rcases hw with hw | ⟨ms,hms⟩
  · cases (Graph.toArgument_of_members_none (Graph.members_of_isNode hw)).symm.trans ha
    simp only [argumentCode, gives_bind, gives_pure] at h
    obtain ⟨t,c₁,h,rfl,rfl⟩ := h
    exact ⟨t,rfl,(hl.atHand hc h).deep hs.sorted hc' hw⟩
  · cases (Graph.toArgument_of_members hms).symm.trans ha
    simp only [argumentCode, gives_bind, gives_pure] at h
    obtain ⟨t,c₁,h,rfl,rfl⟩ := h
    obtain ⟨id,hid,husable⟩ := hl.array hs hc (fun _ h => by cases h) h
    cases hid
    exact ⟨t,rfl,husable.deep hs.sorted hc' (.inr ⟨ms,hms⟩) (hc'.unbound_of_members hms)⟩

theorem Answers.call {f : String} {args : List Datum} (hc : c.Poised s)
    (h : (s.callCode l trail f args).Gives c text c') :
    c.Passes s c' ∧ ∀ w, .object w ∈ args →
      (s.graph.kind w).isNode = true ∨ (∃ ms, (s.graph.kind w).members? = some ms) →
      c'.Deep (s.graph.Varies w) text := by
  have hallows := hs.legible.allows
  obtain ⟨texts,rfl,hcodes⟩ := gives_callCode h
  obtain ⟨hp,hall⟩ := passes_mapM (s := s) (Q := fun c d code => ∀ w, d = .object w →
      (s.graph.kind w).isNode = true ∨ (∃ ms, (s.graph.kind w).members? = some ms) →
      ∃ t, code = .text t ∧ c.Deep (s.graph.Varies w) t)
    (fun hc hp hq w hd hw => by
      obtain ⟨t,ht,hdeep⟩ := hq w hd hw
      exact ⟨t,ht,hdeep.passes hc hp⟩)
    (fun d _ c code c' hc h => by
      have hshelved : s.Shelved s.options.IsPlainName (Emit.ofExcept (s.graph.toArgument d) >>= fun a =>
          s.argumentCode l ((trail.deeper 2).deeper 3) a) :=
        .bind (.ofExcept _) fun a => shelved_argumentCode hallows hl.shelved _ a.1 a.2
      refine ⟨hc.gives hs.legible hshelved h,fun w hd hw => ?_⟩
      subst hd
      exact hl.argument hs hw hc h) hc hcodes
  refine ⟨hp,fun w hw hkind => ?_⟩
  obtain ⟨_,hcode,hq⟩ := Sizes.exists_of_forall₂ hall hw
  obtain ⟨t,rfl,hdeep⟩ := hq w rfl hkind
  have ht : t ∈ texts := by simpa using hcode
  exact hdeep.mono fun n => Composition.mem_names_of_used s.options.machine.address (k := .call f) rfl ht

/-! ## Nodes -/

theorem lowered_call {f : String} {args : List Datum} (hc : c.Poised s)
    (hargs : ∀ w ∈ (s.graph.kind v).targets, s.graph.datum w ∈ args) {u : PUnit}
    (h : (s.callCode l trail f args >>= s.saveResult v).Gives c u c') : s.Lowered c' v := by
  obtain ⟨expr,c₁,hcall,h⟩ := gives_bind.mp h
  obtain ⟨hp,hdeep⟩ := hl.call hs hc hcall
  refine lowered_saveResult hs (hc.passes hp) (.needs fun w hw => ?_) h
  have hkind := hs.sorted.of_targets hw
  have hdatum : s.graph.datum w = .object w := by
    rcases hkind with hn | ⟨ms,hms⟩
    · exact Graph.datum_of_isNode hn
    · exact Graph.datum_of_members hms
  exact hdeep w (hdatum ▸ hargs w hw) hkind

theorem lowered_addUp (hc : c.Poised s) {t : Nat} {update : String → String → String} {u : PUnit}
    (h : (s.addUp l trail v t update).Gives c u c') : s.Lowered c' v := by
  have hallows := hs.legible.allows
  obtain ⟨acc,c₁,c₂,c₃,hacc,hzero,hadd,h⟩ := gives_addUp h
  have hp := hc.gives hs.legible (shelved_freshTemp hallows) hacc
  have hc₁ := hc.passes hp
  have hbound : Text.names acc = [acc] ∧ c₁.bindingDepth acc = c.depth := by
    cases hacc
    refine ⟨(c.coins_freshTemp s.options hallows.temp).allowed.1,?_⟩
    simp [bindingDepth]
  have hshelved : s.Shelved s.options.IsPlainName (do
      s.write (update acc (← l.resolve (trail.deeper 2) (s.graph.datum t))) : Emit Unit) :=
    .bind (hl.shelved _ _) fun _ => s.shelved_write _
  have hp₂ := hc₁.gives hs.legible (s.shelved_write _) hzero
  have hp₃ := (hc₁.passes hp₂).gives hs.legible
    (.ite (shelved_openLoop_bind hs.valid (.object v) hshelved) hshelved) hadd
  have hp' := hp₂.trans hp₃
  refine lowered_inlineResult (.of_name hc (hp.trans hp') hbound.1 fun k m hm _ _ _ => ?_) h
  calc m.depth ≤ c.depth := hc.sound.loop_le_depth hm
    _ = c₁.bindingDepth acc := hbound.2.symm
    _ ≤ c₃.bindingDepth acc := hp'.rises acc

theorem lowered_results {ws : List Nat} (hws : (s.graph.kind v).targets = ws)
    (hnodes : ∀ w ∈ ws, (s.graph.kind w).isNode = true) (hc : c.Poised s) {c₁ : Draft} {texts : List String}
    (hresults : (ws.mapM fun w => l.resolve trail (s.graph.datum w)).Gives c texts c₁) {expr : String}
    (hexpr : texts.length = ws.length → ∀ t ∈ texts, ∀ n ∈ Text.names t, n ∈ Text.names expr) {u : PUnit}
    (h : (s.saveResult v expr).Gives c₁ u c') : s.Lowered c' v := by
  obtain ⟨hp,hall⟩ := hl.results hs hnodes hc hresults
  refine lowered_saveResult hs (hc.passes hp) (.needs fun w hw => ?_) h
  rw [hws] at hw
  obtain ⟨t,ht,hdeep⟩ := Sizes.exists_of_forall₂ hall hw
  exact hdeep.mono (hexpr hall.length_eq.symm t ht)

/-- A lowered node has a result that mentions what its operands depend on. -/
theorem lowered_emitNode (hc : c.Poised s) {u : PUnit} (h : (s.emitNode l trail v).Gives c u c') :
    s.Lowered c' v := by
  have hnodes := hs.sorted.nodes v
  have hleaf : (s.graph.kind v).targets = [] → ∀ {text}, c.Deep (s.graph.Needs v) text :=
    fun hnil => .needs fun w hw => by simp [hnil] at hw
  unfold emitNode at h
  cases hk : s.graph.kind v with
  | parameter value isConstant =>
    simp only [hk] at h
    split at h
    · exact lowered_inlineResult (hleaf (by rw [hk]; rfl)) h
    · exact absurd h not_gives_throw
  | observable =>
    simp only [hk, gives_get_bind] at h
    split at h
    · exact lowered_inlineResult (hleaf (by rw [hk]; rfl)) h
    · exact absurd h not_gives_throw
  | constant value =>
    simp only [hk] at h
    exact lowered_inlineResult (hleaf (by rw [hk]; rfl)) h
  | sum ts =>
    have htargets : (s.graph.kind v).targets = ts := by simp [hk, Kind.targets, Kind.parts?, Kind.members?]
    cases ts with
    | nil =>
      simp only [hk] at h
      exact lowered_inlineResult (hleaf htargets) h
    | cons t ts =>
      simp only [hk, gives_bind] at h
      obtain ⟨texts,c₁,hresults,h⟩ := h
      refine lowered_results hs hl htargets (by simpa only [hk, Kind.nodeParts] using hnodes) hc hresults ?_ h
      exact fun _ t ht n => Composition.mem_names_of_used s.options.machine.address (k := .sum) rfl ht
  | product fs =>
    have htargets : (s.graph.kind v).targets = fs := by simp [hk, Kind.targets, Kind.parts?, Kind.members?]
    cases fs with
    | nil =>
      simp only [hk] at h
      exact lowered_inlineResult (hleaf htargets) h
    | cons f fs =>
      simp only [hk, mapM_return, bind_assoc, pure_bind] at h
      obtain ⟨texts,c₁,hresults,h⟩ := gives_bind.mp h
      refine lowered_results hs hl htargets (by simpa only [hk, Kind.nodeParts] using hnodes) hc hresults ?_ h
      exact fun _ t ht n => Composition.mem_names_of_used s.options.machine.address (k := .product) rfl ht
  | formula template args =>
    have htargets : (s.graph.kind v).targets = args := by simp [hk, Kind.targets, Kind.parts?, Kind.members?]
    simp only [hk, mapM_return, bind_assoc, pure_bind] at h
    obtain ⟨texts,c₁,hresults,h⟩ := gives_bind.mp h
    obtain ⟨expr,hfill,h⟩ := gives_ofExcept_bind.mp h
    obtain ⟨o,ho,hholes⟩ := hs.attentive v template args hk
    refine lowered_results hs hl htargets (by simpa only [hk, Kind.nodeParts] using hnodes) hc hresults ?_ h
    -- Every argument stands in one of the holes.
    intro hlength t ht n hn
    obtain ⟨i,hi⟩ := List.mem_iff_getElem?.mp ht
    have hlt : i < args.length := hlength ▸ (List.getElem?_eq_some_iff.mp hi).1
    cases hfilled : fillTemplate s.options.machine.address template (texts.map fun t => "(" ++ t ++ ")") with
    | error e => simp [hfilled, Except.mapError] at hfill
    | ok text =>
      obtain rfl : text = expr := by simpa [hfilled, Except.mapError] using hfill
      exact (mem_names_fillTemplate ho hfilled n).mpr (.inr ⟨i,hholes i hlt,t,hi,hn⟩)
  | gaussian x mean sigma =>
    simp only [hk] at h
    exact lowered_call hs hl hc (by simp [hk, Kind.targets, Kind.parts?, Kind.members?]) h
  | exponential x rate =>
    simp only [hk] at h
    exact lowered_call hs hl hc (by simp [hk, Kind.targets, Kind.parts?, Kind.members?]) h
  | polynomial x cs order =>
    simp only [hk] at h
    exact lowered_call hs hl hc (by simp [hk, Kind.targets, Kind.parts?, Kind.members?]) h
  | mixture ds cs =>
    simp only [hk] at h
    exact lowered_call hs hl hc (by simp [hk, Kind.targets, Kind.parts?, Kind.members?]) h
  | entrySum t =>
    simp only [hk] at h
    exact lowered_addUp hs hl hc h
  | negLogLikelihood t =>
    simp only [hk] at h
    exact lowered_addUp hs hl hc h
  | custom expr args save =>
    have hbuilt := hs.sorted.isBuiltIn (v := v) (by rw [hk]; exact Kind.noConfusion)
    rw [hk] at hbuilt
    cases hbuilt
  | script steps args reducer => exact absurd hk (hs.sorted.scriptless v steps args reducer)
  | collection ms =>
    simp only [hk] at h
    exact absurd h not_gives_throw
  | identity =>
    simp only [hk] at h
    exact absurd h not_gives_throw

end

/-! ## Requests -/

theorem isLiftable_passes (hp : c.Passes s c') (d : Datum) : s.isLiftable c' d = s.isLiftable c d := by
  have hb := hp.moves.balanced
  simp only [isLiftable, hb.stack, s.inputs_congr hb.columns, Std.TreeMap.contains_eq_isSome_getElem?,
    hb.bindings]

theorem iterationDepth_of_isLiftable (h : s.isLiftable c d = .ok true) : s.iterationDepth c d = .ok 0 := by
  rw [iterationDepth, h]
  split <;> rfl

theorem exists_of_canLower (h : s.canLower d = true) : ∃ v, d = .object v ∧ (s.graph.kind v).isNode = true := by
  cases d with
  | object v => exact ⟨v,rfl,h⟩
  | _ => cases h

section

variable {l : Lowerer} {trail : Trail} (hs : s.Regular) (hl : s.Answers l) (hc : c.Poised s)

include hs hl hc

theorem usable_of_lower {c₁ : Draft} (hp : c.Passes s c₁) (hp' : c.Passes s c') {id : Identity}
    (hid : s.graph.identityOf d = .ok id) (hfree : c.bindings[id.serial]? = none)
    (h : (s.lower (s.emit l) trail d id).Gives c₁ text c') : s.Usable c' .results d id.serial text := by
  obtain ⟨hcan,⟨e,he,rfl⟩,hlowers⟩ := gives_lower h
  cases hlowers with
  | lifted hlift _ =>
    rw [isLiftable_passes hp, ← isLiftable_passes hp'] at hlift
    exact ⟨e,0,he,rfl,iterationDepth_of_isLiftable hlift,Nat.zero_le _⟩
  | @here inner _ hemit =>
    obtain ⟨v,rfl,hv⟩ := exists_of_canLower hcan
    cases hid
    have hfree : inner.left.bindings[v]? = none := (hp'.moves.balanced.bindings v).trans hfree
    have hnode : (s.emitNode l (trail.enter (s.graph.idOf v)) v).Gives (c₁.entered (s.graph.idOf v)) ⟨⟩ inner := by
      rw [emit] at hemit
      split at hemit
      · exact absurd hemit fun h => by cases h
      · exact hemit
    obtain ⟨text,hcached,hdeep⟩ := lowered_emitNode hs hl ((hc.passes hp).running _) hnode
    cases hcached.symm.trans he
    exact usable_of_deep hs.sorted (hc.passes hp') (.inl hv) hfree hcached (Nat.le_refl _) hdeep

theorem atHand_of_resolve (hp : c.Passes s c') (h : (s.resolve (s.emit l) trail d).Gives c text c') :
    s.AtHand c' d text := by
  obtain ⟨id,hid,hresolved⟩ := gives_resolve h
  refine ⟨id,hid,?_⟩
  have hbindings := hp.moves.balanced.bindings id.serial
  cases hresolved with
  | bound hb => exact .inl hb
  | @cached e n hb hr hn hle => exact .inr ⟨hb,e,n,hr,rfl,hn,hle⟩
  | missing hb hr h =>
    exact .inr ⟨hbindings.trans hb,usable_of_lower hs hl hc (.refl hc) hp hid hb h⟩
  | stale hb hr hn hlt h =>
    exact .inr ⟨hbindings.trans hb,
      usable_of_lower hs hl hc (hc.setAside .results hr hn hlt) hp hid hb h⟩

end

/-- By induction on the nesting: what the operands give is at hand. -/
theorem nested_answers (hs : s.Regular) (n : Nat) : s.Answers (s.nested n) := by
  have hshelved : ∀ n, ∀ trail d, s.Shelved s.options.IsPlainName ((s.nested n).resolve trail d) :=
    fun n => (nested_shelved hs.legible.allows hs.valid hs.sorted.scriptless n).1
  induction n with
  | zero => exact ⟨hshelved 0,fun _ h => absurd h not_gives_throw⟩
  | succ n ih =>
    refine ⟨hshelved (n + 1),fun hc h => ?_⟩
    exact atHand_of_resolve hs ih hc (hc.gives hs.legible (hshelved (n + 1) _ _) h) h

theorem gives_of_toOption {α : Type} {x : Emit α} {a : α} (h : (x.outcome c).1.toOption = some a) :
    x.Gives c a (x.outcome c).2 := by
  rw [Gives]
  rcases hr : x.outcome c with ⟨r,c'⟩
  rw [hr] at h
  cases r with
  | error e => cases h
  | ok b =>
    cases h
    rfl

/-- Asking again for a result or an array right after it was given gives the same text, for whatever hooks
the second request would run, and leaves the draft as it is. So it is in every session with names that can
be found in texts, over built-in nodes with a hole for each argument of a formula, if only observables have
columns. -/
theorem requests_repeat {given : List (String × Datum)} {machine : Machine}
    (ho : Options.ofFields given machine = .ok s.options)
    (hlegible : s.options.Legible) (hg : s.graph.Sorted) (hformulas : s.graph.Attentive)
    (hc : s.ReachableBy s.options.IsPlainName c)
    (hcolumns : ∀ e ∈ c.columns, s.graph.kind e.1.serial = .observable) :
    (∀ trail d text c', (s.lowerer.resolve trail d).Gives c text c' →
      ∀ emit (trail' : Trail), trail'.calls ≤ s.options.machine.calls →
        (s.resolve emit trail' d).outcome c' = (.ok text, c')) ∧
    ∀ trail d name text c', (∀ n, explicitName name = some n → s.options.IsPlainName n) →
      (s.arrayOf s.lowerer trail d name).Gives c text c' →
      ∀ l trail' name', (s.arrayOf l trail' d name').outcome c' = (.ok text, c') := by
  have hs : s.Regular := ⟨Options.valid_of_ofFields ho,hlegible,hg,hformulas⟩
  obtain ⟨hsound,hanchored⟩ := hc.anchored hs.valid hlegible hg.scriptless
  have hpoised : c.Poised s := ⟨hsound,hanchored,hcolumns⟩
  have hl := nested_answers hs (s.options.machine.calls + 1)
  refine ⟨fun trail d text c' h emit trail' ht => (hl.atHand hpoised h).again emit ht,?_⟩
  intro trail d name text c' hname h l trail' name'
  obtain ⟨id,hid,husable⟩ := hl.array hs hpoised hname h
  exact husable.again hid l trail' name'

/-- The sum of a line over the entries of `x`, and a collection of the line and `x`. -/
def lineSum : Setting where
  graph := ⟨#[⟨"x", .observable⟩, ⟨"p", .parameter 1 false⟩,
    ⟨"line", .formula "{1} * {0} + 2.0" [0, 1]⟩, ⟨"s", .entrySum 2⟩,
    ⟨"both", .collection [2, 0]⟩]⟩
  options := {}
  sizes := [(⟨0, "x"⟩, 2), (⟨2, "line"⟩, 2)]

/-- Inside a loop over `x`, with a result for `p`. -/
def insideLineSum : Draft := lineSum.reach 5
  [.assignColumn (.object 0) (.value (.int 0)), .register (.object 1) "params[0]" false, .openLoop (.object 3)]

theorem requests_repeat_lineSum : insideLineSum.depth = 1 ∧
    (∃ c, (lineSum.lowerer.resolve {} (.object 2)).Gives insideLineSum "t0" c ∧
      c.results[2]? = some ⟨"t0", 1⟩ ∧ ∀ emit (trail : Trail), trail.calls ≤ lineSum.options.machine.calls →
        (lineSum.resolve emit trail (.object 2)).outcome c = (.ok "t0", c)) ∧
    ∃ c, (lineSum.arrayOf lineSum.lowerer {} (.object 4) none).Gives insideLineSum "arr0" c ∧
      c.arrays[4]? = some ⟨"arr0", 1⟩ ∧ ∀ l trail name,
        (lineSum.arrayOf l trail (.object 4) name).outcome c = (.ok "arr0", c) := by
  have hcolumns : insideLineSum.columns = [(⟨0, "x"⟩, 0)] := by decide +kernel
  have hreach : lineSum.ReachableBy lineSum.options.IsPlainName insideLineSum := by
    refine reachableBy_reach 5 fun command hmem => ?_
    simp only [List.mem_cons, List.not_mem_nil, or_false] at hmem
    rcases hmem with rfl | rfl | rfl <;> trivial
  obtain ⟨hresults,harrays⟩ := requests_repeat (s := lineSum) (rfl : Options.ofFields [] = .ok {})
    Options.legible_default (Graph.typed_of_isTyped (by decide +kernel)).sorted
    (Graph.attentive_of_isAttentive (by decide +kernel)) hreach (by
      rw [hcolumns]
      intro e he
      rw [List.mem_singleton.mp he]
      rfl)
  have hresult : (lineSum.lowerer.resolve {} (.object 2)).Gives insideLineSum "t0" _ :=
    gives_of_toOption (by decide +kernel)
  have harray : (lineSum.arrayOf lineSum.lowerer {} (.object 4) none).Gives insideLineSum "arr0" _ :=
    gives_of_toOption (by decide +kernel)
  refine ⟨by decide +kernel,⟨_,hresult,by decide +kernel,?_⟩,_,harray,by decide +kernel,?_⟩
  · exact hresults {} _ _ _ hresult
  · exact harrays {} _ none _ _ (fun _ h => by cases h) harray

end Setting

end FitCode
