import FitCode.Lowering.Node
import FitCode.Proofs.Lowering.Gives

/-! # Requests that succeed

A request that succeeds gave the access of an open loop, a text that was cached or one that lowering the
node registered. What happened is a relation here with a case for each way.
-/
namespace FitCode

open Emit

variable {c c' : Draft}

theorem gives_insideLoop {α : Type} {x : Emit α} {k : Nat} {a : α} (h : (insideLoop k x).Gives c a c') :
    ∃ c₁, x.Gives c a c₁ ∧ (leaveLoop k).Gives c₁ ⟨⟩ c' := by
  simp only [insideLoop, gives_bind, gives_attempt, gives_ofExcept] at h
  obtain ⟨r,c₁,hx,u,c₂,hl,rfl,rfl⟩ := h
  exact ⟨c₁,hx,hl⟩

theorem gives_atTopLevel {x : Emit Unit} {u : Unit} (h : (atTopLevel x).Gives c u c') :
    ∃ inner, x.Gives c.atTop ⟨⟩ inner ∧ c' = (inner.backTo c).adopt inner := by
  simp only [atTopLevel, gives_get_bind, gives_set_bind] at h
  obtain ⟨r,inner,hx,h⟩ := gives_bind.mp h
  simp only [gives_get_bind, gives_set_bind, gives_ofExcept_bind, gives_modify] at h
  obtain ⟨_,rfl,rfl⟩ := h
  exact ⟨inner,gives_attempt.mp hx,rfl⟩

theorem eq_map_text_of_mapM {codes : List Datum} {texts : List String}
    (h : codes.mapM Datum.text? = some texts) : codes = texts.map .text := by
  induction codes generalizing texts with
  | nil =>
    cases h
    rfl
  | cons code codes ih =>
    simp only [List.mapM_cons, Option.bind_eq_bind, Option.bind_eq_some_iff, Option.pure_def,
      Option.some.injEq] at h
    obtain ⟨text,htext,texts,htexts,rfl⟩ := h
    cases code with
    | text =>
      cases htext
      rw [ih htexts, List.map_cons]
    | _ => cases htext

namespace Setting

variable {s : Setting} {emit : Trail → Datum → Emit Unit} {l : Lowerer} {trail : Trail} {d : Datum}
  {text : String}

/-- A node is lowered where it stands or at top level. -/
inductive Lowers (s : Setting) (emit : Trail → Datum → Emit Unit) (trail : Trail) (d : Datum)
    (id : Identity) (c : Draft) : Draft → Prop
  | here {inner : Draft} (hlift : s.isLiftable c d = .ok false)
    (h : (emit (trail.enter id) d).Gives (c.entered id) ⟨⟩ inner) :
    Lowers s emit trail d id c inner.left
  | lifted {inner : Draft} (hlift : s.isLiftable c d = .ok true)
    (h : (emit (trail.enter id) d).Gives (c.atTop.entered id) ⟨⟩ inner) :
    Lowers s emit trail d id c ((inner.left.backTo c).adopt inner.left)

theorem gives_registered {id : Identity} (h : (do
    match (← get).results[id.serial]? with
    | some e => return e.text
    | none => throw (.noRegistration id.shown) : Emit String).Gives c text c') :
    c' = c ∧ ∃ e, c'.results[id.serial]? = some e ∧ e.text = text := by
  rw [gives_get_bind] at h
  cases hr : c.results[id.serial]? with
  | none => simp [hr] at h
  | some e =>
    simp only [hr, gives_pure] at h
    obtain ⟨rfl,rfl⟩ := h
    exact ⟨rfl,e,hr,rfl⟩

theorem gives_lower {id : Identity} (h : (s.lower emit trail d id).Gives c text c') :
    s.canLower d = true ∧ (∃ e, c'.results[id.serial]? = some e ∧ e.text = text) ∧
      s.Lowers emit trail d id c c' := by
  rw [lower] at h
  split at h
  · exact absurd h fun h => by cases h
  rename_i hcan
  split at h
  · exact absurd h fun h => by cases h
  rw [gives_get_bind, gives_ofExcept_bind] at h
  obtain ⟨lift,hlift,h⟩ := h
  refine ⟨by simpa using hcan,?_⟩
  cases lift with
  | true =>
    obtain ⟨_,c₁,hstep,h⟩ := gives_bind.mp h
    obtain ⟨rfl,hresult⟩ := gives_registered h
    obtain ⟨_,hin,rfl⟩ := gives_atTopLevel hstep
    obtain ⟨inner,hemit,rfl⟩ := gives_whileLowering.mp hin
    exact ⟨hresult,.lifted hlift hemit⟩
  | false =>
    obtain ⟨_,c₁,hstep,h⟩ := gives_bind.mp h
    obtain ⟨rfl,hresult⟩ := gives_registered h
    obtain ⟨inner,hemit,rfl⟩ := gives_whileLowering.mp hstep
    exact ⟨hresult,.here hlift hemit⟩

/-- A result is given in one of four ways. A stale one is set aside before its node is lowered. -/
inductive Resolved (s : Setting) (emit : Trail → Datum → Emit Unit) (trail : Trail) (d : Datum)
    (id : Identity) (c : Draft) : String → Draft → Prop
  | bound {text : String} (hb : c.bindings[id.serial]? = some text) : Resolved s emit trail d id c text c
  | cached {e : Entry} {n : Nat} (hb : c.bindings[id.serial]? = none)
    (hr : c.results[id.serial]? = some e) (hn : s.iterationDepth c d = .ok n) (hle : n ≤ e.depth) :
    Resolved s emit trail d id c e.text c
  | missing {text : String} {c' : Draft} (hb : c.bindings[id.serial]? = none)
    (hr : c.results[id.serial]? = none) (h : (s.lower emit trail d id).Gives c text c') :
    Resolved s emit trail d id c text c'
  | stale {e : Entry} {n : Nat} {text : String} {c' : Draft} (hb : c.bindings[id.serial]? = none)
    (hr : c.results[id.serial]? = some e) (hn : s.iterationDepth c d = .ok n) (hlt : e.depth < n)
    (h : (s.lower emit trail d id).Gives (c.setResultAside id.serial e n) text c') :
    Resolved s emit trail d id c text c'

theorem gives_resolve (h : (s.resolve emit trail d).Gives c text c') :
    ∃ id, s.graph.identityOf d = .ok id ∧ s.Resolved emit trail d id c text c' := by
  rw [resolve] at h
  split at h
  · exact absurd h fun h => by cases h
  rw [identityOf, gives_ofExcept_bind] at h
  obtain ⟨id,hid,h⟩ := h
  refine ⟨id,hid,?_⟩
  rw [gives_get_bind] at h
  cases hb : c.bindings[id.serial]? with
  | some t =>
    simp only [hb, gives_pure] at h
    obtain ⟨rfl,rfl⟩ := h
    exact .bound hb
  | none =>
    simp only [hb] at h
    cases hr : c.results[id.serial]? with
    | none =>
      simp only [hr] at h
      exact .missing hb hr h
    | some e =>
      simp only [hr, gives_ofExcept_bind] at h
      obtain ⟨n,hn,h⟩ := h
      split at h
      · rename_i hle
        obtain ⟨rfl,rfl⟩ := gives_pure.mp h
        exact .cached hb hr hn hle
      · rename_i hlt
        rw [gives_set_bind] at h
        exact .stale hb hr hn (Nat.lt_of_not_le hlt) h

/-- An array is kept or listed from the results of the members. -/
inductive Listed (s : Setting) (l : Lowerer) (trail : Trail) (d : Datum) (name : Option String)
    (id : Identity) (c : Draft) : String → Draft → Prop
  | kept {e : Entry} {n : Nat} (ha : c.arrays[id.serial]? = some e) (hn : s.iterationDepth c d = .ok n)
    (hle : n ≤ e.depth) : Listed s l trail d name id c e.text c
  | new {ms : List Nat} {text : String} {c' : Draft} (ha : c.arrays[id.serial]? = none)
    (hms : s.members d = .ok ms)
    (h : (ms.mapM (fun m => l.resolve (trail.deeper 2) (s.graph.datum m)) >>= fun texts =>
      s.introduceArray id texts name).Gives c text c') : Listed s l trail d name id c text c'
  | again {e : Entry} {n : Nat} {ms : List Nat} {text : String} {c' : Draft}
    (ha : c.arrays[id.serial]? = some e) (hn : s.iterationDepth c d = .ok n) (hlt : e.depth < n)
    (hms : s.members d = .ok ms)
    (h : (ms.mapM (fun m => l.resolve (trail.deeper 2) (s.graph.datum m)) >>= fun texts =>
      s.introduceArray id texts name).Gives (c.setArrayAside id.serial e n) text c') :
    Listed s l trail d name id c text c'

theorem gives_arrayOf {name : Option String} (h : (s.arrayOf l trail d name).Gives c text c') :
    ∃ id, s.graph.identityOf d = .ok id ∧ s.Listed l trail d name id c text c' := by
  rw [arrayOf, identityOf, gives_ofExcept_bind] at h
  obtain ⟨id,hid,h⟩ := h
  refine ⟨id,hid,?_⟩
  rw [gives_get_bind] at h
  cases ha : c.arrays[id.serial]? with
  | none =>
    rw [ha] at h
    obtain ⟨ms,hms,h⟩ := gives_ofExcept_bind.mp h
    exact .new ha hms h
  | some e =>
    rw [ha] at h
    simp only [gives_ofExcept_bind] at h
    obtain ⟨n,hn,h⟩ := h
    split at h
    · rename_i hle
      obtain ⟨rfl,rfl⟩ := gives_pure.mp h
      exact .kept ha hn hle
    · rename_i hlt
      rw [gives_set_bind] at h
      obtain ⟨ms,hms,h⟩ := gives_ofExcept_bind.mp h
      exact .again ha hn (Nat.lt_of_not_le hlt) hms h

theorem gives_callCode {f : String} {args : List Datum}
    (h : (s.callCode l trail f args).Gives c text c') :
    ∃ texts : List String, text = f ++ "(" ++ String.intercalate ", " texts ++ ")" ∧
      (args.mapM fun a => Emit.ofExcept (s.graph.toArgument a) >>=
        s.argumentCode l ((trail.deeper 2).deeper 3)).Gives c (texts.map .text) c' := by
  simp only [callCode, argumentsCode, gives_bind, gives_pure] at h
  obtain ⟨list,_,⟨codes,c₁,hcodes,h⟩,rfl,rfl⟩ := h
  cases htexts : codes.mapM Datum.text? with
  | none => simp [htexts] at h
  | some texts =>
    simp only [htexts, gives_pure] at h
    obtain ⟨rfl,rfl⟩ := h
    exact ⟨texts,rfl,eq_map_text_of_mapM htexts ▸ hcodes⟩

theorem gives_addUp {v t : Nat} {update : String → String → String} {u : PUnit}
    (h : (s.addUp l trail v t update).Gives c u c') :
    ∃ acc c₁ c₂ c₃, s.freshTemp.Gives c acc c₁ ∧ (s.write (acc ++ " = 0.0")).Gives c₁ ⟨⟩ c₂ ∧
      (let add := l.resolve (trail.deeper 2) (s.graph.datum t) >>= fun value => s.write (update acc value)
      if 1 < s.sizes.size (s.graph.idOf t) then s.openLoop (.object v) >>= fun i => insideLoop i add
      else add).Gives c₂ ⟨⟩ c₃ ∧ (s.inlineResult v acc).Gives c₃ u c' := by
  obtain ⟨acc,c₁,hacc,h⟩ := gives_bind.mp h
  obtain ⟨_,c₂,hzero,h⟩ := gives_bind.mp h
  refine ⟨acc,c₁,c₂,?_⟩
  split at h
  · rename_i hn
    rw [← bind_assoc] at h
    obtain ⟨_,c₃,hloop,h⟩ := gives_bind.mp h
    exact ⟨c₃,hacc,hzero,by simpa only [hn, if_true] using hloop,h⟩
  · rename_i hn
    obtain ⟨_,c₃,hadd,h⟩ := gives_bind.mp h
    exact ⟨c₃,hacc,hzero,by simpa only [hn, if_false] using hadd,h⟩

end Setting

end FitCode
