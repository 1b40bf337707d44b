import FitCode.Proofs.Lowering.Body
import FitCode.Proofs.Lowering.Placement

/-! # Code for one entry at a time

The root of a model can be lowered inside a loop over its observables. The body is then what is bound in
front of the loop, the loop, and a return statement behind it: it returns what the root is in the last
pass.
-/
namespace FitCode

open Text Emit

namespace Model

variable {m : Model} {s : Setting} {c : Draft}

/-- The code of the body with the root lowered inside a loop over its observables. -/
def emitEntry (m : Model) (s : Setting) : Emit String := do
  m.bindArguments s
  let loop ← s.openLoop m.root
  let text ← s.request m.root
  closeLoop loop
  s.finish text

/-- The lines of a body with one loop. -/
def entryLines (before : List Item) (index length : Nat) (body : List Item) : List Line :=
  let header := Item.lineOf 0 (Item.loopText index length)
  Item.linesAll 0 before ++ header :: (Item.linesAll 1 body ++ passFor header (Item.linesAll 1 body))

theorem gives_closeLoop {p : Plan} {σ : Sketch} (hc : c.Fits p σ) {f : Frame} (hf : σ.frames = [f])
    (hbefore : f.before = []) {k : Nat} {u : PUnit} {c' : Draft} (h : Gives (closeLoop k) c u c') :
    c'.body = entryLines f.queued f.index f.length σ.current ∧ c'.preamble = "" := by
  obtain ⟨k',l,hs,hk,hl,hfit,_⟩ := hc.exists_innermost hf
  have hlast : c.stack.getLast? = some k' := by rw [← List.head?_reverse, hk]; rfl
  have heq : k = k' := by
    by_contra hne
    have hne' : (c.stack.getLast? != some k) = true := by
      rw [hlast]
      exact bne_iff_ne.mpr fun h => hne (Option.some.inj h).symm
    simp only [closeLoop, gives_get_bind] at h
    cases hloop : c.loop? k with
    | none => simp [hloop] at h
    | some l' =>
      cases hclosed : l'.closed with
      | true => simp [hloop, hclosed] at h
      | false => simp [hloop, hclosed, hne'] at h
  subst heq
  have hbody : c.body = [] ++ Item.lineOf 0 (Item.loopText f.index f.length) :: Item.linesAll 1 σ.current := by
    rw [hc.body, hf, Frame.lines, hbefore]
    rfl
  have hstart : l.start = 0 := by rw [hfit.start, hbefore]; rfl
  have houtcome := closeLoop_outcome_of hlast hl hfit.closed (by rw [hstart]; exact Nat.zero_le _)
  have hc' : c' = { c with body := Draft.closedBody c.body l }.withoutLoop k l := by
    have hpair := h.symm.trans houtcome
    exact congrArg Prod.snd hpair
  have hdepth : (l.depth : Int) = (Item.lineOf 0 (Item.loopText f.index f.length)).depth + 1 := by
    rw [hfit.depth]
    rfl
  rw [hc']
  refine ⟨?_,hc.preamble⟩
  show Draft.closedBody c.body l = _
  rw [hbody, Draft.closedBody_append hstart hdepth, hfit.queued]
  rfl

/-- What a model went through whose root was lowered inside a loop. -/
structure Unrolls (m : Model) (p : Plan) (start final : Sketch) (ids : List Identity) (n root : Nat)
    (x : Operand) (body : String) : Prop where
  starts : m.Starts p start
  inputs : p.inputs root = .ok ids
  size : ((Plan.loopVars start ids).map p.sizes.size).eraseDups = [n]
  builds : Builds p (.ask .result root x) (start.openLoop ((Plan.loopVars start ids).map (·.serial)) n) final
  body : ∀ f, final.frames = [f] → f.before = [] →
    body = Line.renderAll 4 (entryLines f.queued f.index f.length final.current ++ [⟨0, "return " ++ x.text⟩])

theorem emitEntry_builds
    (hs : s.options = { hoist := s.options.hoist, machine := s.options.machine }) (hg : s.graph.BuiltIn)
    {root : Nat} (hroot : m.root = .object root) (hlt : root < s.graph.size) {n : Nat}
    {body : String} (h : Gives (m.emitEntry s) { nextSerial := n } body c) :
    ∃ p start final ids size x, p.toSetting = s ∧ m.Unrolls p start final ids size root x body := by
  obtain ⟨_,c₁,hbind,h⟩ := gives_bind.mp h
  obtain ⟨k,c₂,hopen,h⟩ := gives_bind.mp h
  obtain ⟨t,c₃,hreq,h⟩ := gives_bind.mp h
  obtain ⟨_,c₄,hclose,h⟩ := gives_bind.mp h
  obtain ⟨p,start,rfl,hp,hstart,hc₁⟩ := fits_bindArguments hs hbind
  rw [hroot] at hopen hreq
  obtain ⟨inputs,size,hinputs,hsize,_,_,hc₂⟩ := Plan.fits_openLoop hp hc₁ hopen
  obtain ⟨x,final,rfl,hb,hc₃,_⟩ := nested_refines hp hg _ hlt hc₂ hreq
  refine ⟨p,start,final,inputs,size,x,rfl,hstart,hinputs,hsize,hb,fun f hf hbefore => ?_⟩
  obtain ⟨hbody,hpre⟩ := gives_closeLoop hc₃ hf hbefore hclose
  obtain ⟨hc,htext⟩ := gives_finish hpre h
  rw [htext, hbody, hp.names]
  rfl

end Model

end FitCode
