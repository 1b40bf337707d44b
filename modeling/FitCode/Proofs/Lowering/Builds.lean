import FitCode.Proofs.Lowering.Sketch

/-! # What a successful lowering does

`Builds p task σ σ'` says that a task, carried out from the sketch `σ`, ends in the sketch `σ'`. There
is one rule for each way in which a lowering of built-in nodes can succeed, so statements about all
successful lowerings are proved by induction on it. Bounds on the nesting of calls, which can only
make a lowering fail, do not occur.
-/
namespace FitCode

open Text

/-- What an operand is asked for: as a result, or as a call argument, where a collection stands for
the array of its members' results. -/
inductive Role where
  | result
  | argument

namespace Kind

/-- The number that a vertex stands for by itself. -/
def value? : Kind → Option Float
  | parameter x true => some x
  | constant x => some x
  | sum [] => some 0
  | product [] => some 1
  | _ => none

/-- What a node that combines operands asks for, and the expression it makes of them. -/
def combined? : Kind → Option (Role × List Nat × (List Operand → Compound))
  | sum (t :: ts) => some (.result, t :: ts, .sum)
  | product (f :: fs) => some (.result, f :: fs, .product)
  | formula template args => (outline? template).map fun o => (.result, args, .filled o)
  | gaussian x m s => some (.argument, [x, m, s], .call .gaussian)
  | exponential x c => some (.argument, [x, c], .call .exponential)
  | polynomial x cs order =>
    some (.argument, [x, cs], fun xs => .call .polynomial (xs ++ [.whole order]))
  | mixture ds cs => some (.argument, [ds, cs], .call .mixture)
  | _ => none

/-- The term of a reducer, and whether its logarithm is subtracted. -/
def reduced? : Kind → Option (Nat × Bool)
  | entrySum t => some (t, false)
  | negLogLikelihood t => some (t, true)
  | _ => none

end Kind

inductive Task where
  | ask (r : Role) (v : Nat) (x : Operand)
  /-- Asking for several operands in order. -/
  | askAll (r : Role) (vs : List Nat) (xs : List Operand)
  /-- Lowering a node, at top level if it can be lifted. -/
  | lowered (v : Nat)
  /-- Lowering a node where it stands. -/
  | emitted (v : Nat)

/-- The unbound inputs of a vertex. -/
def Plan.loopVars (σ : Sketch) (inputs : List Identity) : List Identity :=
  inputs.filter fun id => (σ.index? id.serial).isNone

inductive Builds (p : Plan) : Task → Sketch → Sketch → Prop
  | bound {σ v x} (hb : σ.binding p v = some x) : Builds p (.ask .result v x) σ σ
  | cached {σ v e d} (hb : σ.binding p v = none) (hr : σ.results v = some e)
      (hd : p.iterationDepth σ v = .ok d) (hle : d ≤ e.depth) :
      Builds p (.ask .result v e.operand) σ σ
  | missing {σ σ' v e} (hb : σ.binding p v = none) (hr : σ.results v = none)
      (hl : Builds p (.lowered v) σ σ') (hr' : σ'.results v = some e) :
      Builds p (.ask .result v e.operand) σ σ'
  | stale {σ σ' v e d e'} (hb : σ.binding p v = none) (hr : σ.results v = some e)
      (hd : p.iterationDepth σ v = .ok d) (hlt : e.depth < d)
      (hl : Builds p (.lowered v) (σ.setResultAside v e d) σ') (hr' : σ'.results v = some e') :
      Builds p (.ask .result v e'.operand) σ σ'
  | here {σ σ' v} (hf : p.isLiftable σ v = .ok false) (he : Builds p (.emitted v) σ σ') :
      Builds p (.lowered v) σ σ'
  | lifted {σ σ' v} (hf : p.isLiftable σ v = .ok true) (he : Builds p (.emitted v) σ.atTop σ') :
      Builds p (.lowered v) σ (σ.adopt σ')
  | literal {σ v a} (hk : (p.graph.kind v).value? = some a) (hr : σ.results v = none) :
      Builds p (.emitted v) σ (σ.register v (.literal a))
  | column {σ v c} (hk : p.graph.kind v = .observable) (hc : p.column? v = some c)
      (hr : σ.results v = none) : Builds p (.emitted v) σ (σ.register v (.column c))
  | combined {σ σ' v r vs make xs} (hk : (p.graph.kind v).combined? = some (r, vs, make))
      (hs : Builds p (.askAll r vs xs) σ σ') (he : (make xs).Proper) (hr : σ'.results v = none) :
      Builds p (.emitted v) σ (σ'.save p v (make xs))
  | added {σ σ' v t log x} (hk : (p.graph.kind v).reduced? = some (t, log))
      (hn : p.sizes.size (p.graph.idOf t) ≤ 1) (ht : Builds p (.ask .result t x) σ.startSum σ')
      (hr : σ'.results v = none) :
      Builds p (.emitted v) σ
        ((σ'.write (.update (.temp σ.temps) log x)).register v (.var (.temp σ.temps)))
  | looped {σ σ' v t log x inputs length} (hk : (p.graph.kind v).reduced? = some (t, log))
      (hn : 1 < p.sizes.size (p.graph.idOf t)) (hi : p.inputs v = .ok inputs)
      (hl : ((Plan.loopVars σ inputs).map p.sizes.size).eraseDups = [length])
      (ht : Builds p (.ask .result t x)
        (σ.startSum.openLoop ((Plan.loopVars σ inputs).map (·.serial)) length) σ')
      (hr : (σ'.write (.update (.temp σ.temps) log x)).closeLoop.results v = none) :
      Builds p (.emitted v) σ
        ((σ'.write (.update (.temp σ.temps) log x)).closeLoop.register v (.var (.temp σ.temps)))
  | nil {σ r} : Builds p (.askAll r [] []) σ σ
  | cons {σ σ' σ'' r v vs x xs} (h : Builds p (.ask r v x) σ σ')
      (hs : Builds p (.askAll r vs xs) σ' σ'') : Builds p (.askAll r (v :: vs) (x :: xs)) σ σ''
  | node {σ σ' v x} (hk : (p.graph.kind v).members? = none) (h : Builds p (.ask .result v x) σ σ') :
      Builds p (.ask .argument v x) σ σ'
  | kept {σ v ms e d} (hk : (p.graph.kind v).members? = some ms) (ha : σ.arrays v = some e)
      (hd : p.iterationDepth σ v = .ok d) (hle : d ≤ e.depth) :
      Builds p (.ask .argument v e.operand) σ σ
  | listed {σ σ' v ms xs} (hk : (p.graph.kind v).members? = some ms) (ha : σ.arrays v = none)
      (hs : Builds p (.askAll .result ms xs) σ σ') :
      Builds p (.ask .argument v (.var (.array σ'.arrayNames))) σ (σ'.bindArray p v xs)
  | listedAgain {σ σ' v ms xs e d} (hk : (p.graph.kind v).members? = some ms)
      (ha : σ.arrays v = some e) (hd : p.iterationDepth σ v = .ok d) (hlt : e.depth < d)
      (hs : Builds p (.askAll .result ms xs) (σ.setArrayAside v e d) σ') :
      Builds p (.ask .argument v (.var (.array σ'.arrayNames))) σ (σ'.bindArray p v xs)

end FitCode
