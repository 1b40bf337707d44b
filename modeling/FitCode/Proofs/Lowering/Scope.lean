import FitCode.Proofs.Lowering.Bindings
import FitCode.Proofs.Lowering.Body

/-! # Generated functions are well scoped

Whatever a model of built-in nodes generates, with or without hoisting and however the observables of
its reducers overlap, the lines of the body are nested as their loops say and mention introduced
names only where they are bound.
-/
namespace FitCode

open Text Emit

namespace Model

variable {m : Model} {p : Plan} {σ : Sketch}

/-- At the start nothing is bound, and cached operands use no names. -/
theorem Starts.sound (h : m.Starts p σ) : σ.Sound fun _ => False := by
  have hblocks : σ.blocks = [⟨none, []⟩] := by rw [h.sketch]; rfl
  refine ⟨?_,fun d x hx => ?_,fun k e he => ?_,fun k e he => ?_,?_⟩
  · rw [hblocks]
    exact ⟨trivial,.nil⟩
  · rw [hblocks] at hx
    rcases hx with ⟨_,hx | hx⟩ | hx
    · cases hx
    · simp [Item.assigned] at hx
    · exact hx.elim
  · have hvars : e.operand.vars = [] := by
      rcases (h.results k e).mp he with ⟨i,d,id,_,_,_,_,rfl⟩ | ⟨i,d,id,_,_,_,_,rfl⟩
      · rfl
      · rfl
    simp [Sketch.Covers, hvars]
  · rw [h.sketch] at he
    cases he
  · rw [h.sketch]
    trivial

/-- The body of a generated function, with its return statement, is well scoped. -/
theorem generate_wellScoped (hg : m.graph.BuiltIn) {root : Nat} (hroot : m.root = .object root)
    (hlt : root < m.graph.size) {hoist : Bool} {machine : Machine} {source : SizeSource} {n : Nat}
    {gen : Generated} (h : m.generate { hoist, machine } source n = .ok gen) :
    ∃ c expr, (m.emitBody ⟨m.graph, { hoist, machine }, gen.sizes⟩).outcome { nextSerial := n } =
        (.ok gen.body, c) ∧
      gen.body = Line.renderAll 4 (c.body ++ [⟨0, "return " ++ expr⟩]) ∧
      Listing.WellScoped (c.body ++ [⟨0, "return " ++ expr⟩]) := by
  obtain ⟨_,p,start,final,c,x,hgen⟩ := generate_builds hg hroot hlt h
  obtain ⟨hs,hgrow,hx⟩ := hgen.builds.sound hgen.starts.sound
  have hp : p.toSetting = ⟨m.graph, { hoist, machine }, gen.sizes⟩ := by
    rw [← hgen.graph, ← hgen.options, ← hgen.sizes]
  refine ⟨c,x.text,hp ▸ hgen.body,hgen.printed,?_⟩
  have hempty : start.blocks = [⟨none, []⟩] := by rw [hgen.starts.sketch]; rfl
  have hblocks := hgrow.blocks_of_top (by rw [hgen.starts.sketch])
  have hcode := hs.code
  rw [hblocks] at hcode
  rw [hgen.code]
  refine Listing.wellScoped (hcode.2.mono fun y hy => ?_) (fun y => ?_) fun y hy => ?_
  · simp [Block.Binds] at hy
  · have hcount := hgrow.bound y
    rw [hblocks, hempty] at hcount
    have hle : (if start.taken y ≤ y.number ∧ y.number < final.taken y then 1 else 0) ≤ 1 := by
      split <;> omega
    simp only [Block.bound, Item.boundAll, List.append_nil, Option.map_none, Option.toList_none,
      List.nil_append, List.count_nil, Nat.zero_add] at hcount
    exact hcount ▸ hle
  · rcases hx y hy with hx | ⟨d,_,hb⟩
    · exact hx.elim
    · rw [hblocks] at hb
      rcases hb with ⟨_,hb | hb⟩ | hb
      · cases hb
      · exact hb
      · exact hb.elim

/-- Two reducers over `x`, one of them also over `y`, and a sum that uses the other through a formula
in both places. -/
def crossing : Model where
  graph := ⟨#[⟨"x", .observable⟩, ⟨"y", .observable⟩, ⟨"xy", .formula "{0} * {1}" [0, 1]⟩,
    ⟨"r", .entrySum 2⟩, ⟨"m", .formula "{0} + 1.0" [3]⟩,
    ⟨"xm", .formula "{0} * {1}" [0, 4]⟩, ⟨"s", .entrySum 5⟩,
    ⟨"root", .formula "{0} + {1}" [4, 6]⟩]⟩
  root := .object 7
  parameters := []
  observables := [.object 0, .object 1]

theorem builtIn_crossing : crossing.graph.BuiltIn := Graph.builtIn_of_isPlain (by decide)

theorem generate_wellScoped_crossing :
    ∃ gen, crossing.generate { hoist := true }
        (.inferred [(.object 0, .int 2), (.object 1, .int 2)]) 8 = .ok gen ∧
      ∃ c expr, (crossing.emitBody ⟨crossing.graph, { hoist := true }, gen.sizes⟩).outcome
          { nextSerial := 8 } = (.ok gen.body, c) ∧
        gen.body = Line.renderAll 4 (c.body ++ [⟨0, "return " ++ expr⟩]) ∧
        Listing.WellScoped (c.body ++ [⟨0, "return " ++ expr⟩]) := by
  have hok : (crossing.generate { hoist := true }
      (.inferred [(.object 0, .int 2), (.object 1, .int 2)]) 8).toOption.isSome = true := by
    decide +kernel
  cases h : crossing.generate { hoist := true }
      (.inferred [(.object 0, .int 2), (.object 1, .int 2)]) 8 with
  | error f => simp [h, Except.toOption] at hok
  | ok gen => exact ⟨gen,rfl,generate_wellScoped builtIn_crossing rfl (by decide) h⟩

end Model

end FitCode
