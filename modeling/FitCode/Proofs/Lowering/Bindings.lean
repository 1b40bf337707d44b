import FitCode.Proofs.Code.Scope
import FitCode.Proofs.Lowering.Builds
import Mathlib.Tactic.Tauto

/-! # Scopes during a lowering

The open blocks of a sketch only grow at their ends, and every name is bound once, by the block it
was placed in. Whatever is cached uses names that are bound no deeper than its entry says, so it can
be used wherever the entry is still valid.
-/
namespace FitCode

/-- An open block: the index of the loop it is the body of, and its code so far. -/
structure Block where
  index : Option Nat
  code : List Item

namespace Block

def append (b : Block) (is : List Item) : Block := { b with code := b.code ++ is }

/-- The names that a block binds itself. -/
def Names (b : Block) (x : Var) : Prop := b.index.map .index = some x ∨ x ∈ Item.assigned b.code

/-- The block of the given depth binds the name. Blocks are listed from the innermost on. -/
def Binds : List Block → Nat → Var → Prop
  | [], _, _ => False
  | b :: bs, d, x => d = bs.length ∧ b.Names x ∨ Binds bs d x

/-- Every use of a name is covered, `A` holding of the names available outside of all blocks. -/
def Scoped (A : Var → Prop) : List Block → Prop
  | [] => True
  | b :: bs => Scoped A bs ∧
    Item.Scoped (fun x => (A x ∨ ∃ d, Binds bs d x) ∨ b.index.map .index = some x) b.code

/-- All names bound in the blocks. -/
def bound : List Block → List Var
  | [] => []
  | b :: bs => (b.index.map Var.index).toList ++ Item.boundAll b.code ++ bound bs

variable {A : Var → Prop} {b : Block} {bs : List Block} {is : List Item} {d i : Nat} {x : Var}

theorem names_append : (b.append is).Names x ↔ b.Names x ∨ x ∈ Item.assigned is := by
  simp [append, Names, Item.mem_assigned_append, or_assoc]

theorem Binds.lt_length (h : Binds bs d x) : d < bs.length := by
  induction bs with
  | nil => exact h.elim
  | cons b bs ih =>
    rcases h with ⟨rfl,_⟩ | h
    · simp
    · exact Nat.lt_succ_of_lt (ih h)

/-- Appending code to the block of depth `d` adds the names it assigns. -/
theorem binds_modify (hi : i + d + 1 = bs.length) {d' : Nat} :
    Binds (bs.modify i (·.append is)) d' x ↔ Binds bs d' x ∨ d' = d ∧ x ∈ Item.assigned is := by
  induction bs generalizing i with
  | nil => simp at hi
  | cons b bs ih =>
    cases i with
    | zero =>
      have hd : d = bs.length := by simpa using hi
      simp only [List.modify_zero_cons, Binds, names_append, hd]
      tauto
    | succ i =>
      have hi : i + d + 1 = bs.length := by simp at hi; omega
      simp only [List.modify_succ_cons, Binds, List.length_modify, ih hi]
      tauto

theorem binds_loop (hbs : bs ≠ []) {k length : Nat} {body : List Item} :
    Binds (bs.modify 0 (·.append [.loop k length body])) d x ↔ Binds bs d x := by
  have hpos := List.length_pos_of_ne_nil hbs
  rw [binds_modify (d := bs.length - 1) (by omega)]
  simp [Item.assigned]

theorem scoped_modify (h : Scoped A bs) (hi : i + d + 1 = bs.length)
    (hs : Item.Scoped (fun x => A x ∨ ∃ d' ≤ d, Binds bs d' x) is) :
    Scoped A (bs.modify i (·.append is)) := by
  induction bs generalizing i with
  | nil => simp at hi
  | cons b bs ih =>
    cases i with
    | zero =>
      refine ⟨h.1,h.2.append (hs.mono fun y hy => ?_)⟩
      rcases hy with hy | ⟨d',_,⟨_,hy | hy⟩ | hy⟩
      · exact .inl (.inl (.inl hy))
      · exact .inl (.inr hy)
      · exact .inr hy
      · exact .inl (.inl (.inr ⟨d',hy⟩))
    | succ i =>
      have hi : i + d + 1 = bs.length := by simp at hi; omega
      refine ⟨ih h.1 hi (hs.mono fun y hy => ?_),h.2.mono fun y hy => ?_⟩
      · rcases hy with hy | ⟨d',hd',⟨rfl,_⟩ | hy⟩
        · exact .inl hy
        · omega
        · exact .inr ⟨d',hd',hy⟩
      · rcases hy with (hy | ⟨d',hy⟩) | hy
        · exact .inl (.inl hy)
        · exact .inl (.inr ⟨d',(binds_modify hi).mpr (.inl hy)⟩)
        · exact .inr hy

theorem count_bound_modify (hi : i < bs.length) :
    (bound (bs.modify i (·.append is))).count x = (bound bs).count x + (Item.boundAll is).count x := by
  induction bs generalizing i with
  | nil => simp at hi
  | cons b bs ih =>
    cases i with
    | zero =>
      simp only [List.modify_zero_cons, bound, append, Item.boundAll_append, List.count_append]
      omega
    | succ i =>
      simp only [List.modify_succ_cons, bound, List.count_append, ih (by simpa using hi)]
      omega

/-- Blocks that grow at their ends. -/
inductive Grow : List Block → List Block → Prop
  | nil : Grow [] []
  | cons {b bs bs'} (is : List Item) (h : Grow bs bs') : Grow (b :: bs) (b.append is :: bs')

theorem append_nil (b : Block) : b.append [] = b := by simp [append]

namespace Grow

variable {bs' bs'' : List Block}

theorem refl (bs : List Block) : Grow bs bs := by
  induction bs with
  | nil => exact .nil
  | cons b bs ih =>
    have h := Grow.cons (b := b) [] ih
    rwa [append_nil] at h

theorem trans (h : Grow bs bs') (h' : Grow bs' bs'') : Grow bs bs'' := by
  induction h generalizing bs'' with
  | nil => exact h'
  | @cons b bs bs' is _ ih =>
    cases h' with
    | cons js h' =>
      have h := Grow.cons (b := b) (is ++ js) (ih h')
      simpa [append] using h

theorem cons_inv {b' : Block} (h : Grow (b :: bs) (b' :: bs')) :
    (∃ is, b' = b.append is) ∧ Grow bs bs' := by
  cases h with
  | cons is h => exact ⟨⟨is,rfl⟩,h⟩

theorem length_eq (h : Grow bs bs') : bs'.length = bs.length := by
  induction h with
  | nil => rfl
  | cons _ _ ih => simp [ih]

theorem modify (bs : List Block) (i : Nat) (is : List Item) : Grow bs (bs.modify i (·.append is)) := by
  induction bs generalizing i with
  | nil => simpa using Grow.nil
  | cons b bs ih =>
    cases i with
    | zero => exact .cons is (refl bs)
    | succ i =>
      have h := Grow.cons (b := b) [] (ih i)
      rwa [append_nil] at h

theorem binds (h : Grow bs bs') (hb : Binds bs d x) : Binds bs' d x := by
  induction h with
  | nil => exact hb
  | cons is h ih =>
    rcases hb with ⟨rfl,hn⟩ | hb
    · exact .inl ⟨h.length_eq.symm,names_append.mpr (.inl hn)⟩
    · exact .inr (ih hb)

end Grow

end Block

/-- The blocks that frames leave open, `is` being the code of the innermost. -/
def Frame.blocks : List Frame → List Item → List Block
  | [], is => [⟨none, is⟩]
  | f :: fs, is => ⟨some f.index, is⟩ :: blocks fs (f.before ++ f.queued)

theorem Frame.length_blocks (fs : List Frame) (is : List Item) :
    (blocks fs is).length = fs.length + 1 := by
  induction fs generalizing is with
  | nil => rfl
  | cons f fs ih => simp [blocks, ih]

theorem Frame.blocks_append (fs : List Frame) (is js : List Item) :
    blocks fs (is ++ js) = (blocks fs is).modify 0 (·.append js) := by
  cases fs <;> rfl

theorem Frame.blocks_queue {fs : List Frame} {i : Nat} (hi : i < fs.length) (is js : List Item) :
    blocks (fs.modify i fun f => { f with queued := f.queued ++ js }) is =
      (blocks fs is).modify (i + 1) (·.append js) := by
  induction fs generalizing i is with
  | nil => simp at hi
  | cons f fs ih =>
    cases i with
    | zero => simp [blocks, ← List.append_assoc, blocks_append]
    | succ i => simp [blocks, ih (by simpa using hi)]

theorem Frame.blocks_modify (fs : List Frame) (i : Nat) {g : Frame → Frame}
    (hg : ∀ f, (g f).index = f.index ∧ (g f).before = f.before ∧ (g f).queued = f.queued)
    (is : List Item) : blocks (fs.modify i g) is = blocks fs is := by
  induction fs generalizing i is with
  | nil => simp
  | cons f fs ih =>
    cases i with
    | zero => simp [blocks, hg f]
    | succ i => simp [blocks, ih]

theorem Frame.binds_index {f : Frame} {fs : List Frame} (hf : f ∈ fs) (is : List Item) :
    ∃ d, Block.Binds (blocks fs is) d (.index f.index) := by
  induction fs generalizing is with
  | nil => simp at hf
  | cons g fs ih =>
    rcases List.mem_cons.mp hf with rfl | hf
    · exact ⟨_,.inl ⟨rfl,.inl rfl⟩⟩
    · obtain ⟨d,hd⟩ := ih hf (g.before ++ g.queued)
      exact ⟨d,.inr hd⟩

namespace Sketch

variable {σ : Sketch}

def blocks (σ : Sketch) : List Block := Frame.blocks σ.frames σ.current

theorem blocks_cons {f : Frame} {fs : List Frame} (hf : σ.frames = f :: fs) :
    σ.blocks = ⟨some f.index, σ.current⟩ :: Frame.blocks fs (f.before ++ f.queued) := by
  rw [blocks, hf]
  rfl

theorem length_blocks (σ : Sketch) : σ.blocks.length = σ.depth + 1 := Frame.length_blocks ..

theorem blocks_write (σ : Sketch) (i : Item) :
    (σ.write i).blocks = σ.blocks.modify 0 (·.append [i]) := Frame.blocks_append ..

theorem blocks_queue {d : Nat} (hd : d < σ.depth) (is : List Item) :
    (σ.queue d is).blocks = σ.blocks.modify (σ.depth - d) (·.append is) := by
  have hlt : σ.depth - (d + 1) < σ.frames.length := by
    rw [depth] at hd ⊢
    omega
  have h := Frame.blocks_queue hlt σ.current is
  have hi : σ.depth - (d + 1) + 1 = σ.depth - d := by omega
  rw [hi] at h
  exact h

theorem blocks_place {d : Nat} (hd : d ≤ σ.depth) (i : Item) :
    (σ.place d i).blocks = σ.blocks.modify (σ.depth - d) (·.append [i]) := by
  rw [place]
  split
  · rename_i h
    rw [h, Nat.sub_self]
    exact σ.blocks_write i
  · exact blocks_queue (by omega) [i]

theorem blocks_openLoop (σ : Sketch) (vars : List Nat) (length : Nat) :
    (σ.openLoop vars length).blocks = ⟨some σ.indices, []⟩ :: σ.blocks := by
  simp [openLoop, blocks, Frame.blocks]

theorem blocks_closeLoop {f : Frame} {fs : List Frame} (hf : σ.frames = f :: fs) :
    σ.closeLoop.blocks = (Frame.blocks fs (f.before ++ f.queued)).modify 0
      (·.append [.loop f.index f.length σ.current]) := by
  simp only [closeLoop, hf, blocks]
  exact Frame.blocks_append ..

theorem blocks_adopt {inner : Sketch} (h : σ.frames ≠ []) :
    (σ.adopt inner).blocks = σ.blocks.modify σ.depth (·.append inner.current) :=
  blocks_queue (List.length_pos_of_ne_nil h) inner.current

/-- Takes a name. -/
def take (σ : Sketch) : Var → Sketch
  | .temp _ => { σ with temps := σ.temps + 1 }
  | .array _ => { σ with arrayNames := σ.arrayNames + 1 }
  | .index _ => { σ with indices := σ.indices + 1 }

/-- Takes a name and binds it at the given depth. -/
def bindAt (σ : Sketch) (x : Var) (d : Nat) (e : Compound) : Sketch :=
  ((σ.take x).note x d).place d (.assign x e)

theorem startSum_eq (σ : Sketch) :
    σ.startSum = σ.bindAt (.temp σ.temps) σ.depth (.single (.literal 0)) := by
  simp [startSum, bindAt, place, takeTemp, take, note, depth]

theorem bindTemp_eq (p : Plan) (σ : Sketch) (e : Compound) :
    σ.bindTemp p e = σ.bindAt (.temp σ.temps) (σ.takeTemp.home p e.vars) e := by
  simp [bindTemp, introduce, bindAt, takeTemp, take, note]

theorem introduce_array (p : Plan) (σ : Sketch) (e : Compound) :
    { σ with arrayNames := σ.arrayNames + 1 }.introduce p (.array σ.arrayNames) e =
      σ.bindAt (.array σ.arrayNames) (σ.home p e.vars) e := rfl

/-- What every part of a lowering does to a sketch: open blocks grow at their ends, old names keep
their depths, and each name taken is bound once. -/
structure Grows (σ σ' : Sketch) : Prop where
  blocks : Block.Grow σ.blocks σ'.blocks
  taken : ∀ x, σ.taken x ≤ σ'.taken x
  depths : ∀ x : Var, x.number < σ.taken x → σ'.depths x = σ.depths x
  bound : ∀ x : Var, (Block.bound σ'.blocks).count x = (Block.bound σ.blocks).count x +
    if σ.taken x ≤ x.number ∧ x.number < σ'.taken x then 1 else 0

namespace Grows

variable {σ' σ'' : Sketch}

theorem of_eq (hb : σ'.blocks = σ.blocks) (ht : ∀ x, σ'.taken x = σ.taken x)
    (hd : σ'.depths = σ.depths) : σ.Grows σ' where
  blocks := by
    rw [hb]
    exact .refl _
  taken := fun x => (ht x).ge
  depths := fun x _ => by rw [hd]
  bound := fun x => by
    have hn : ¬ (σ.taken x ≤ x.number ∧ x.number < σ'.taken x) := by rw [ht x]; omega
    rw [hb, if_neg hn, Nat.add_zero]

theorem refl (σ : Sketch) : σ.Grows σ := of_eq rfl (fun _ => rfl) rfl

theorem trans (h : σ.Grows σ') (h' : σ'.Grows σ'') : σ.Grows σ'' where
  blocks := h.blocks.trans h'.blocks
  taken := fun x => Nat.le_trans (h.taken x) (h'.taken x)
  depths := fun x hx => by
    rw [h'.depths x (Nat.lt_of_lt_of_le hx (h.taken x)), h.depths x hx]
  bound := fun x => by
    have h₁ := h.taken x
    have h₂ := h'.taken x
    rw [h'.bound, h.bound]
    split <;> split <;> split <;> omega

theorem depth_eq (h : σ.Grows σ') : σ'.depth = σ.depth := by
  have hl := h.blocks.length_eq
  rw [length_blocks, length_blocks] at hl
  omega

theorem blocks_of_top (h : σ.Grows σ') (hf : σ.frames = []) : σ'.blocks = [⟨none, σ'.current⟩] := by
  have hd := h.depth_eq
  rw [depth, depth, hf] at hd
  rw [Sketch.blocks, List.eq_nil_of_length_eq_zero hd]
  rfl

end Grows

/-- A name is available at a depth, `A` holding of the names available outside of all blocks. -/
def Sees (σ : Sketch) (A : Var → Prop) (d : Nat) (x : Var) : Prop :=
  A x ∨ ∃ d' ≤ d, Block.Binds σ.blocks d' x

/-- The names of a cached operand are available at its depth. -/
def Covers (σ : Sketch) (A : Var → Prop) (e : Held) : Prop :=
  ∀ x ∈ e.operand.vars, σ.Sees A e.depth x

/-- The names of an operand are available in the innermost block. -/
def CanUse (σ : Sketch) (A : Var → Prop) (x : Operand) : Prop :=
  ∀ y ∈ x.vars, σ.Sees A σ.depth y

/-- What an open loop sets aside is valid outside of it. -/
def KeptAside (σ : Sketch) (A : Var → Prop) : List Frame → Prop
  | [] => True
  | f :: fs =>
    (∀ k e, f.results k = some e ∨ f.arrays k = some e → e.depth ≤ fs.length ∧ σ.Covers A e) ∧
      σ.KeptAside A fs

structure Sound (A : Var → Prop) (σ : Sketch) : Prop where
  code : Block.Scoped A σ.blocks
  names : ∀ d x, Block.Binds σ.blocks d x → d ≤ σ.depths x ∧ x.number < σ.taken x
  results : ∀ k e, σ.results k = some e → σ.Covers A e
  arrays : ∀ k e, σ.arrays k = some e → σ.Covers A e
  aside : σ.KeptAside A σ.frames

variable {A : Var → Prop} {σ' : Sketch} {d d' : Nat} {x : Var} {e : Held}

theorem Sees.deeper (h : σ.Sees A d x) (hd : d ≤ d') : σ.Sees A d' x :=
  h.imp_right fun ⟨n,hn,hb⟩ => ⟨n,Nat.le_trans hn hd,hb⟩

theorem Sees.innermost (h : σ.Sees A d x) : σ.Sees A σ.depth x :=
  h.imp_right fun ⟨n,_,hb⟩ => ⟨n,by have := hb.lt_length; rw [length_blocks] at this; omega,hb⟩

theorem Grows.sees (h : σ.Grows σ') (hx : σ.Sees A d x) : σ'.Sees A d x :=
  hx.imp_right fun ⟨n,hn,hb⟩ => ⟨n,hn,h.blocks.binds hb⟩

theorem Grows.covers (h : σ.Grows σ') (he : σ.Covers A e) : σ'.Covers A e :=
  fun x hx => h.sees (he x hx)

theorem Grows.canUse (h : σ.Grows σ') {o : Operand} (ho : σ.CanUse A o) : σ'.CanUse A o :=
  fun y hy => h.depth_eq ▸ h.sees (ho y hy)

theorem KeptAside.mono {fs : List Frame} (h : σ.KeptAside A fs)
    (hc : ∀ e : Held, e.depth < fs.length → σ.Covers A e → σ'.Covers A e) : σ'.KeptAside A fs := by
  induction fs with
  | nil => trivial
  | cons f fs ih =>
    refine ⟨fun k e he => ?_,ih h.2 fun e he => hc e (Nat.lt_succ_of_lt he)⟩
    obtain ⟨hle,hce⟩ := h.1 k e he
    exact ⟨hle,hc e (Nat.lt_succ_of_le hle) hce⟩

/-- Changes to a frame that keep what it sets aside, up to entries that may be set aside there. -/
theorem KeptAside.modify {fs : List Frame} (h : σ.KeptAside A fs) {i : Nat} {g : Frame → Frame}
    (hg : ∀ f k e, (g f).results k = some e ∨ (g f).arrays k = some e →
      f.results k = some e ∨ f.arrays k = some e ∨ e.depth + i < fs.length ∧ σ.Covers A e) :
    σ.KeptAside A (fs.modify i g) := by
  induction fs generalizing i with
  | nil => simpa using h
  | cons f fs ih =>
    cases i with
    | zero =>
      refine ⟨fun k e he => ?_,h.2⟩
      rcases hg f k e he with he | he | ⟨hd,hc⟩
      · exact h.1 k e (.inl he)
      · exact h.1 k e (.inr he)
      · exact ⟨by simpa [Nat.lt_succ_iff] using hd,hc⟩
    | succ i =>
      rw [List.modify_succ_cons]
      refine ⟨by rw [List.length_modify]; exact h.1,ih h.2 fun f k e he => ?_⟩
      rcases hg f k e he with he | he | ⟨hd,hc⟩
      · exact .inl he
      · exact .inr (.inl he)
      · exact .inr (.inr ⟨by simp at hd; omega,hc⟩)

theorem Sound.sees_depthOf (h : σ.Sound A) {ys : List Var} {y : Var} (hy : y ∈ ys)
    (hs : σ.Sees A σ.depth y) : σ.Sees A (σ.depthOf ys) y := by
  rcases hs with hs | ⟨n,hn,hb⟩
  · exact .inl hs
  · exact .inr ⟨n,le_depthOf hy (h.names n y hb).1 hn,hb⟩

theorem grows_register (σ : Sketch) (v : Nat) (x : Operand) : σ.Grows (σ.register v x) :=
  .of_eq rfl (fun y => by cases y <;> rfl) rfl

theorem Sound.register (h : σ.Sound A) (v : Nat) {x : Operand} (hx : σ.CanUse A x) :
    (σ.register v x).Sound A where
  code := h.code
  names := fun d y hy => by
    have := h.names d y hy
    cases y <;> exact this
  results := fun k e he => by
    by_cases hk : k = v
    · subst hk
      simp only [Sketch.register, Function.update_self, Option.some.injEq] at he
      subst he
      exact fun y hy => h.sees_depthOf hy (hx y hy)
    · simp only [Sketch.register, Function.update_of_ne hk] at he
      exact h.results k e he
  arrays := h.arrays
  aside := h.aside.mono fun _ _ he => he

section bindAt

variable {c : Compound}

theorem taken_bindAt (x y : Var) : (σ.bindAt x d c).taken y =
    if (x.stem = y.stem) then σ.taken y + 1 else σ.taken y := by
  rw [bindAt, place]
  split <;> cases x <;> cases y <;> simp [take, note, write, queue, modifyFrame, taken, Var.stem]

theorem depths_bindAt (x : Var) : (σ.bindAt x d c).depths = Function.update σ.depths x d := by
  rw [bindAt, place]
  split <;> cases x <;> rfl

theorem blocks_bindAt (hd : d ≤ σ.depth) (x : Var) :
    (σ.bindAt x d c).blocks = σ.blocks.modify (σ.depth - d) (·.append [.assign x c]) := by
  have h : ((σ.take x).note x d).depth = σ.depth ∧ ((σ.take x).note x d).blocks = σ.blocks := by
    cases x <;> exact ⟨rfl,rfl⟩
  rw [bindAt, blocks_place (by rw [h.1]; exact hd), h.1, h.2]

theorem results_bindAt (x : Var) : (σ.bindAt x d c).results = σ.results := by
  rw [bindAt, place]
  split <;> cases x <;> rfl

theorem arrays_bindAt (x : Var) : (σ.bindAt x d c).arrays = σ.arrays := by
  rw [bindAt, place]
  split <;> cases x <;> rfl

theorem frames_bindAt (x : Var) : ∃ i is, (σ.bindAt x d c).frames =
    σ.frames.modify i fun f => { f with queued := f.queued ++ is } := by
  rw [bindAt, place]
  split
  · refine ⟨0,[],?_⟩
    have h : (fun f : Frame => { f with queued := f.queued ++ [] }) = id := by
      funext f
      simp
    rw [h, List.modify_id]
    cases x <;> rfl
  · cases x <;> exact ⟨_,_,rfl⟩

theorem binds_bindAt (hd : d ≤ σ.depth) {y : Var} : Block.Binds (σ.bindAt x d c).blocks d' y ↔
    Block.Binds σ.blocks d' y ∨ d' = d ∧ y = x := by
  rw [blocks_bindAt hd, Block.binds_modify (d := d) (by rw [length_blocks]; omega)]
  simp [Item.assigned]

theorem taken_iff (hx : x.number = σ.taken x) (y : Var) :
    σ.taken y ≤ y.number ∧ y.number < (σ.bindAt x d c).taken y ↔ y = x := by
  rw [taken_bindAt]
  cases x <;> cases y <;> simp [Var.stem, taken, Var.number] at hx ⊢ <;> omega

theorem grows_bindAt (hx : x.number = σ.taken x) (hd : d ≤ σ.depth) : σ.Grows (σ.bindAt x d c) where
  blocks := by
    rw [blocks_bindAt hd]
    exact .modify ..
  taken := fun y => by
    rw [taken_bindAt]
    split <;> omega
  depths := fun y hy => by
    rw [depths_bindAt, Function.update_of_ne]
    rintro rfl
    omega
  bound := fun y => by
    have hcount : (Item.boundAll [.assign x c]).count y = if y = x then 1 else 0 := by
      by_cases hy : y = x
      · simp [Item.boundAll, Item.bound, hy]
      · simp [Item.boundAll, Item.bound, hy, Ne.symm hy]
    rw [blocks_bindAt hd, Block.count_bound_modify (by rw [length_blocks]; omega), hcount]
    simp only [taken_iff hx]

theorem Sound.bindAt (h : σ.Sound A) (hx : x.number = σ.taken x) (hxa : x.isAssigned = true)
    (hd : d ≤ σ.depth) (hp : c.Proper) (hc : ∀ y ∈ c.vars, σ.Sees A d y) :
    (σ.bindAt x d c).Sound A where
  code := by
    rw [blocks_bindAt hd]
    exact Block.scoped_modify h.code (by rw [length_blocks]; omega) (.assign hxa hp hc .nil)
  names := fun n y hy => by
    have hg := grows_bindAt (c := c) hx hd
    rcases (binds_bindAt hd).mp hy with hy | ⟨rfl,rfl⟩
    · obtain ⟨hle,hlt⟩ := h.names n y hy
      exact ⟨by rw [hg.depths y hlt]; exact hle,Nat.lt_of_lt_of_le hlt (hg.taken y)⟩
    · exact ⟨by rw [depths_bindAt, Function.update_self],((taken_iff hx y).mpr rfl).2⟩
  results := fun k e he => by
    rw [results_bindAt] at he
    exact (grows_bindAt hx hd).covers (h.results k e he)
  arrays := fun k e he => by
    rw [arrays_bindAt] at he
    exact (grows_bindAt hx hd).covers (h.arrays k e he)
  aside := by
    obtain ⟨i,is,hf⟩ := σ.frames_bindAt (d := d) (c := c) x
    rw [hf]
    refine KeptAside.modify (h.aside.mono fun e _ he => (grows_bindAt hx hd).covers he) ?_
    exact fun f k e he => he.imp_right .inl

end bindAt

theorem grows_startSum (σ : Sketch) : σ.Grows σ.startSum := by
  rw [startSum_eq]
  exact grows_bindAt rfl (Nat.le_refl _)

theorem Sound.startSum (h : σ.Sound A) : σ.startSum.Sound A := by
  rw [startSum_eq]
  exact h.bindAt rfl rfl (Nat.le_refl _) trivial (by simp [Compound.vars, Compound.operands, Operand.vars])

theorem Grows.sees_sum (h : σ.startSum.Grows σ') : σ'.Sees A σ.depth (.temp σ.temps) := by
  refine h.sees (.inr ⟨σ.depth,Nat.le_refl _,?_⟩)
  rw [startSum_eq]
  exact (binds_bindAt (Nat.le_refl _)).mpr (.inr ⟨rfl,rfl⟩)

theorem Grows.canUse_sum (h : σ.startSum.Grows σ') : σ'.CanUse A (.var (.temp σ.temps)) :=
  fun y hy => by rw [List.mem_singleton.mp hy]; exact h.sees_sum.innermost

theorem home_le (p : Plan) (σ : Sketch) (xs : List Var) : σ.home p xs ≤ σ.depth := by
  rw [home]
  split
  · exact Nat.min_le_right _ _
  · exact Nat.le_refl _

theorem grows_bindTemp (p : Plan) (σ : Sketch) (e : Compound) : σ.Grows (σ.bindTemp p e) := by
  rw [bindTemp_eq]
  exact grows_bindAt rfl (home_le p σ.takeTemp e.vars)

/-- The names of an expression are available where it is bound. The depth may be found in a sketch
in which further names have been taken. -/
theorem Sound.sees_home (h : σ.Sound A) (p : Plan) (σ' : Sketch) (hdepth : σ'.depth = σ.depth)
    (hdepths : ∀ y : Var, y.number < σ.taken y → σ'.depths y = σ.depths y) {ys : List Var} {y : Var}
    (hy : y ∈ ys) (hs : σ.Sees A σ.depth y) : σ.Sees A (σ'.home p ys) y := by
  rcases hs with hs | ⟨n,hn,hb⟩
  · exact .inl hs
  · obtain ⟨hle,hlt⟩ := h.names n y hb
    refine .inr ⟨n,?_,hb⟩
    rw [home]
    split
    · exact le_depthOf hy (by rw [hdepths y hlt]; exact hle) (hdepth ▸ hn)
    · exact hdepth ▸ hn

/-- The operands of an expression can be used. -/
def CanUseAll (σ : Sketch) (A : Var → Prop) (e : Compound) : Prop := ∀ y ∈ e.vars, σ.Sees A σ.depth y

theorem Sound.bindTemp (h : σ.Sound A) (p : Plan) {e : Compound} (he : e.Proper)
    (hu : σ.CanUseAll A e) : (σ.bindTemp p e).Sound A := by
  rw [bindTemp_eq]
  refine h.bindAt rfl rfl (home_le p σ.takeTemp e.vars) he fun y hy => ?_
  refine h.sees_home p σ.takeTemp rfl (fun z hz => ?_) hy (hu y hy)
  refine Function.update_of_ne ?_ _ _
  rintro rfl
  exact Nat.lt_irrefl _ hz

theorem grows_save (p : Plan) (σ : Sketch) (v : Nat) (e : Compound) : σ.Grows (σ.save p v e) :=
  (grows_bindTemp p σ e).trans (grows_register ..)

theorem Sound.save (h : σ.Sound A) (p : Plan) (v : Nat) {e : Compound} (he : e.Proper)
    (hu : σ.CanUseAll A e) : (σ.save p v e).Sound A := by
  refine (h.bindTemp p he hu).register v fun y hy => ?_
  rw [List.mem_singleton.mp hy, bindTemp_eq]
  have hle : σ.takeTemp.home p e.vars ≤ σ.depth := home_le p σ.takeTemp e.vars
  exact Sees.innermost (.inr ⟨_,Nat.le_refl _,(binds_bindAt hle).mpr (.inr ⟨rfl,rfl⟩)⟩)

theorem grows_bindArray (p : Plan) (σ : Sketch) (v : Nat) (xs : List Operand) :
    σ.Grows (σ.bindArray p v xs) := by
  rw [bindArray, introduce_array]
  exact (grows_bindAt rfl (home_le p σ _)).trans (.of_eq rfl (fun y => by cases y <;> rfl) rfl)

theorem Sound.bindArray (h : σ.Sound A) (p : Plan) (v : Nat) {xs : List Operand}
    (hu : ∀ x ∈ xs, σ.CanUse A x) : (σ.bindArray p v xs).Sound A := by
  have hle := home_le p σ (Compound.array xs).vars
  have hs : (σ.bindAt (.array σ.arrayNames) (σ.home p (Compound.array xs).vars) (.array xs)).Sound A := by
    refine h.bindAt rfl rfl hle trivial fun y hy => ?_
    obtain ⟨x,hx,hyx⟩ := List.mem_flatMap.mp hy
    exact h.sees_home p _ rfl (fun _ _ => rfl) hy (hu x hx y hyx)
  rw [Sketch.bindArray, introduce_array]
  refine ⟨hs.code,fun d y hy => ?_,hs.results,fun k e he => ?_,hs.aside.mono fun _ _ he => he⟩
  · have := hs.names d y hy
    cases y <;> exact this
  · by_cases hk : k = v
    · subst hk
      simp only [Function.update_self, Option.some.injEq] at he
      subst he
      intro y hy
      rw [List.mem_singleton.mp hy]
      refine .inr ⟨_,?_,(binds_bindAt hle).mpr (.inr ⟨rfl,rfl⟩)⟩
      rw [depths_bindAt, Function.update_self]
    · simp only [Function.update_of_ne hk] at he
      exact hs.arrays k e he

theorem canUse_bindArray (p : Plan) (σ : Sketch) (A : Var → Prop) (v : Nat) (xs : List Operand) :
    (σ.bindArray p v xs).CanUse A (.var (.array σ.arrayNames)) := by
  intro y hy
  have hle := home_le p σ (Compound.array xs).vars
  rw [List.mem_singleton.mp hy, Sketch.bindArray, introduce_array]
  exact Sees.innermost (.inr ⟨_,Nat.le_refl _,(binds_bindAt hle).mpr (.inr ⟨rfl,rfl⟩)⟩)

theorem grows_setResultAside (σ : Sketch) (v : Nat) (e : Held) (d : Nat) :
    σ.Grows (σ.setResultAside v e d) := by
  refine .of_eq (Frame.blocks_modify σ.frames _ ?_ _) (fun y => by cases y <;> rfl) rfl
  exact fun _ => ⟨rfl,rfl,rfl⟩

theorem grows_setArrayAside (σ : Sketch) (v : Nat) (e : Held) (d : Nat) :
    σ.Grows (σ.setArrayAside v e d) := by
  refine .of_eq (Frame.blocks_modify σ.frames _ ?_ _) (fun y => by cases y <;> rfl) rfl
  exact fun _ => ⟨rfl,rfl,rfl⟩

/-- Steps that touch neither code nor names keep soundness if they keep the caches sound. -/
theorem Sound.of_eq (h : σ.Sound A) (hb : σ'.blocks = σ.blocks) (ht : ∀ x, σ'.taken x = σ.taken x)
    (hd : σ'.depths = σ.depths) (hr : ∀ k e, σ'.results k = some e → σ.Covers A e)
    (ha : ∀ k e, σ'.arrays k = some e → σ.Covers A e) (hf : σ.KeptAside A σ'.frames) :
    σ'.Sound A := by
  have hg : σ.Grows σ' := .of_eq hb ht hd
  refine ⟨hb ▸ h.code,fun d x hx => ?_,fun k e he => hg.covers (hr k e he),
    fun k e he => hg.covers (ha k e he),hf.mono fun e _ he => hg.covers he⟩
  rw [hb] at hx
  rw [hd, ht x]
  exact h.names d x hx

theorem eq_some_of_update_none {m : Holding} {v k : Nat} {e : Held}
    (h : Function.update m v none k = some e) : m k = some e := by
  by_cases hk : k = v
  · subst hk
    simp at h
  · rwa [Function.update_of_ne hk] at h

theorem eq_or_of_update_some {m : Holding} {v k : Nat} {e e' : Held}
    (h : Function.update m v (some e) k = some e') : e' = e ∨ m k = some e' := by
  by_cases hk : k = v
  · subst hk
    simp only [Function.update_self, Option.some.injEq] at h
    exact .inl h.symm
  · rw [Function.update_of_ne hk] at h
    exact .inr h

theorem Sound.setResultAside (h : σ.Sound A) {v : Nat} (he : σ.results v = some e)
    (hlt : e.depth < d) (hd : d ≤ σ.depth) : (σ.setResultAside v e d).Sound A := by
  refine h.of_eq (Frame.blocks_modify σ.frames _ (fun _ => ?_) _) (fun y => by cases y <;> rfl) rfl
    (fun k e' he' => h.results k e' (eq_some_of_update_none he')) h.arrays
    (KeptAside.modify h.aside fun f k e' he' => ?_)
  · exact ⟨rfl,rfl,rfl⟩
  · rcases he' with he' | he'
    · rcases eq_or_of_update_some he' with rfl | he'
      · exact .inr (.inr ⟨by simp only [depth] at hd ⊢; omega,h.results v e' he⟩)
      · exact .inl he'
    · exact .inr (.inl he')

theorem Sound.setArrayAside (h : σ.Sound A) {v : Nat} (he : σ.arrays v = some e)
    (hlt : e.depth < d) (hd : d ≤ σ.depth) : (σ.setArrayAside v e d).Sound A := by
  refine h.of_eq (Frame.blocks_modify σ.frames _ (fun _ => ?_) _) (fun y => by cases y <;> rfl) rfl
    h.results (fun k e' he' => h.arrays k e' (eq_some_of_update_none he'))
    (KeptAside.modify h.aside fun f k e' he' => ?_)
  · exact ⟨rfl,rfl,rfl⟩
  · rcases he' with he' | he'
    · exact .inl he'
    · rcases eq_or_of_update_some he' with rfl | he'
      · exact .inr (.inr ⟨by simp only [depth] at hd ⊢; omega,h.arrays v e' he⟩)
      · exact .inr (.inl he')

theorem grows_write_update (σ : Sketch) (x : Var) (log : Bool) (value : Operand) :
    σ.Grows (σ.write (.update x log value)) where
  blocks := by
    rw [blocks_write]
    exact .modify ..
  taken := fun y => by cases y <;> exact Nat.le_refl _
  depths := fun _ _ => rfl
  bound := fun y => by
    have hn : ¬ (σ.taken y ≤ y.number ∧ y.number < (σ.write (.update x log value)).taken y) := by
      cases y <;> simp [taken, write]
    rw [blocks_write, Block.count_bound_modify (by rw [length_blocks]; omega), if_neg hn]
    simp [Item.boundAll, Item.bound]

theorem Sound.write_update (h : σ.Sound A) (log : Bool) {value : Operand} (hx : σ.Sees A σ.depth x)
    (hv : σ.CanUse A value) : (σ.write (.update x log value)).Sound A where
  code := by
    rw [blocks_write]
    exact Block.scoped_modify h.code (by rw [length_blocks]; omega) (.update hx hv .nil)
  names := fun d y hy => by
    rw [blocks_write, Block.binds_modify (d := σ.depth) (by rw [length_blocks]; omega)] at hy
    have hy := h.names d y (hy.resolve_right (by simp [Item.assigned]))
    cases y <;> exact hy
  results := fun k e he => (grows_write_update ..).covers (h.results k e he)
  arrays := fun k e he => (grows_write_update ..).covers (h.arrays k e he)
  aside := h.aside.mono fun _ _ he => (grows_write_update ..).covers he

theorem taken_openLoop (vars : List Nat) (length : Nat) (x : Var) :
    (σ.openLoop vars length).taken x = if x.isAssigned then σ.taken x else σ.taken x + 1 := by
  cases x <;> rfl

theorem sees_openLoop {vars : List Nat} {length : Nat} (h : σ.Sees A d x) :
    (σ.openLoop vars length).Sees A d x :=
  h.imp_right fun ⟨n,hn,hb⟩ => ⟨n,hn,by rw [blocks_openLoop]; exact .inr hb⟩

theorem Sound.openLoop (h : σ.Sound A) (vars : List Nat) (length : Nat) :
    (σ.openLoop vars length).Sound A := by
  have hblocks := σ.blocks_openLoop vars length
  have hcovers : ∀ e : Held, σ.Covers A e → (σ.openLoop vars length).Covers A e :=
    fun e he x hx => sees_openLoop (he x hx)
  refine ⟨?_,fun d x hx => ?_,fun k e he => hcovers e (h.results k e he),
    fun k e he => hcovers e (h.arrays k e he),⟨by simp,h.aside.mono fun e _ => hcovers e⟩⟩
  · rw [hblocks]
    exact ⟨h.code,.nil⟩
  · rw [hblocks] at hx
    rcases hx with ⟨rfl,hx | hx⟩ | hx
    · cases hx
      rw [length_blocks]
      exact ⟨by simp [Sketch.openLoop, note],by simp [Sketch.openLoop, taken, Var.number]⟩
    · simp [Item.assigned] at hx
    · obtain ⟨hle,hlt⟩ := h.names d x hx
      have hne : x ≠ .index σ.indices := by
        rintro rfl
        exact Nat.lt_irrefl _ hlt
      refine ⟨by simpa [Sketch.openLoop, note, hne] using hle,?_⟩
      rw [taken_openLoop]
      split <;> omega

theorem Covers.closeLoop {f : Frame} {fs : List Frame} (hf : σ.frames = f :: fs)
    (he : σ.Covers A e) (hle : e.depth ≤ fs.length) : σ.closeLoop.Covers A e := by
  intro x hx
  refine (he x hx).imp_right fun ⟨n,hn,hb⟩ => ⟨n,hn,?_⟩
  have hlen := Frame.length_blocks fs (f.before ++ f.queued)
  rw [blocks_closeLoop hf, Block.binds_loop (List.ne_nil_of_length_pos (by omega))]
  rw [blocks_cons hf] at hb
  rcases hb with ⟨rfl,_⟩ | hb
  · omega
  · exact hb

theorem Sound.closeLoop (h : σ.Sound A) (hne : σ.frames ≠ []) (hcur : σ.current ≠ []) :
    σ.closeLoop.Sound A := by
  obtain ⟨f,fs,hf⟩ := List.exists_cons_of_ne_nil hne
  have hlen := Frame.length_blocks fs (f.before ++ f.queued)
  have hnil : Frame.blocks fs (f.before ++ f.queued) ≠ [] := List.ne_nil_of_length_pos (by omega)
  have hblocks := blocks_cons hf
  have hdepth : σ.depth = fs.length + 1 := by rw [depth, hf]; rfl
  have hcode := h.code
  have haside := h.aside
  rw [hblocks] at hcode
  rw [hf] at haside
  have hcache : ∀ (m m' : Holding) k e, m'.orElse (m.below σ.depth) k = some e →
      (∀ k e, m' k = some e → e.depth ≤ fs.length ∧ σ.Covers A e) →
      (∀ k e, m k = some e → σ.Covers A e) → σ.closeLoop.Covers A e := by
    intro m m' k e he hm' hm
    rcases Option.or_eq_some_iff.mp he with he | ⟨_,he⟩
    · exact (hm' k e he).2.closeLoop hf (hm' k e he).1
    · obtain ⟨he,hlt⟩ := Option.filter_eq_some_iff.mp he
      exact (hm k e he).closeLoop hf (by simp only [hdepth, decide_eq_true_eq] at hlt; omega)
  refine ⟨?_,fun d x hx => ?_,fun k e he => ?_,fun k e he => ?_,?_⟩
  · rw [blocks_closeLoop hf]
    refine Block.scoped_modify (d := fs.length) hcode.1 (by omega)
      (.loop hcur (hcode.2.mono fun y hy => ?_) .nil)
    rcases hy with (hy | ⟨n,hy⟩) | hy
    · exact .inl (.inl hy)
    · exact .inl (.inr ⟨n,by have := hy.lt_length; omega,hy⟩)
    · exact .inr (Option.some.inj hy).symm
  · rw [blocks_closeLoop hf, Block.binds_loop hnil] at hx
    have hx := h.names d x (by rw [hblocks]; exact .inr hx)
    rw [Sketch.closeLoop, hf]
    cases x <;> exact hx
  · simp only [Sketch.closeLoop, hf] at he
    exact hcache _ _ k e he (fun k e he => haside.1 k e (.inl he)) h.results
  · simp only [Sketch.closeLoop, hf] at he
    exact hcache _ _ k e he (fun k e he => haside.1 k e (.inr he)) h.arrays
  · have hframes : σ.closeLoop.frames = fs := by rw [Sketch.closeLoop, hf]
    rw [hframes]
    exact haside.2.mono fun e he hce => hce.closeLoop hf (Nat.le_of_lt he)

theorem count_bound_openLoop (vars : List Nat) (length : Nat) (x : Var) :
    (Block.bound (σ.openLoop vars length).blocks).count x = (Block.bound σ.blocks).count x +
      if σ.taken x ≤ x.number ∧ x.number < (σ.openLoop vars length).taken x then 1 else 0 := by
  have hiff : (σ.taken x ≤ x.number ∧ x.number < (σ.openLoop vars length).taken x) ↔
      x = .index σ.indices := by
    rw [taken_openLoop]
    cases x <;> simp [Var.isAssigned, taken, Var.number]
    omega
  simp only [blocks_openLoop, hiff]
  by_cases hx : x = .index σ.indices
  · simp [Block.bound, Item.boundAll, hx, Nat.add_comm]
  · simp [Block.bound, Item.boundAll, hx, Ne.symm hx]

/-- Closing a loop moves its code, and with it the names bound there. -/
theorem count_bound_closeLoop {f : Frame} {fs : List Frame} (hf : σ.frames = f :: fs) (x : Var) :
    (Block.bound σ.closeLoop.blocks).count x = (Block.bound σ.blocks).count x := by
  have hlen := Frame.length_blocks fs (f.before ++ f.queued)
  rw [blocks_closeLoop hf, Block.count_bound_modify (by omega), blocks_cons hf]
  simp only [Block.bound, Item.boundAll, Item.bound, List.append_nil, List.count_append,
    Option.map_some, Option.toList_some, List.count_cons, List.count_nil]
  omega

/-- A loop that is opened and closed again leaves the blocks around it grown. -/
theorem grows_closeLoop {vars : List Nat} {length : Nat} (h : (σ.openLoop vars length).Grows σ') :
    σ.Grows σ'.closeLoop := by
  have hdepth := h.depth_eq
  have hne : σ'.frames ≠ [] := by
    intro hnil
    simp [depth, hnil, openLoop] at hdepth
  obtain ⟨f,fs,hf⟩ := List.exists_cons_of_ne_nil hne
  have htaken : ∀ x, σ'.closeLoop.taken x = σ'.taken x := by
    intro x
    rw [closeLoop, hf]
    cases x <;> rfl
  have hopened : ∀ x, σ.taken x ≤ (σ.openLoop vars length).taken x := by
    intro x
    rw [taken_openLoop]
    split <;> omega
  refine ⟨?_,fun x => ?_,fun x hx => ?_,fun x => ?_⟩
  · have hgrow := h.blocks
    rw [blocks_openLoop, blocks_cons hf] at hgrow
    rw [blocks_closeLoop hf]
    exact hgrow.cons_inv.2.trans (.modify ..)
  · rw [htaken]
    exact Nat.le_trans (hopened x) (h.taken x)
  · have hx' : x ≠ .index σ.indices := by
      rintro rfl
      exact Nat.lt_irrefl _ hx
    have hd := h.depths x (Nat.lt_of_lt_of_le hx (hopened x))
    rw [closeLoop, hf]
    simpa [openLoop, note, hx'] using hd
  · have hle := h.taken x
    have hle' := hopened x
    rw [count_bound_closeLoop hf, h.bound, count_bound_openLoop, htaken]
    split <;> split <;> split <;> omega

theorem Sound.atTop (h : σ.Sound A) : σ.atTop.Sound (σ.Sees A 0) := by
  have hcache : ∀ (m : Holding), (∀ k e, m k = some e → σ.Covers A e) → ∀ k e,
      m.below 1 k = some e → σ.atTop.Covers (σ.Sees A 0) e := by
    intro m hm k e he x hx
    obtain ⟨he,hlt⟩ := Option.filter_eq_some_iff.mp he
    have hzero : e.depth = 0 := by simpa using hlt
    exact .inl (hzero ▸ hm k e he x hx)
  refine ⟨⟨trivial,.nil⟩,fun d x hx => ?_,hcache _ h.results,hcache _ h.arrays,trivial⟩
  rcases hx with ⟨_,hx | hx⟩ | hx
  · cases hx
  · simp [Sketch.atTop, Item.assigned] at hx
  · exact hx.elim

section adopt

variable {inner : Sketch}

theorem blocks_of_grows_atTop (h : σ.atTop.Grows inner) :
    inner.blocks = [⟨none, inner.current⟩] := h.blocks_of_top rfl

theorem taken_atTop (x : Var) : σ.atTop.taken x = σ.taken x := by
  cases x <;> rfl

theorem taken_adopt (x : Var) : (σ.adopt inner).taken x = inner.taken x := by
  cases x <;> rfl

theorem grows_adopt (hf : σ.frames ≠ []) (h : σ.atTop.Grows inner) : σ.Grows (σ.adopt inner) := by
  refine ⟨?_,fun x => ?_,fun x hx => ?_,fun x => ?_⟩
  · rw [blocks_adopt hf]
    exact .modify ..
  · rw [taken_adopt, ← taken_atTop]
    exact h.taken x
  · exact h.depths x (by rw [taken_atTop]; exact hx)
  · have hcount := h.bound x
    have hempty : Block.bound σ.atTop.blocks = [] := by
      simp [Block.bound, atTop, blocks, Frame.blocks, Item.boundAll]
    rw [blocks_of_grows_atTop h, taken_atTop x, hempty] at hcount
    rw [blocks_adopt hf, Block.count_bound_modify (by rw [length_blocks]; omega), taken_adopt,
      Nat.add_right_inj]
    simpa [Block.bound] using hcount

/-- What is available to code lowered at top level is available in front of the outermost loop. -/
theorem sees_adopt (hf : σ.frames ≠ []) (hg : σ.atTop.Grows inner)
    (hx : inner.Sees (σ.Sees A 0) d x) : (σ.adopt inner).Sees A d x := by
  rcases hx with hx | ⟨n,_,hb⟩
  · exact (grows_adopt hf hg).sees (hx.deeper (Nat.zero_le d))
  · rw [blocks_of_grows_atTop hg] at hb
    rcases hb with ⟨_,hx | hx⟩ | hb
    · cases hx
    · refine .inr ⟨0,Nat.zero_le d,?_⟩
      rw [blocks_adopt hf, Block.binds_modify (d := 0) (by rw [length_blocks])]
      exact .inr ⟨rfl,hx⟩
    · exact hb.elim

theorem Sound.adopt (h : σ.Sound A) (hf : σ.frames ≠ []) (hi : inner.Sound (σ.Sees A 0))
    (hg : σ.atTop.Grows inner) : (σ.adopt inner).Sound A := by
  have hgrows := grows_adopt hf hg
  have hblocks := blocks_of_grows_atTop hg
  have hcache : ∀ (m m' : Holding) k e, m.orElse m' k = some e →
      (∀ k e, m k = some e → σ.Covers A e) →
      (∀ k e, m' k = some e → inner.Covers (σ.Sees A 0) e) → (σ.adopt inner).Covers A e := by
    intro m m' k e he hm hm'
    rcases Option.or_eq_some_iff.mp he with he | ⟨_,he⟩
    · exact hgrows.covers (hm k e he)
    · exact fun x hx => sees_adopt hf hg (hm' k e he x hx)
  refine ⟨?_,fun d x hx => ?_,fun k e he => hcache _ _ k e he h.results hi.results,
    fun k e he => hcache _ _ k e he h.arrays hi.arrays,?_⟩
  · have hcode := hi.code
    rw [hblocks] at hcode
    rw [blocks_adopt hf]
    refine Block.scoped_modify (d := 0) h.code (by rw [length_blocks])
      (hcode.2.mono fun y hy => ?_)
    rcases hy with (hy | ⟨n,hy⟩) | hy
    · exact hy
    · exact hy.elim
    · cases hy
  · rw [blocks_adopt hf, Block.binds_modify (d := 0) (by rw [length_blocks])] at hx
    rw [taken_adopt]
    rcases hx with hx | ⟨rfl,hx⟩
    · obtain ⟨hle,hlt⟩ := h.names d x hx
      have hdepths : (σ.adopt inner).depths x = σ.depths x := hgrows.depths x hlt
      rw [← taken_atTop] at hlt
      exact ⟨by rw [hdepths]; exact hle,Nat.lt_of_lt_of_le hlt (hg.taken x)⟩
    · exact hi.names 0 x (by rw [hblocks]; exact .inl ⟨rfl,.inr hx⟩)
  · exact KeptAside.modify (h.aside.mono fun e _ he => hgrows.covers he) fun f k e he => he.imp_right .inl

end adopt

end Sketch

/-- The names in the expression that a node makes are those of the operands it asked for. -/
theorem Kind.vars_combined {k : Kind} {r : Role} {vs : List Nat} {make : List Operand → Compound}
    (hk : k.combined? = some (r, vs, make)) {xs : List Operand} {y : Var} (hy : y ∈ (make xs).vars) :
    ∃ x ∈ xs, y ∈ x.vars := by
  suffices hsub : ∀ x ∈ (make xs).operands, x ∈ xs ∨ x.vars = [] by
    obtain ⟨x,hx,hyx⟩ := List.mem_flatMap.mp hy
    rcases hsub x hx with hx | hx
    · exact ⟨x,hx,hyx⟩
    · simp [hx] at hyx
  intro x hx
  rw [combined?.eq_def] at hk
  split at hk
  · cases hk
    exact .inl hx
  · cases hk
    exact .inl hx
  · obtain ⟨o,_,ho⟩ := Option.map_eq_some_iff.mp hk
    cases ho
    obtain ⟨i,_,hi⟩ := List.mem_filterMap.mp hx
    exact .inl (List.mem_of_getElem? hi)
  · cases hk
    exact .inl hx
  · cases hk
    exact .inl hx
  · cases hk
    rcases List.mem_append.mp hx with hx | hx
    · exact .inl hx
    · rw [List.mem_singleton.mp hx]
      exact .inr rfl
  · cases hk
    exact .inl hx
  · cases hk

/-- The operands that a task gives can be used in the innermost block. -/
def Task.Usable (A : Var → Prop) (σ : Sketch) : Task → Prop
  | ask _ _ x => σ.CanUse A x
  | askAll _ _ xs => ∀ x ∈ xs, σ.CanUse A x
  | _ => True

namespace Sketch

theorem canUse_binding {p : Plan} {σ : Sketch} {A : Var → Prop} {v : Nat} {x : Operand}
    (h : σ.binding p v = some x) : σ.CanUse A x := by
  obtain ⟨k,hk,rfl⟩ := Option.map_eq_some_iff.mp h
  obtain ⟨f,hf,rfl⟩ := Option.map_eq_some_iff.mp hk
  intro y hy
  rw [List.mem_singleton.mp hy]
  obtain ⟨d,hd⟩ := Frame.binds_index (List.mem_of_find?_eq_some hf) σ.current
  exact Sees.innermost (.inr ⟨d,Nat.le_refl d,hd⟩)

end Sketch

namespace Builds

variable {p : Plan} {t : Task} {σ σ' : Sketch} {A : Var → Prop}

/-- A lowering keeps a sketch sound, and what it gives can be used. -/
theorem sound (h : Builds p t σ σ') (hs : σ.Sound A) :
    σ'.Sound A ∧ σ.Grows σ' ∧ t.Usable A σ' := by
  induction h generalizing A with
  | bound hb => exact ⟨hs,.refl _,Sketch.canUse_binding hb⟩
  | cached _ hr _ _ =>
    exact ⟨hs,.refl _,fun y hy => (hs.results _ _ hr y hy).innermost⟩
  | missing _ _ _ hr' ih =>
    obtain ⟨hs',hg,_⟩ := ih hs
    exact ⟨hs',hg,fun y hy => (hs'.results _ _ hr' y hy).innermost⟩
  | stale _ hr hd hlt _ hr' ih =>
    obtain ⟨hs',hg,_⟩ := ih (hs.setResultAside hr hlt (Plan.iterationDepth_le hd))
    exact ⟨hs',(Sketch.grows_setResultAside ..).trans hg,
      fun y hy => (hs'.results _ _ hr' y hy).innermost⟩
  | here _ _ ih =>
    obtain ⟨hs',hg,_⟩ := ih hs
    exact ⟨hs',hg,trivial⟩
  | lifted hf _ ih =>
    obtain ⟨hs',hg,_⟩ := ih hs.atTop
    have hne := List.ne_nil_of_length_pos (Plan.depth_pos_of_isLiftable hf)
    exact ⟨hs.adopt hne hs' hg,Sketch.grows_adopt hne hg,trivial⟩
  | literal _ _ => exact ⟨hs.register _ (by simp [Sketch.CanUse, Operand.vars]),Sketch.grows_register ..,trivial⟩
  | column _ _ _ => exact ⟨hs.register _ (by simp [Sketch.CanUse, Operand.vars]),Sketch.grows_register ..,trivial⟩
  | combined hk _ he _ ih =>
    obtain ⟨hs',hg,hu⟩ := ih hs
    refine ⟨hs'.save p _ he fun y hy => ?_,hg.trans (Sketch.grows_save ..),trivial⟩
    obtain ⟨x,hx,hyx⟩ := Kind.vars_combined hk hy
    exact hu x hx y hyx
  | @added σ σ' v t log x _ _ _ _ ih =>
    obtain ⟨hs',hg,hu⟩ := ih hs.startSum
    have hw := Sketch.grows_write_update σ' (.temp σ.temps) log x
    have hsum := hg.trans hw
    exact ⟨(hs'.write_update log hg.sees_sum.innermost hu).register v hsum.canUse_sum,
      ((Sketch.grows_startSum σ).trans hsum).trans (Sketch.grows_register ..),trivial⟩
  | @looped σ σ' v t log x inputs length _ _ _ _ _ _ ih =>
    obtain ⟨hs',hg,hu⟩ := ih (hs.startSum.openLoop _ _)
    have hw := Sketch.grows_write_update σ' (.temp σ.temps) log x
    have hsum := Sketch.grows_closeLoop (hg.trans hw)
    have hopen : (σ.startSum.openLoop ((Plan.loopVars σ inputs).map (·.serial)) length).Sees A
        σ.depth (.temp σ.temps) := Sketch.sees_openLoop (Sketch.Grows.refl σ.startSum).sees_sum
    have hne : (σ'.write (.update (.temp σ.temps) log x)).frames ≠ [] := by
      intro hnil
      have hd := (hg.trans hw).depth_eq
      simp [Sketch.depth, hnil, Sketch.openLoop] at hd
    have hs'' := hs'.write_update log (hg.sees hopen).innermost hu
    exact ⟨(hs''.closeLoop hne (by simp [Sketch.write])).register v hsum.canUse_sum,
      ((Sketch.grows_startSum σ).trans hsum).trans (Sketch.grows_register ..),trivial⟩
  | nil => exact ⟨hs,.refl _,by simp [Task.Usable]⟩
  | cons _ _ ih ihs =>
    obtain ⟨hs₁,hg₁,hu₁⟩ := ih hs
    obtain ⟨hs₂,hg₂,hu₂⟩ := ihs hs₁
    exact ⟨hs₂,hg₁.trans hg₂,List.forall_mem_cons.mpr ⟨hg₂.canUse hu₁,hu₂⟩⟩
  | node _ _ ih => exact ih hs
  | kept _ ha _ _ => exact ⟨hs,.refl _,fun y hy => (hs.arrays _ _ ha y hy).innermost⟩
  | listed _ _ _ ih =>
    obtain ⟨hs',hg,hu⟩ := ih hs
    exact ⟨hs'.bindArray p _ hu,hg.trans (Sketch.grows_bindArray ..),Sketch.canUse_bindArray p _ A _ _⟩
  | listedAgain _ ha hd hlt _ ih =>
    obtain ⟨hs',hg,hu⟩ := ih (hs.setArrayAside ha hlt (Plan.iterationDepth_le hd))
    exact ⟨hs'.bindArray p _ hu,
      ((Sketch.grows_setArrayAside ..).trans hg).trans (Sketch.grows_bindArray ..),
      Sketch.canUse_bindArray p _ A _ _⟩

end Builds

end FitCode
