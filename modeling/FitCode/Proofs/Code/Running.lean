import FitCode.Proofs.Code.Execution

/-! # Running generated functions

A function without loops returns the value of its last operand in the store that solves its bindings.
A function with one loop, whose bindings have values in the first passes, returns the value that its
last operand has in the last of these passes.
-/
namespace FitCode

open Text Numeric Program

namespace Program

/-- A loop with fewer passes. -/
def Stmt.cut (passes : Nat) : Stmt → Stmt
  | .forEach x (.call (.name "range") [.int n]) body =>
    .forEach x (.call (.name "range") [.int (min n passes)]) body
  | s => s

/-- The function with at most so many passes of each of its outer loops. -/
def Function.cut (f : Function) (passes : Nat) : Function := { f with body := f.body.map (Stmt.cut passes) }

theorem targetsOf_append (ss ss' : List Stmt) : targetsOf (ss ++ ss') = targetsOf ss ++ targetsOf ss' := by
  induction ss with
  | nil => rfl
  | cons s ss ih => rw [List.cons_append, targetsOf, targetsOf, ih, List.append_assoc]

theorem targetsOf_trees (c : Bindings) : targetsOf c.trees = c.map fun b => b.1.text := by
  induction c with
  | nil => rfl
  | cons b c ih =>
    rw [Bindings.trees, List.map_cons, targetsOf, ← Bindings.trees, ih]
    rfl

theorem targetsOf_bodyTrees (c : Bindings) : targetsOf (Model.bodyTrees c) = c.map fun b => b.1.text := by
  rw [Model.bodyTrees]
  split
  · rename_i h
    rw [h]
    rfl
  · exact targetsOf_trees c

/-- The frame in which a function runs. -/
def frameOf (f : Function) (depth : Nat) : Frame := ⟨f.name, f.locals, f.call depth⟩

/-- What a function returns. -/
def Flow.result : Flow → Value
  | next _ => .null
  | returned v => v

theorem run_eq (f : Function) (a b : Value) : f.run a b =
    (execAll (frameOf f (maxDepth - 1)) [(f.first, a), (f.second, b)] f.body).map Flow.result := by
  rw [Function.run, maxDepth, Function.call]
  show (execAll (frameOf f 899) _ _).bind _ = _
  cases execAll (frameOf f 899) [(f.first, a), (f.second, b)] f.body with
  | error e => rfl
  | ok r => cases r <;> rfl

theorem Frame.Holds.congr {F : Frame} {env : Env} {s t : Store} {xs : List Var} (h : F.Holds env s xs)
    (hp : t.params = s.params) (hc : t.columns = s.columns) (hv : ∀ y ∈ xs, t.vars y = s.vars y) :
    F.Holds env t xs where
  params := by rw [hp]; exact h.params
  columns := by rw [hc]; exact h.columns
  numeric := h.numeric
  routines := h.routines
  vars := fun y hy => by rw [hv y hy]; exact h.vars y hy

theorem execAll_result {F : Frame} {env : Env} {s : Store} {x : Operand} (h : F.Holds env s x.vars) :
    execAll F env [.result (some x.tree)] = (x.value s).map Flow.returned := by
  rw [execAll, Stmt.exec, Operand.eval_tree h]
  cases x.value s <;> rfl

end Program

namespace Model

variable {c b : Bindings} {x : Operand} {s : Store} {S : Var → Prop}

theorem hosts_squashed {body : List Stmt} {xs : List Var}
    (h : ∀ n, n ∈ targetsOf body ↔ ∃ x ∈ xs, n = x.text) (depth : Nat) :
    (frameOf (squashed body) depth).Hosts xs where
  name := rfl
  params := by simp [frameOf, Function.locals, squashed]
  columns := by simp [frameOf, Function.locals, squashed]
  vars := fun x hx => by
    have hmem := (h x.text).mpr ⟨x,hx,rfl⟩
    simp [frameOf, Function.locals, squashed, hmem]
  locals := fun n hn => by
    simp only [frameOf, Function.locals, squashed, List.mem_cons] at hn
    rcases hn with hn | hn | hn
    · exact .inl hn
    · exact .inr (.inl hn)
    · obtain ⟨x,_,rfl⟩ := (h n).mp hn
      exact .inr (.inr ⟨x,rfl⟩)

theorem run_squashed (body : List Stmt) (a b : Value) : (squashed body).run a b =
    (execAll (frameOf (squashed body) (maxDepth - 1)) [("params", a), ("obs", b)] body).map Flow.result :=
  run_eq (squashed body) a b

/-- A function without loops that runs leaves every name with a value and returns its last operand. -/
theorem run_straight (hc : Item.Scoped (fun _ => False) c.items) (hr : c.IsReadable)
    (hx : ∀ y ∈ x.vars, y ∈ c.map (·.1)) (hs : s.Solves c) {V : Value}
    (h : (squashed (c.trees ++ [.result (some x.tree)])).run s.params s.columns = .ok V) :
    (∀ p ∈ c, ∃ v, s.vars p.1 = .ok v) ∧ x.value s = .ok V := by
  have hF : (frameOf (squashed (c.trees ++ [.result (some x.tree)])) (maxDepth - 1)).Hosts (c.map (·.1)) := by
    refine hosts_squashed (fun n => ?_) _
    rw [targetsOf_append, targetsOf_trees]
    simp [targetsOf, Stmt.targets, eq_comm]
  have hlocals : ∀ p ∈ c, p.1.text ∈ (frameOf (squashed (c.trees ++ [.result (some x.tree)]))
      (maxDepth - 1)).locals := fun p hp => hF.vars p.1 (List.mem_map_of_mem hp)
  have hstart := hF.holds s
  rw [run_squashed] at h
  obtain ⟨r,hrun,hV⟩ := Outcome.map_eq_ok.mp h
  have hok := hstart.ok_of_execAll hlocals hc hr (fun y hy => hy.elim) hs hrun
  obtain ⟨env,hholds,hexec⟩ := hstart.execAll_bind hlocals hc hr (fun y hy => hy.elim) hs hok
    [.result (some x.tree)]
  refine ⟨hok,?_⟩
  rw [hexec, execAll_result (hholds.mono fun y hy => by simpa using hx y hy)] at hrun
  obtain ⟨v,hv,rfl⟩ := Outcome.map_eq_ok.mp hrun
  rw [hv, ← hV]
  rfl

/-- The stores of the passes of a loop: they agree on what is bound outside of it, and hold the index of
their pass. -/
structure Passes (t : Nat → Store) (c b : Bindings) (k : Nat) : Prop where
  params : ∀ j, (t j).params = (t 0).params
  columns : ∀ j, (t j).columns = (t 0).columns
  index : ∀ j : Nat, (t j).vars (.index k) = .ok (.int j)
  before : ∀ j, ∀ y ∈ c.map (·.1), (t j).vars y = (t 0).vars y
  solves : ∀ j, (t j).Solves (c ++ b)

/-- The body of a loop, run in a pass in which its names have values. -/
theorem execAll_body {F : Program.Frame} {env : Env} {xs : List Var} (h : F.Holds env s xs)
    (hF : ∀ p ∈ b, p.1.text ∈ F.locals) (hb : Item.Scoped S b.items) (hr : b.IsReadable)
    (hS : ∀ y, S y → y ∈ xs) (hs : s.Solves b) (hok : ∀ p ∈ b, ∃ v, s.vars p.1 = .ok v) :
    ∃ env', F.Holds env' s (xs ++ b.map (·.1)) ∧ execAll F env (bodyTrees b) = .ok (.next env') := by
  rw [bodyTrees]
  split
  · rename_i hnil
    subst hnil
    exact ⟨env,by simpa using h,rfl⟩
  · obtain ⟨env',hholds,hexec⟩ := h.execAll_bind hF hb hr hS hs hok []
    rw [List.append_nil] at hexec
    exact ⟨env',hholds,hexec⟩

theorem iterateRange_induction (body : Env → Outcome Flow) (name : String) (I : Nat → Env → Prop)
    (count i : Nat) {env : Env} (h : I i env)
    (hstep : ∀ j env, i ≤ j → j < i + count → I j env →
      ∃ env', body (env.set name (Value.int j)) = .ok (.next env') ∧ I (j + 1) env') :
    ∃ env', iterateRange body name count i env = .ok (.next env') ∧ I (i + count) env' := by
  induction count generalizing i env with
  | zero => exact ⟨env,rfl,h⟩
  | succ count ih =>
    obtain ⟨env₁,hbody,h₁⟩ := hstep i env (Nat.le_refl i) (by omega) h
    obtain ⟨env',hrest,h'⟩ := ih (i + 1) h₁ fun j env hij hj => hstep j env (by omega) (by omega)
    refine ⟨env',?_,by rwa [show i + (count + 1) = i + 1 + count by omega]⟩
    rw [iterateRange, hbody]
    exact hrest

/-- The statements of a body with a loop. -/
noncomputable def loopedTrees (c b : Bindings) (k n : Nat) (x : Operand) : List Stmt :=
  c.trees ++ [.forEach (Var.index k).text (.call (.name "range") [.int n]) (bodyTrees b), .result (some x.tree)]

theorem cut_squashed (c b : Bindings) (k n : Nat) (x : Operand) (passes : Nat) :
    (squashed (loopedTrees c b k n x)).cut passes = squashed (loopedTrees c b k (min n passes) x) := by
  have htrees : c.trees.map (Stmt.cut passes) = c.trees := by
    simp only [Bindings.trees, List.map_map]
    rfl
  simp only [Function.cut, squashed, loopedTrees, List.map_append, htrees]
  simp [Stmt.cut]

theorem mem_targetsOf_looped (c b : Bindings) (k n : Nat) (x : Operand) (name : String) :
    name ∈ targetsOf (loopedTrees c b k n x) ↔
      ∃ y ∈ .index k :: (c.map (·.1) ++ b.map (·.1)), name = y.text := by
  rw [loopedTrees, targetsOf_append, targetsOf_trees]
  simp only [targetsOf, Stmt.targets, targetsOf_bodyTrees, List.append_nil, List.mem_append, List.mem_map,
    List.mem_cons]
  constructor
  · rintro (⟨p,hp,rfl⟩ | rfl | ⟨p,hp,rfl⟩)
    · exact ⟨p.1,.inr (.inl ⟨p,hp,rfl⟩),rfl⟩
    · exact ⟨_,.inl rfl,rfl⟩
    · exact ⟨p.1,.inr (.inr ⟨p,hp,rfl⟩),rfl⟩
  · rintro ⟨y,rfl | ⟨p,hp,rfl⟩ | ⟨p,hp,rfl⟩,rfl⟩
    · exact .inr (.inl rfl)
    · exact .inl ⟨p,hp,rfl⟩
    · exact .inr (.inr ⟨p,hp,rfl⟩)

/-- A function with a loop whose names have values in the first passes returns what its last operand
is in the last of them. -/
theorem run_looped {t : Nat → Store} {k n i : Nat} (ht : Passes t c b k)
    (hc : Item.Scoped (fun _ => False) c.items) (hrc : c.IsReadable)
    (hb : Item.Scoped (fun y => y ∈ c.map (·.1) ∨ y = .index k) b.items) (hrb : b.IsReadable)
    (hx : ∀ y ∈ x.vars, y ∈ .index k :: (c.map (·.1) ++ b.map (·.1))) (hin : i < n)
    (hok : ∀ j ≤ i, ∀ p ∈ c ++ b, ∃ v, (t j).vars p.1 = .ok v) {v : Value} (hv : x.value (t i) = .ok v) :
    ((squashed (loopedTrees c b k n x)).cut (i + 1)).run (t 0).params (t 0).columns = .ok v := by
  rw [cut_squashed, Nat.min_eq_right (by omega : i + 1 ≤ n), run_squashed]
  generalize hF' : frameOf (squashed (loopedTrees c b k (i + 1) x)) (maxDepth - 1) = F
  have hF : F.Hosts (.index k :: (c.map (·.1) ++ b.map (·.1))) := by
    rw [← hF']
    exact hosts_squashed (fun name => mem_targetsOf_looped c b k (i + 1) x name) _
  have hlc : ∀ p ∈ c, p.1.text ∈ F.locals := fun p hp =>
    hF.vars p.1 (by simp only [List.mem_cons, List.mem_append]; exact .inr (.inl (List.mem_map_of_mem hp)))
  have hlb : ∀ p ∈ b, p.1.text ∈ F.locals := fun p hp =>
    hF.vars p.1 (by simp only [List.mem_cons, List.mem_append]; exact .inr (.inr (List.mem_map_of_mem hp)))
  have hlk : (Var.index k).text ∈ F.locals := hF.vars _ List.mem_cons_self
  obtain ⟨env,hholds,hexec⟩ := (hF.holds (t 0)).execAll_bind (c := c) hlc hc hrc (fun y hy => hy.elim)
    (fun p hp => ht.solves 0 p (List.mem_append_left _ hp))
    (fun p hp => hok 0 (Nat.zero_le i) p (List.mem_append_left _ hp))
    [.forEach (Var.index k).text (.call (.name "range") [.int (i + 1 : Nat)]) (bodyTrees b),
      .result (some x.tree)]
  rw [List.nil_append] at hholds
  have hrange : (Expr.call (.name "range") [.int (i + 1 : Nat)]).eval F env = .ok (.range (i + 1 : Nat)) := by
    have hname : F.lookup env "range" = .ok (.builtin .range) :=
      hF.lookup_loaded env (by decide) (by decide) (by decide) (by decide) rfl
    simp only [Expr.eval, hname, evalAll]
    rfl
  -- between passes the names bound outside hold their values, and those of the last pass theirs
  obtain ⟨env',hloop,_,hlast⟩ := iterateRange_induction (fun env => execAll F env (bodyTrees b))
    (Var.index k).text (fun j env => F.Holds env (t 0) (c.map (·.1)) ∧
      ∀ j', j = j' + 1 → F.Holds env (t j') (.index k :: (c.map (·.1) ++ b.map (·.1)))) (i + 1) 0
    ⟨hholds,fun j' hj' => by omega⟩ (by
      rintro j env - hj ⟨hout,-⟩
      have hin : F.Holds env (t j) (c.map (·.1)) :=
        hout.congr (ht.params j) (ht.columns j) (ht.before j)
      obtain ⟨env',hholds',hbody⟩ := execAll_body (hin.set hlk (ht.index j)) hlb hb hrb
        (by rintro y (hy | rfl); exacts [List.mem_cons_of_mem _ hy, List.mem_cons_self])
        (fun p hp => ht.solves j p (List.mem_append_right _ hp))
        (fun p hp => hok j (by omega) p (List.mem_append_right _ hp))
      refine ⟨env',hbody,?_,?_⟩
      · refine Frame.Holds.congr (s := t j) ?_ (ht.params j).symm (ht.columns j).symm
          fun y hy => (ht.before j y hy).symm
        exact hholds'.mono fun y hy => by simp only [List.cons_append, List.mem_cons, List.mem_append]; exact .inr (.inl hy)
      · rintro j' hj'
        cases hj'
        exact hholds')
  have hresult := execAll_result ((hlast i (by omega)).mono hx)
  have hfor : Stmt.exec F env (.forEach (Var.index k).text (.call (.name "range") [.int (i + 1 : Nat)])
      (bodyTrees b)) = .ok (.next env') := by
    rw [Stmt.exec, hrange]
    exact hloop
  rw [loopedTrees, hexec, execAll, hfor]
  show (execAll F env' [.result (some x.tree)]).map Flow.result = _
  rw [hresult, hv]
  rfl

end Model

end FitCode
