import FitCode.Lowering.Resolve

/-! # Steps that succeed

A composed step succeeds exactly if its parts do, one after the other.
-/
namespace FitCode.Emit

variable {α β : Type}

/-- What a step gives from `c`, and the state it leaves. -/
def outcome (x : Emit α) (c : Draft) : Except Fault α × Draft := x.run.run c

/-- The step succeeds from `c` with `a` and leaves `c'`. -/
def Gives (x : Emit α) (c : Draft) (a : α) (c' : Draft) : Prop := x.outcome c = (.ok a, c')

variable {c c' c'' : Draft} {a b : α}

@[simp] theorem gives_pure : Gives (pure a) c b c' ↔ b = a ∧ c' = c := by
  constructor
  · intro h
    cases h
    exact ⟨rfl,rfl⟩
  · rintro ⟨rfl,rfl⟩
    rfl

theorem outcome_bind (x : Emit α) (f : α → Emit β) (c : Draft) : (x >>= f).outcome c =
    match x.outcome c with
    | (.ok a, c') => (f a).outcome c'
    | (.error e, c') => (.error e, c') := by
  rw [outcome, ExceptT.run_bind, StateT.run_bind]
  have h : x.run.run c = pure (x.outcome c) := rfl
  rw [h, pure_bind]
  rcases x.outcome c with ⟨r,c'⟩
  cases r <;> rfl

theorem gives_bind {x : Emit α} {f : α → Emit β} {b : β} :
    Gives (x >>= f) c b c'' ↔ ∃ a c', Gives x c a c' ∧ Gives (f a) c' b c'' := by
  simp only [Gives, outcome_bind]
  rcases x.outcome c with ⟨r,c'⟩
  cases r with
  | error e => simp
  | ok a =>
    constructor
    · intro h
      exact ⟨a,c',rfl,h⟩
    · rintro ⟨a',d,h,hf⟩
      cases h
      exact hf

@[simp] theorem not_gives_throw {e : Fault} : ¬ Gives (throw e : Emit α) c a c' := by
  intro h
  cases h

@[simp] theorem gives_modify {f : Draft → Draft} {u : PUnit} :
    Gives (modify f) c u c' ↔ c' = f c := by
  constructor
  · intro h
    cases h
    rfl
  · rintro rfl
    rfl

@[simp] theorem gives_modifyGet {f : Draft → α × Draft} :
    Gives (modifyGet f) c a c' ↔ (a, c') = f c := by
  constructor
  · intro h
    have h : (Except.ok (f c).1, (f c).2) = (Except.ok a, c') := h
    cases h
    rfl
  · intro h
    change (Except.ok (f c).1, (f c).2) = (Except.ok a, c')
    rw [← h]

@[simp] theorem gives_ofExcept {e : Except Fault α} :
    Gives (ofExcept e) c a c' ↔ e = .ok a ∧ c' = c := by
  cases e with
  | error e => simp [ofExcept]
  | ok b => simp [ofExcept, eq_comm]

variable {f : α → Emit β} {r : β}

@[simp] theorem gives_pure_bind : Gives (pure a >>= f) c r c' ↔ Gives (f a) c r c' := by
  rw [pure_bind]

@[simp] theorem gives_get_bind {f : Draft → Emit β} :
    Gives (get >>= f) c r c' ↔ Gives (f c) c r c' := Iff.rfl

@[simp] theorem gives_set_bind {d : Draft} {f : PUnit → Emit β} :
    Gives (set d >>= f) c r c' ↔ Gives (f ⟨⟩) d r c' := Iff.rfl

@[simp] theorem gives_modify_bind {g : Draft → Draft} {f : PUnit → Emit β} :
    Gives (modify g >>= f) c r c' ↔ Gives (f ⟨⟩) (g c) r c' := Iff.rfl

@[simp] theorem gives_ofExcept_bind {e : Except Fault α} :
    Gives (ofExcept e >>= f) c r c' ↔ ∃ a, e = .ok a ∧ Gives (f a) c r c' := by
  cases e with
  | error e => simp [ofExcept]
  | ok b => simp [ofExcept]

theorem gives_attempt {x : Emit α} {r : Except Fault α} :
    Gives (attempt x) c r c' ↔ x.outcome c = (r, c') := by
  have h : (attempt x).outcome c = (.ok (x.outcome c).1, (x.outcome c).2) := rfl
  rw [Gives, h]
  rcases x.outcome c with ⟨r',d⟩
  simp

@[simp] theorem gives_map {x : Emit α} {f : α → β} {b : β} :
    Gives (f <$> x) c b c' ↔ ∃ a, Gives x c a c' ∧ b = f a := by
  rw [map_eq_pure_bind, gives_bind]
  simp only [gives_pure]
  constructor
  · rintro ⟨a,d,h,rfl,rfl⟩
    exact ⟨a,h,rfl⟩
  · rintro ⟨a,h,rfl⟩
    exact ⟨a,c',h,rfl,rfl⟩

@[simp] theorem gives_discard {x : Emit α} {u : PUnit} :
    Gives (discard x) c u c' ↔ ∃ a, Gives x c a c' := by
  have h : discard x = (fun _ => PUnit.unit) <$> x := rfl
  rw [h, gives_map]
  simp

theorem gives_whileLowering {id : Identity} {x : Emit Unit} {u : Unit} :
    Gives (whileLowering id x) c u c' ↔ ∃ inner, Gives x (c.entered id) u inner ∧ c' = inner.left := by
  rw [whileLowering, gives_modify_bind]
  constructor
  · intro h
    obtain ⟨r,inner,hx,h⟩ := gives_bind.mp h
    rw [gives_modify_bind, gives_ofExcept] at h
    obtain ⟨rfl,rfl⟩ := h
    exact ⟨inner,gives_attempt.mp hx,rfl⟩
  · rintro ⟨inner,hx,rfl⟩
    refine gives_bind.mpr ⟨.ok u,inner,gives_attempt.mpr hx,?_⟩
    rw [gives_modify_bind, gives_ofExcept]
    exact ⟨rfl,rfl⟩

end FitCode.Emit
