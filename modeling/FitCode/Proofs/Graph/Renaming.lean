import FitCode.Function
import FitCode.Proofs.Graph.Dependence
import Mathlib.Data.List.Forall2
import Mathlib.Logic.Equiv.Basic

/-! # Graphs that differ in numbers and names

Two graphs are isomorphic if a renaming of serial numbers carries the kinds of the vertices of one to
those of the other. Names play no part in it, nor do the values of free parameters. Questions about
dependence have the same answers in both, and what fails in one fails in the other, up to the labels
that the failure mentions.
-/
namespace FitCode

/-- The failure with the labels of nodes left out. What kind of failure it is does not depend on
them. -/
def Fault.unlabelled : Fault → Fault
  | notLowerable _ => notLowerable ""
  | noRegistration _ => noRegistration ""
  | freeParameter _ => freeParameter ""
  | unboundObservable _ => unboundObservable ""
  | cyclic _ labels => cyclic "" (labels.map fun _ => "")
  | resultTaken text _ => resultTaken text ""
  | columnTaken column _ => columnTaken column ""
  | nameTaken name _ => nameTaken name ""
  | nothingToLoop _ => nothingToLoop ""
  | sizesDiffer sizes _ => sizesDiffer sizes ""
  | f => f

/-- Both results are values, which are related, or both are failures, equal up to labels. -/
inductive Agree {α β : Type} (R : α → β → Prop) : Except Fault α → Except Fault β → Prop
  | ok {a : α} {b : β} (h : R a b) : Agree R (.ok a) (.ok b)
  | error {f f' : Fault} (h : f.unlabelled = f'.unlabelled) : Agree R (.error f) (.error f')

namespace Agree

variable {α β γ δ : Type} {R : α → β → Prop} {S : γ → δ → Prop}

theorem refl (x : Except Fault α) : Agree Eq x x := by
  cases x with
  | ok a => exact .ok rfl
  | error f => exact .error rfl

theorem bind {x : Except Fault α} {y : Except Fault β} {f : α → Except Fault γ} {f' : β → Except Fault δ}
    (h : Agree R x y) (hf : ∀ a b, R a b → Agree S (f a) (f' b)) : Agree S (x >>= f) (y >>= f') := by
  cases h with
  | ok h => exact hf _ _ h
  | error h => exact .error h

theorem mono {S : α → β → Prop} {x : Except Fault α} {y : Except Fault β} (h : Agree R x y)
    (hRS : ∀ a b, R a b → S a b) : Agree S x y := by
  cases h with
  | ok h => exact .ok (hRS _ _ h)
  | error h => exact .error h

theorem trans {T : β → γ → Prop} {x : Except Fault α} {y : Except Fault β} {z : Except Fault γ}
    (h : Agree R x y) (h' : Agree T y z) : Agree (fun a c => ∃ b, R a b ∧ T b c) x z := by
  cases h with
  | ok hab =>
    cases h' with
    | ok hbc => exact .ok ⟨_,hab,hbc⟩
  | error hf =>
    cases h' with
    | error hf' => exact .error (hf.trans hf')

theorem foldlM {f : γ → α → Except Fault γ} {f' : δ → β → Except Fault δ} {as : List α} {bs : List β}
    (h : List.Forall₂ R as bs) (hf : ∀ a b c d, R a b → S c d → Agree S (f c a) (f' d b)) {c : γ} {d : δ}
    (hcd : S c d) : Agree S (as.foldlM f c) (bs.foldlM f' d) := by
  induction h generalizing c d with
  | nil => exact .ok hcd
  | cons hab _ ih =>
    rw [List.foldlM_cons, List.foldlM_cons]
    exact (hf _ _ c d hab hcd).bind fun c d hcd => ih hcd

theorem mapM {f : α → Except Fault γ} {f' : β → Except Fault δ} {as : List α} {bs : List β}
    (h : List.Forall₂ R as bs) (hf : ∀ a b, R a b → Agree S (f a) (f' b)) :
    Agree (List.Forall₂ S) (as.mapM f) (bs.mapM f') := by
  induction h with
  | nil => exact .ok .nil
  | cons hab _ ih =>
    rw [List.mapM_cons, List.mapM_cons]
    exact (hf _ _ hab).bind fun c d hcd => ih.bind fun cs ds hcds => .ok (.cons hcd hcds)

theorem filterM {p : α → Except Fault Bool} {q : β → Except Fault Bool} {as : List α} {bs : List β}
    (h : List.Forall₂ R as bs) (hp : ∀ a b, R a b → q b = p a) :
    Agree (List.Forall₂ R) (as.filterM p) (bs.filterM q) := by
  have haux : ∀ {acc : List α} {acc' : List β}, List.Forall₂ R acc acc' →
      Agree (List.Forall₂ R) (as.filterAuxM p acc) (bs.filterAuxM q acc') := by
    induction h with
    | nil => exact .ok
    | @cons a b as bs hab _ ih =>
      intro acc acc' hacc
      rw [List.filterAuxM, List.filterAuxM, hp a b hab]
      refine (Agree.refl (p a)).bind fun keep keep' hkeep => hkeep ▸ ih ?_
      cases keep with
      | true => exact .cons hab hacc
      | false => exact hacc
  exact (haux .nil).bind fun cs ds hcs => .ok (List.rel_reverse hcs)

end Agree

namespace Kind

/-- The kind with its operands renamed. -/
def rename (e : Nat → Nat) : Kind → Kind
  | parameter value isConstant => parameter value isConstant
  | observable => observable
  | constant value => constant value
  | sum ts => sum (ts.map e)
  | product fs => product (fs.map e)
  | formula template as => formula template (as.map e)
  | gaussian x m s => gaussian (e x) (e m) (e s)
  | exponential x c => exponential (e x) (e c)
  | polynomial x cs order => polynomial (e x) (e cs) order
  | mixture ds cs => mixture (e ds) (e cs)
  | entrySum t => entrySum (e t)
  | negLogLikelihood t => negLogLikelihood (e t)
  | custom expr as save => custom expr (as.map e) save
  | script steps as reducer => script steps (as.map e) reducer
  | collection ms => collection (ms.map e)
  | identity => identity

/-- The same kind with its operands renamed. The value of a free parameter may be any. -/
inductive Renames (e : Nat → Nat) : Kind → Kind → Prop
  | same (k : Kind) : Renames e k (k.rename e)
  | free (x y : Float) : Renames e (parameter x false) (parameter y false)

namespace Renames

variable {e : Nat → Nat} {k k' : Kind} (h : k.Renames e k')

include h

theorem parts? : k'.parts? = k.parts?.map (·.map e) := by
  cases h with
  | same => cases k <;> rfl
  | free => rfl

theorem isNode : k'.isNode = k.isNode := by
  cases h with
  | same => cases k <;> rfl
  | free => rfl

theorem isReducer : k'.isReducer = k.isReducer := by
  cases h with
  | same => cases k <;> rfl
  | free => rfl

theorem members? : k'.members? = k.members?.map (·.map e) := by
  cases h with
  | same => cases k <;> rfl
  | free => rfl

end Renames

end Kind

/-- The renaming carries the vertices of `g` to those of `h`. Numbers beyond a graph stand for bare
identities, so that it is a renaming of all numbers. -/
def Graph.Iso (g h : Graph) (e : Nat ≃ Nat) : Prop := ∀ v, (g.kind v).Renames e (h.kind (e v))

/-- Identities of corresponding vertices. -/
def Identity.Renames (e : Nat ≃ Nat) (a b : Identity) : Prop := b.serial = e a.serial

/-- A vertex or identity of one graph is carried to one of the other. -/
inductive Datum.Renames (e : Nat ≃ Nat) : Datum → Datum → Prop
  | object (v : Nat) : Renames e (.object v) (.object (e v))
  | identity {a b : Identity} (h : Identity.Renames e a b) : Renames e (.identity a) (.identity b)

/-- Entries for identities, in the same order, with the same values. -/
def IdMap.Renames {α : Type} (e : Nat ≃ Nat) : IdMap α → IdMap α → Prop :=
  List.Forall₂ fun a b => b.1.serial = e a.1.serial ∧ b.2 = a.2

@[simp] theorem beq_rename (e : Nat ≃ Nat) (v w : Nat) : (e v == e w) = (v == w) := by
  rw [Bool.eq_iff_iff, beq_iff_eq, beq_iff_eq, e.apply_eq_iff_eq]

namespace IdMap.Renames

variable {α : Type} {e : Nat ≃ Nat} {m m' : IdMap α} {id id' : Identity}

theorem cons {x y : Identity × α} (hs : y.1.serial = e x.1.serial) (hv : y.2 = x.2) (h : Renames e m m') :
    Renames e (x :: m) (y :: m') := List.Forall₂.cons ⟨hs,hv⟩ h

theorem get? (h : Renames e m m') (hid : id'.serial = e id.serial) : m'.get? id' = m.get? id := by
  induction h with
  | nil => rfl
  | @cons a b m m' hab _ ih =>
    simp only [IdMap.get?, Identity.same, List.find?_cons, hab.1, hid, beq_rename] at ih ⊢
    cases a.1.serial == id.serial with
    | true => exact congrArg some hab.2
    | false => exact ih

theorem put (h : Renames e m m') (hid : id'.serial = e id.serial) (a : α) :
    Renames e (m.put id a) (m'.put id' a) := by
  induction h with
  | nil => exact cons hid rfl List.Forall₂.nil
  | @cons x y m m' hxy hm ih =>
    simp only [IdMap.put, Identity.same, hxy.1, hid, beq_rename, beq_iff_eq]
    by_cases hs : x.1.serial = id.serial
    · rw [if_pos hs, if_pos hs]
      exact cons hxy.1 rfl hm
    · rw [if_neg hs, if_neg hs]
      exact cons hxy.1 hxy.2 ih

theorem filter_map {β : Type} (h : Renames e m m') (p : α → Bool) (f : α → β) :
    Renames e ((m.filter fun x => p x.2).map fun x => (x.1, f x.2))
      ((m'.filter fun x => p x.2).map fun x => (x.1, f x.2)) := by
  induction h with
  | nil => exact .nil
  | @cons x y m m' hxy hm ih =>
    rw [List.filter_cons, List.filter_cons, hxy.2]
    split
    · exact cons hxy.1 (congrArg f hxy.2) ih
    · exact ih

end IdMap.Renames

namespace Graph

variable {g : Graph} {v start target steps : Nat} {stop : Bool} {seen : Std.TreeSet Nat} {stack rest : List Nat}

theorem search_step (hk : g.kind v ≠ .identity) (hs : stack.dropWhile seen.contains = v :: rest) :
    g.search start target stop (steps + 1) seen stack =
      if v == target then .ok true
      else if stop && (g.kind v).isReducer && v != start then
        g.search start target stop steps (seen.insert v) rest
      else (g.operands? v).elim (.error .noAttribute) fun vs =>
        g.search start target stop steps (seen.insert v) (vs.reverse ++ rest) := by
  rw [search, hs]
  dsimp only
  split
  · rename_i h
    exact absurd h hk
  · cases g.operands? v with
    | none => rfl
    | some vs => rfl

theorem search_identity (hk : g.kind v = .identity) (hs : stack.dropWhile seen.contains = v :: rest) :
    g.search start target stop (steps + 1) seen stack = .error .noAttribute := by
  rw [search, hs]
  simp only [hk]

/-- Every step but the last sees a new vertex, so that more steps than vertices change nothing. -/
theorem search_succ (hseen : ∀ v ∈ seen, v < g.size) (hle : g.size < steps + seen.size) (stack : List Nat) :
    g.search start target stop (steps + 1) seen stack = g.search start target stop steps seen stack := by
  induction steps generalizing seen stack with
  | zero =>
    have := size_le_of_lt hseen
    omega
  | succ steps ih =>
    cases hs : stack.dropWhile seen.contains with
    | nil => rw [search, search, hs]
    | cons v rest =>
      by_cases hk : g.kind v = .identity
      · rw [search_identity hk hs, search_identity hk hs]
      · obtain ⟨hnew,_⟩ := exists_of_dropWhile hs
        have hstep : ∀ stack, g.search start target stop (steps + 1) (seen.insert v) stack =
            g.search start target stop steps (seen.insert v) stack := by
          refine fun stack => ih (fun w hw => ?_) ?_ stack
          · rcases Std.TreeSet.mem_insert.mp hw with hw | hw
            · exact compare_eq_iff_eq.mp hw ▸ lt_size_of_kind hk
            · exact hseen w hw
          · rw [Std.TreeSet.size_insert, if_neg (by simpa using hnew)]
            omega
        rw [search_step hk hs, search_step hk hs, hstep]
        simp only [hstep]

theorem search_eq_of_le {n k : Nat} (hn : g.size < n) (hk : g.size < k) (stack : List Nat) :
    g.search start target stop n ∅ stack = g.search start target stop k ∅ stack := by
  have hmore : ∀ n, g.search start target stop (g.size + 1 + n) ∅ stack =
      g.search start target stop (g.size + 1) ∅ stack := by
    intro n
    induction n with
    | zero => rfl
    | succ n ih =>
      rw [← Nat.add_assoc, search_succ (by simp) (by simp; omega), ih]
  rw [← Nat.add_sub_of_le hn, ← Nat.add_sub_of_le hk, hmore, hmore]

end Graph

namespace Graph.Iso

variable {g h : Graph} {e : Nat ≃ Nat} (hg : g.Iso h e) {v w : Nat}

include hg

theorem kind_eq (v : Nat) : h.kind (e v) = (g.kind v).rename e ∨
    ∃ x y, g.kind v = .parameter x false ∧ h.kind (e v) = .parameter y false := by
  have hv := hg v
  generalize g.kind v = k at hv ⊢
  generalize h.kind (e v) = k' at hv ⊢
  cases hv with
  | same => exact .inl rfl
  | free x y => exact .inr ⟨x,y,rfl,rfl⟩

theorem datum (v : Nat) : Datum.Renames e (g.datum v) (h.datum (e v)) := by
  rw [Graph.datum, Graph.datum]
  rcases hg.kind_eq v with hk | ⟨x,y,hk,hk'⟩
  · rw [hk]
    cases g.kind v with
    | identity => exact .identity rfl
    | _ => exact .object v
  · rw [hk, hk']
    exact .object v

theorem expand (v : Nat) : h.expand (e v) = (g.expand v).map e := by
  rw [Graph.expand, Graph.expand, (hg v).members?]
  cases (g.kind v).members? with
  | none => rfl
  | some ms => rfl

theorem operands? (v : Nat) : h.operands? (e v) = (g.operands? v).map (·.map e) := by
  rw [Graph.operands?, Graph.operands?, (hg v).parts?, Option.map_map, Option.map_map]
  congr 1
  funext vs
  simp [List.flatMap_map, List.map_flatMap, hg.expand]

theorem kind_identity (v : Nat) : h.kind (e v) = .identity ↔ g.kind v = .identity := by
  rcases hg.kind_eq v with hk | ⟨x,y,hk,hk'⟩
  · rw [hk]
    cases g.kind v <;> simp [Kind.rename]
  · simp [hk, hk']

theorem search {start target : Nat} {stop : Bool} (steps : Nat) {seen seen' : Std.TreeSet Nat}
    (hseen : ∀ v, seen'.contains (e v) = seen.contains v) (stack : List Nat) :
    h.search (e start) (e target) stop steps seen' (stack.map e) =
      g.search start target stop steps seen stack := by
  induction steps generalizing seen seen' stack with
  | zero => rfl
  | succ steps ih =>
    have hdrop : (stack.map e).dropWhile seen'.contains = (stack.dropWhile seen.contains).map e := by
      rw [List.dropWhile_map]
      congr 2
      funext v
      exact hseen v
    cases hs : stack.dropWhile seen.contains with
    | nil =>
      rw [hs] at hdrop
      rw [Graph.search, Graph.search, hs, hdrop]
      rfl
    | cons v rest =>
      rw [hs, List.map_cons] at hdrop
      by_cases hk : g.kind v = .identity
      · rw [search_identity hk hs, search_identity ((hg.kind_identity v).mpr hk) hdrop]
      · have hinsert : ∀ w, (seen'.insert (e v)).contains (e w) = (seen.insert v).contains w := by
          intro w
          have hcompare : (compare (e v) (e w) == .eq) = (compare v w == .eq) := by
            rw [Bool.eq_iff_iff, beq_iff_eq, beq_iff_eq, compare_eq_iff_eq, compare_eq_iff_eq,
              e.apply_eq_iff_eq]
          rw [Std.TreeSet.contains_insert, Std.TreeSet.contains_insert, hseen, hcompare]
        have hnext : ∀ more : List Nat, h.search (e start) (e target) stop steps (seen'.insert (e v))
            ((more.map e).reverse ++ rest.map e) =
              g.search start target stop steps (seen.insert v) (more.reverse ++ rest) := by
          intro more
          rw [← ih hinsert, List.map_append, List.map_reverse]
        rw [search_step hk hs, search_step (mt (hg.kind_identity v).mp hk) hdrop, hg.operands?,
          (hg v).isReducer, beq_rename, bne, beq_rename, ih hinsert]
        cases g.operands? v with
        | none => rfl
        | some vs => simp only [Option.map_some, Option.elim_some, hnext]; rfl

theorem nodeReaches (v target : Nat) (stop : Bool) :
    h.nodeReaches (e v) (e target) stop = g.nodeReaches v target stop := by
  -- The graphs need not be of one size: both searches are given the steps that the larger one needs.
  rw [Graph.nodeReaches, Graph.nodeReaches,
    search_eq_of_le (Nat.lt_succ_self _) (Nat.lt_succ_of_le (Nat.le_max_right g.size h.size)),
    search_eq_of_le (Nat.lt_succ_self _) (Nat.lt_succ_of_le (Nat.le_max_left g.size h.size))]
  exact hg.search _ (fun _ => rfl) [v]

/-- Whether an object depends on another one without looking into reducers. -/
theorem reaches (v target : Nat) : h.reaches (e v) (e target) true = g.reaches v target true := by
  have hany : ∀ {inside inside' : List Nat → Except Fault Bool} (ms : List Nat),
      h.anyReaches (e target) true inside' (ms.map e) = g.anyReaches target true inside ms := by
    intro inside inside' ms
    induction ms with
    | nil => rfl
    | cons m ms ih =>
      have hnode := hg.nodeReaches m target true
      rw [List.map_cons, anyReaches, anyReaches, ih]
      rcases hg.kind_eq m with hk | ⟨x,y,hk,hk'⟩
      · rw [hk]
        cases g.kind m <;> simp only [Kind.rename, Kind.isReducer, beq_rename, hnode] <;> rfl
      · simp only [hk, hk', Kind.isReducer, beq_rename, hnode]
        rfl
  have hnode := hg.nodeReaches v target true
  rw [Graph.reaches, Graph.reaches]
  rcases hg.kind_eq v with hk | ⟨x,y,hk,hk'⟩
  · rw [hk]
    cases g.kind v with
    | collection ms => exact hany ms
    | identity => rfl
    | _ => exact hnode
  · simp only [hk, hk', hnode]

end Graph.Iso

namespace Datum.Renames

variable {g h : Graph} {e : Nat ≃ Nat} {d d' : Datum}

theorem identityOf (hd : Renames e d d') :
    Agree (Identity.Renames e) (g.identityOf d) (h.identityOf d') := by
  cases hd with
  | object v => exact .ok rfl
  | identity hs => exact .ok hs

end Datum.Renames

namespace Graph.Iso

variable {g h : Graph} {e : Nat ≃ Nat} (hg : g.Iso h e)

include hg

end Graph.Iso

end FitCode
