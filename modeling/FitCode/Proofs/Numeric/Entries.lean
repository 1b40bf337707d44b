import FitCode.Numeric.Density
import Mathlib.Data.List.Forall2

/-! # Columns and their entries

Arithmetic on columns works entry by entry: what an operation makes of whole columns has, at each
position, the value that the operation makes of the entries there. Numbers meet columns as they meet
each of the entries. A collection over columns is stored by rows, one for each member, so its members at
one position are the entries of the rows there.
-/
namespace FitCode.Numeric

theorem Outcome.bind_eq_ok {α β : Type} {x : Outcome α} {f : α → Outcome β} {b : β} :
    x >>= f = .ok b ↔ ∃ a, x = .ok a ∧ f a = .ok b := by
  cases x with
  | error e => simp [bind, Except.bind]
  | ok a => simp [bind, Except.bind]

theorem Outcome.map_eq_ok {α β : Type} {x : Outcome α} {f : α → β} {b : β} :
    f <$> x = .ok b ↔ ∃ a, x = .ok a ∧ f a = b := by
  cases x with
  | error e => simp [Functor.map, Except.map]
  | ok a => simp [Functor.map, Except.map]

theorem Outcome.foldlM_related {α β γ : Type} {f : α → γ → Outcome α} {g : β → γ → Outcome β}
    {R : α → β → Prop}
    (hstep : ∀ a b c a', R a b → f a c = .ok a' → ∃ b', g b c = .ok b' ∧ R a' b')
    {cs : List γ} {a a' : α} {b : β} (hR : R a b) (h : cs.foldlM f a = .ok a') :
    ∃ b', cs.foldlM g b = .ok b' ∧ R a' b' := by
  induction cs generalizing a b with
  | nil =>
    cases h
    exact ⟨b,rfl,hR⟩
  | cons c cs ih =>
    rw [List.foldlM_cons, bind_eq_ok] at h
    obtain ⟨a₁,hf,h⟩ := h
    obtain ⟨b₁,hg,hR₁⟩ := hstep a b c a₁ hR hf
    obtain ⟨b',hgs,hR'⟩ := ih hR₁ h
    refine ⟨b',?_,hR'⟩
    rw [List.foldlM_cons, hg]
    exact hgs

namespace Tensor

theorem ofFn_column (m : Nat) (f : List Nat → Float) :
    ofFn [m] f = ofList ((List.range m).map fun i => f [i]) := by
  have hpos : positions [m] = (List.range m).map fun i => [i] := List.map_eq_flatMap.symm
  simp [ofFn, ofList, hpos]

theorem stretched_column {xs : List Float} (h : xs.length ≠ 1) {i : Nat} {x : Float}
    (hx : xs[i]? = some x) : (ofList xs).stretched [i] = x := by
  simp [stretched, ofList, get, offset, volume, h, hx]

theorem stretched_scalar (y : Float) (i : Nat) : (scalar y).stretched [i] = y := by
  simp [stretched, scalar, get, offset]

theorem zipWith_eq {f : Float → Float → Float} {a b : Tensor} {m : Nat}
    (h : joinShapes a.shape b.shape = some [m]) : a.zipWith? f b =
      some (ofList ((List.range m).map fun i => f (a.stretched [i]) (b.stretched [i]))) := by
  simp [zipWith?, h, ofFn_column]

/-- Columns with more than one entry meet only if they are of one length. -/
theorem joinShapes_columns {m n : Nat} (hm : m ≠ 1) (hn : n ≠ 1) :
    joinShapes [m] [n] = if m = n then some [m] else none := by
  by_cases h : m = n
  · simp [joinShapes, joinAxes, h]
  · simp [joinShapes, joinAxes, h, hm, hn]

end Tensor

namespace Scalar

theorem common_double (x : Float) (b : Scalar) : common (double x) b = .double := by
  cases b <;> rfl

theorem double_common (a : Scalar) (y : Float) : common a (double y) = .double := by
  cases a <;> rfl

end Scalar

namespace Value

variable {op : Op}

theorem binary_element_left {x y : Float} {b : Scalar} (h : b.toFloat = .ok y) :
    binary op (.element x) (.scalar b) = .ok (.element (floatOp op x y)) := by
  simp only [element, binary, Scalar.binary, Scalar.common_double, h]
  rfl

theorem binary_element_right {x y : Float} {a : Scalar} (h : a.toFloat = .ok x) :
    binary op (.scalar a) (.element y) = .ok (.element (floatOp op x y)) := by
  simp only [element, binary, Scalar.binary, Scalar.double_common, h]
  rfl

/-- A value over columns of at least `n` entries, and what it is at the `i`-th entry: a number is the
same at every entry. -/
inductive Entry (n i : Nat) : Value → Value → Prop
  | scalar (s : Scalar) : Entry n i (.scalar s) (.scalar s)
  | column {xs : List Float} {x : Float} (hn : n ≤ xs.length) (hx : xs[i]? = some x) :
      Entry n i (.array (.ofList xs)) (.element x)

namespace Entry

variable {n i : Nat} {V W U v w : Value}

theorem lt_length {xs : List Float} {x : Float} (hx : xs[i]? = some x) : i < xs.length :=
  (List.getElem?_eq_some_iff.mp hx).1

/-- The entries of a combination of two tensors that meet in a column. -/
theorem of_tensorOp {a b : Tensor} {m : Nat} {x y : Float} (hn : n ≤ m) (hi : i < m)
    (hjoin : Tensor.joinShapes a.shape b.shape = some [m]) (hx : a.stretched [i] = x)
    (hy : b.stretched [i] = y) (h : tensorOp op a b = .ok U) :
    Entry n i U (.element (floatOp op x y)) := by
  rw [tensorOp, Tensor.zipWith_eq hjoin] at h
  cases h
  exact .column (by simpa using hn) (by simp [hi, hx, hy])

theorem binary (h1 : 1 < n) (hV : Entry n i V v) (hW : Entry n i W w)
    (h : Value.binary op V W = .ok U) : ∃ u, Value.binary op v w = .ok u ∧ Entry n i U u := by
  cases hV with
  | scalar a =>
    cases hW with
    | scalar b =>
      obtain ⟨s,hs,rfl⟩ := Outcome.map_eq_ok.mp h
      exact ⟨_,h,.scalar s⟩
    | @column ys y hn hy =>
      obtain ⟨x,hx,h⟩ := Outcome.bind_eq_ok.mp h
      exact ⟨_,binary_element_right hx,of_tensorOp hn (lt_length hy) rfl
        (Tensor.stretched_scalar x i) (Tensor.stretched_column (by omega) hy) h⟩
  | @column xs x hn hx =>
    cases hW with
    | scalar b =>
      obtain ⟨y,hy,h⟩ := Outcome.bind_eq_ok.mp h
      exact ⟨_,binary_element_left hy,of_tensorOp hn (lt_length hx) rfl
        (Tensor.stretched_column (by omega) hx) (Tensor.stretched_scalar y i) h⟩
    | @column ys y hn' hy =>
      have hjoin := Tensor.joinShapes_columns (m := xs.length) (n := ys.length) (by omega) (by omega)
      by_cases hlen : xs.length = ys.length
      · rw [if_pos hlen] at hjoin
        exact ⟨_,binary_element_left rfl,of_tensorOp hn (lt_length hx) hjoin
          (Tensor.stretched_column (by omega) hx) (Tensor.stretched_column (by omega) hy) h⟩
      · have hnone : (Tensor.ofList xs).zipWith? (floatOp op) (.ofList ys) = none := by
          rw [if_neg hlen] at hjoin
          simp [Tensor.zipWith?, Tensor.ofList, hjoin]
        simp [Value.binary, tensorOp, hnone] at h

theorem inPlace (h1 : 1 < n) (hV : Entry n i V v) (hW : Entry n i W w)
    (h : Value.inPlace op V W = .ok U) : ∃ u, Value.inPlace op v w = .ok u ∧ Entry n i U u := by
  obtain ⟨r,hr,h⟩ := Outcome.bind_eq_ok.mp h
  have hU : r = U := by
    split at h
    · split at h
      · exact Except.ok.inj h
      · cases h
    · exact Except.ok.inj h
  subst hU
  obtain ⟨u,hu,hE⟩ := hV.binary h1 hW hr
  refine ⟨u,?_,hE⟩
  rw [Value.inPlace, hu]
  cases hV with
  | scalar a => rfl
  | column hn hx => rfl

theorem apply {onScalar : Scalar → Outcome Scalar} {onEntry : Float → Float}
    (hf : ∀ x, onScalar (.double x) = .ok (.double (onEntry x))) (hV : Entry n i V v)
    (h : Value.apply onScalar onEntry V = .ok U) :
    ∃ u, Value.apply onScalar onEntry v = .ok u ∧ Entry n i U u := by
  cases hV with
  | scalar a =>
    obtain ⟨s,hs,rfl⟩ := Outcome.map_eq_ok.mp h
    exact ⟨_,h,.scalar s⟩
  | @column xs x hn hx =>
    cases h
    refine ⟨.element (onEntry x),?_,?_⟩
    · simp only [Value.apply, element, hf]
      rfl
    · have hmap : ofTensor ((Tensor.ofList xs).map onEntry) = .array (.ofList (xs.map onEntry)) := by
        simp [ofTensor, Tensor.map, Tensor.ofList]
      rw [hmap]
      exact .column (by simpa using hn) (by simp [hx])

theorem exp (hV : Entry n i V v) (h : V.exp = .ok U) : ∃ u, v.exp = .ok u ∧ Entry n i U u :=
  hV.apply (fun _ => rfl) h

theorem log (hV : Entry n i V v) (h : V.log = .ok U) : ∃ u, v.log = .ok u ∧ Entry n i U u :=
  hV.apply (fun _ => rfl) h

theorem negate (hV : Entry n i V v) (h : V.negate = .ok U) :
    ∃ u, v.negate = .ok u ∧ Entry n i U u := by
  cases hV with
  | scalar a =>
    obtain ⟨s,hs,rfl⟩ := Outcome.map_eq_ok.mp h
    exact ⟨_,h,.scalar s⟩
  | @column xs x hn hx =>
    have hf : ∀ x, Scalar.negate (.double x) = .ok (.double (-x)) := fun _ => rfl
    exact (Entry.column hn hx).apply hf h

theorem keep (hV : Entry n i V v) (h : V.keep = .ok U) : ∃ u, v.keep = .ok u ∧ Entry n i U u := by
  cases hV with
  | scalar a =>
    obtain ⟨s,hs,rfl⟩ := Outcome.map_eq_ok.mp h
    exact ⟨_,h,.scalar s⟩
  | column hn hx =>
    cases h
    exact ⟨_,rfl,.column hn hx⟩

theorem gaussian {X M S x m s : Value} (h1 : 1 < n) (hX : Entry n i X x) (hM : Entry n i M m)
    (hS : Entry n i S s) (h : Value.gaussian X M S = .ok U) :
    ∃ u, Value.gaussian x m s = .ok u ∧ Entry n i U u := by
  simp only [Value.gaussian, Outcome.bind_eq_ok] at h
  obtain ⟨D,hD,A,hA,H,hH,E,hE,T,hT,B,hB,h⟩ := h
  obtain ⟨d,hd,hD'⟩ := hX.binary h1 hM hD
  obtain ⟨a,ha,hA'⟩ := hD'.binary h1 hS hA
  obtain ⟨half,hhalf,hH'⟩ := (Entry.scalar _).binary h1 hA' hH
  obtain ⟨e,he,hE'⟩ := hH'.binary h1 hA' hE
  obtain ⟨t,ht,hT'⟩ := hE'.exp hT
  obtain ⟨b,hb,hB'⟩ := hS.binary h1 (Entry.scalar _) hB
  obtain ⟨u,hu,hU⟩ := hT'.binary h1 hB' h
  refine ⟨u,?_,hU⟩
  simp only [Value.gaussian, Outcome.bind_eq_ok]
  exact ⟨d,hd,a,ha,half,hhalf,e,he,t,ht,b,hb,hu⟩

theorem exponential {X C x c : Value} (h1 : 1 < n) (hX : Entry n i X x) (hC : Entry n i C c)
    (h : Value.exponential X C = .ok U) : ∃ u, Value.exponential x c = .ok u ∧ Entry n i U u := by
  simp only [Value.exponential, Outcome.bind_eq_ok] at h ⊢
  obtain ⟨P,hP,h⟩ := h
  obtain ⟨p,hp,hP'⟩ := hC.binary h1 hX hP
  obtain ⟨u,hu,hU⟩ := hP'.exp h
  exact ⟨u,⟨p,hp,hu⟩,hU⟩

end Entry

/-- A collection over columns of at least `n` entries, and what it is at the `i`-th entry. A collection
of numbers is the same at every entry; of columns it has one row for each. -/
inductive Slice (n i : Nat) : Value → Value → Prop
  | numbers (xs : List Float) : Slice n i (.array (.ofList xs)) (.array (.ofList xs))
  | rows {xss : List (List Float)} {m : Nat} {ys : List Float} (hn : n ≤ m)
      (hlen : ∀ xs ∈ xss, xs.length = m) (hys : xss.map (·[i]?) = ys.map some) :
      Slice n i (.array ⟨[xss.length, m], xss.flatten⟩) (.array (.ofList ys))

theorem drop_flatten {xss : List (List Float)} {m : Nat} (hlen : ∀ xs ∈ xss, xs.length = m)
    (k : Nat) : xss.flatten.drop (k * m) = (xss.drop k).flatten := by
  induction xss generalizing k with
  | nil => simp
  | cons xs xss ih =>
    cases k with
    | zero => simp
    | succ k =>
      have hm : xs.length = m := hlen xs (by simp)
      have hk : (k + 1) * m = xs.length + k * m := by rw [hm, Nat.succ_mul, Nat.add_comm]
      rw [hk, List.flatten_cons, List.drop_length_add_append, List.drop_succ_cons]
      exact ih (fun ys hys => hlen ys (by simp [hys])) k

theorem row_rows {xss : List (List Float)} {m k : Nat} (hlen : ∀ xs ∈ xss, xs.length = m)
    {xs : List Float} (hk : xss[k]? = some xs) :
    Tensor.row? ⟨[xss.length, m], xss.flatten⟩ k = some (.ofList xs) := by
  obtain ⟨hlt,rfl⟩ := List.getElem?_eq_some_iff.mp hk
  have hm : xss[k].length = m := hlen _ (List.getElem_mem hlt)
  have htake : ((xss.drop k).flatten).take m = xss[k] := by
    rw [List.drop_eq_getElem_cons hlt, List.flatten_cons, ← hm, List.take_left]
  simp [Tensor.row?, hlt, Tensor.volume, drop_flatten hlen, htake, Tensor.ofList, hm]

theorem row_column {xs : List Float} {k : Nat} {x : Float} (hk : xs[k]? = some x) :
    (Tensor.ofList xs).row? k = some ⟨[], [x]⟩ := by
  obtain ⟨hlt,rfl⟩ := List.getElem?_eq_some_iff.mp hk
  simp [Tensor.row?, Tensor.ofList, hlt, Tensor.volume, List.take_one]

theorem position_nat (length k : Nat) : position? length k = if k < length then some k else none := by
  simp [position?]

theorem index_column (xs : List Float) (k : Nat) : (array (.ofList xs)).index (int k) =
    (xs[k]?).elim (.error .index) fun x => .ok (.element x) := by
  have hd : (Tensor.ofList xs).shape.headD 0 = xs.length := rfl
  simp only [index, int, hd, position_nat]
  by_cases hk : k < xs.length
  · rw [if_pos hk, Option.bind_some, row_column (List.getElem?_eq_getElem hk),
      List.getElem?_eq_getElem hk]
    rfl
  · rw [if_neg hk, List.getElem?_eq_none (Nat.le_of_not_lt hk)]
    rfl

theorem index_rows {xss : List (List Float)} {m : Nat} (hlen : ∀ xs ∈ xss, xs.length = m) (k : Nat) :
    (array ⟨[xss.length, m], xss.flatten⟩).index (int k) =
      (xss[k]?).elim (.error .index) fun xs => .ok (.array (.ofList xs)) := by
  simp only [index, int, List.headD_cons, position_nat]
  by_cases hk : k < xss.length
  · rw [if_pos hk, Option.bind_some, row_rows hlen (List.getElem?_eq_getElem hk),
      List.getElem?_eq_getElem hk]
    rfl
  · rw [if_neg hk, List.getElem?_eq_none (Nat.le_of_not_lt hk)]
    rfl

namespace Slice

variable {n i : Nat} {V U v : Value}

theorem length_eq (h : Slice n i V v) : v.length = V.length := by
  cases h with
  | numbers xs => rfl
  | @rows xss m ys hn hlen hys =>
    have hl : xss.length = ys.length := by simpa using congrArg List.length hys
    simp [Value.length, Tensor.ofList, hl]

theorem index (h : Slice n i V v) {k : Nat} (hk : V.index (int k) = .ok U) :
    ∃ u, v.index (int k) = .ok u ∧ Entry n i U u := by
  cases h with
  | numbers xs =>
    refine ⟨U,hk,?_⟩
    rw [index_column] at hk
    cases hx : xs[k]? with
    | none => simp [hx] at hk
    | some x =>
      rw [hx] at hk
      cases hk
      exact .scalar _
  | @rows xss m ys hn hlen hys =>
    rw [index_rows hlen] at hk
    cases hx : xss[k]? with
    | none => simp [hx] at hk
    | some xs =>
      rw [hx] at hk
      cases hk
      have hm : xs.length = m := hlen xs (List.mem_of_getElem? hx)
      have hy : some (xs[i]?) = (ys[k]?).map some := by
        rw [← List.getElem?_map, ← hys, List.getElem?_map, hx, Option.map_some]
      cases hyk : ys[k]? with
      | none => simp [hyk] at hy
      | some y =>
        refine ⟨.element y,by rw [index_column, hyk]; rfl,.column (hm ▸ hn) ?_⟩
        simpa [hyk] using hy

end Slice

section Stacking

theorem mapM_eq_some {α β : Type} {f : α → Option β} {g : α → β} {as : List α}
    (h : ∀ a ∈ as, f a = some (g a)) : as.mapM f = some (as.map g) := by
  induction as with
  | nil => rfl
  | cons a as ih =>
    rw [List.mapM_cons, h a (by simp), ih fun b hb => h b (by simp [hb])]
    rfl

theorem exists_mem_of_mapM {α β : Type} {f : α → Option β} {as : List α} {bs : List β}
    (h : as.mapM f = some bs) {a : α} (ha : a ∈ as) : ∃ b ∈ bs, f a = some b := by
  induction as generalizing bs with
  | nil => cases ha
  | cons a' as ih =>
    rw [List.mapM_cons] at h
    cases hb : f a' with
    | none => simp [hb] at h
    | some b =>
      cases hbs : as.mapM f with
      | none => simp [hb, hbs] at h
      | some bs' =>
        simp only [hb, hbs, bind, Option.bind, pure, Option.some.injEq] at h
        subst h
        rcases List.mem_cons.mp ha with rfl | ha
        · exact ⟨b,by simp,hb⟩
        · obtain ⟨b',hb',hf⟩ := ih hbs ha
          exact ⟨b',by simp [hb'],hf⟩

theorem shape_eq_of_ofItems {V W U : Value} {Vs : List Value} (h : ofItems (V :: Vs) = .ok U)
    (hW : W ∈ Vs) : W.shape? = V.shape? := by
  unfold ofItems at h
  cases hs : (V :: Vs).mapM shape? with
  | none => simp [hs] at h
  | some shapes =>
    cases ht : (V :: Vs).mapM tensor? with
    | none => simp [hs, ht] at h
    | some ts =>
      simp only [hs, ht] at h
      cases hall : shapes.all fun s => some s == shapes.head? with
      | false => simp [hall, bind, Except.bind] at h
      | true =>
        have heq : ∀ Z ∈ V :: Vs, Z.shape? = shapes.head? := by
          intro Z hZ
          obtain ⟨z,hz,hZz⟩ := exists_mem_of_mapM hs hZ
          have hhead := List.all_eq_true.mp hall z hz
          rw [hZz]
          exact eq_of_beq hhead
        rw [heq W (by simp [hW]), heq V (by simp)]

theorem mapM_scalars (ss : List Scalar) :
    ((ss.map fun s => Tensor.scalar <$> s.toFloat).mapM id : Outcome (List Tensor)) =
      (List.map Tensor.scalar) <$> ss.mapM Scalar.toFloat := by
  induction ss with
  | nil => rfl
  | cons s ss ih =>
    rw [List.map_cons, List.mapM_cons, List.mapM_cons, ih]
    cases s.toFloat with
    | error e => rfl
    | ok x => cases ss.mapM Scalar.toFloat <;> rfl

theorem stack_scalars (xs : List Float) : Tensor.stack? (xs.map Tensor.scalar) = some (.ofList xs) := by
  cases xs with
  | nil => rfl
  | cons x xs => simp [Tensor.stack?, Tensor.scalar, Tensor.ofList, List.flatMap_map, List.flatMap_singleton']

theorem ofItems_scalars (ss : List Scalar) : ofItems (ss.map .scalar) =
    (fun xs => array (.ofList xs)) <$> ss.mapM Scalar.toFloat := by
  have hs : (ss.map Value.scalar).mapM shape? = some ((ss.map Value.scalar).map fun _ => []) :=
    mapM_eq_some (by simp [shape?])
  have ht : (ss.map Value.scalar).mapM tensor? = some (ss.map fun s => Tensor.scalar <$> s.toFloat) := by
    rw [List.mapM_map]
    exact mapM_eq_some fun s _ => rfl
  have hall : (((ss.map Value.scalar).map fun _ => ([] : List Nat)).all fun s =>
      some s == ((ss.map Value.scalar).map fun _ => ([] : List Nat)).head?) = true := by
    cases ss <;> simp
  simp only [ofItems, hs, ht, hall, mapM_scalars]
  cases ss.mapM Scalar.toFloat with
  | error e => rfl
  | ok xs => simp [stack_scalars, bind, Except.bind, Functor.map, Except.map]

theorem ofItems_columns {xss : List (List Float)} {m : Nat} (hne : xss ≠ [])
    (hlen : ∀ xs ∈ xss, xs.length = m) : ofItems (xss.map fun xs => .array (.ofList xs)) =
      .ok (.array ⟨[xss.length, m], xss.flatten⟩) := by
  have hs : (xss.map fun xs => Value.array (.ofList xs)).mapM shape? = some (xss.map fun _ => [m]) := by
    rw [List.mapM_map]
    exact mapM_eq_some fun xs hxs => by simp [shape?, Tensor.ofList, hlen xs hxs]
  have ht : (xss.map fun xs => Value.array (.ofList xs)).mapM tensor? =
      some (xss.map fun xs => .ok (.ofList xs)) := by
    rw [List.mapM_map]
    exact mapM_eq_some fun xs _ => rfl
  have hall : ((xss.map fun _ => [m]).all fun s => some s == (xss.map fun _ => [m]).head?) = true := by
    cases xss <;> simp
  have hid : ((xss.map fun xs => (.ok (.ofList xs) : Outcome Tensor)).mapM id) =
      .ok (xss.map Tensor.ofList) := by
    rw [List.mapM_map]
    exact List.mapM_pure
  have hstack : Tensor.stack? (xss.map Tensor.ofList) = some ⟨[xss.length, m], xss.flatten⟩ := by
    obtain ⟨xs,xss,rfl⟩ := List.exists_cons_of_ne_nil hne
    have hxs : xs.length = m := hlen xs (by simp)
    have heq : ((xss.map Tensor.ofList).all fun u => u.shape == [m]) = true := by
      simp only [List.all_map, List.all_eq_true, Function.comp_apply, Tensor.ofList, beq_iff_eq]
      intro ys hys
      rw [hlen ys (by simp [hys])]
    simp only [List.map_cons, Tensor.stack?, Tensor.ofList, hxs] at heq ⊢
    rw [if_pos heq]
    simp [List.flatMap_def, Function.comp_def, Tensor.ofList]
  simp only [ofItems, hs, ht, hall, hid]
  simp [hstack, bind, Except.bind]

end Stacking

namespace Slice

variable {n i : Nat} {Vs vs : List Value} {U : Value}

theorem scalars_of_shape (h : List.Forall₂ (Entry n i) Vs vs) (hs : ∀ W ∈ Vs, W.shape? = some []) :
    vs = Vs ∧ ∃ ss : List Scalar, Vs = ss.map .scalar := by
  induction h with
  | nil => exact ⟨rfl,[],rfl⟩
  | @cons V v Vs vs hV _ ih =>
    obtain ⟨rfl,ss,rfl⟩ := ih fun W hW => hs W (by simp [hW])
    cases hV with
    | scalar s => exact ⟨rfl,s :: ss,rfl⟩
    | column hn hx =>
      have hshape := hs _ List.mem_cons_self
      simp [shape?, Tensor.ofList] at hshape

theorem columns_of_shape {m : Nat} (h : List.Forall₂ (Entry n i) Vs vs)
    (hs : ∀ W ∈ Vs, W.shape? = some [m]) :
    ∃ (xss : List (List Float)) (ys : List Float), Vs = xss.map (fun xs => .array (.ofList xs)) ∧
      vs = ys.map .element ∧ (∀ xs ∈ xss, xs.length = m) ∧ xss.map (·[i]?) = ys.map some := by
  induction h with
  | nil => exact ⟨[],[],rfl,rfl,by simp,rfl⟩
  | @cons V v Vs vs hV _ ih =>
    obtain ⟨xss,ys,rfl,rfl,hlen,hys⟩ := ih fun W hW => hs W (by simp [hW])
    have hshape := hs V (by simp)
    cases hV with
    | scalar s => simp [shape?] at hshape
    | @column xs x hn hx =>
      have hm : xs.length = m := by simpa [shape?, Tensor.ofList] using hshape
      exact ⟨xs :: xss,x :: ys,rfl,rfl,by simpa [hm] using hlen,by simp [hx, hys]⟩

/-- The array of values is, at an entry, the array of their entries. -/
theorem ofItems (h : List.Forall₂ (Entry n i) Vs vs) (hU : Value.ofItems Vs = .ok U) :
    ∃ u, Value.ofItems vs = .ok u ∧ Slice n i U u := by
  cases h with
  | nil =>
    cases hU
    exact ⟨_,rfl,.numbers []⟩
  | @cons V v Vs vs hV hVs =>
    have hshape := fun W (hW : W ∈ Vs) => shape_eq_of_ofItems hU hW
    have hforall : List.Forall₂ (Entry n i) (V :: Vs) (v :: vs) := .cons hV hVs
    cases hV with
    | scalar s =>
      obtain ⟨heq,ss,hss⟩ := scalars_of_shape hforall
        (List.forall_mem_cons.mpr ⟨rfl,fun W hW => hshape W hW⟩)
      rw [heq]
      refine ⟨U,hU,?_⟩
      rw [hss, ofItems_scalars] at hU
      obtain ⟨xs,_,rfl⟩ := Outcome.map_eq_ok.mp hU
      exact .numbers xs
    | @column xs x hn hx =>
      obtain ⟨xss,ys,hVs,hvs,hlen,hys⟩ := columns_of_shape (m := xs.length) hforall
        (List.forall_mem_cons.mpr ⟨rfl,fun W hW => hshape W hW⟩)
      have hne : xss ≠ [] := by
        rintro rfl
        simp at hVs
      rw [hVs, ofItems_columns hne hlen] at hU
      cases hU
      have helements : Value.ofItems (ys.map .element) = .ok (.array (.ofList ys)) := by
        have hmap : ys.map Value.element = (ys.map Scalar.double).map .scalar := by simp [element]
        have hfloats : (ys.map Scalar.double).mapM Scalar.toFloat = .ok ys := by
          rw [List.mapM_map]
          exact List.mapM_pure.trans (by rw [List.map_id']; rfl)
        rw [hmap, ofItems_scalars, hfloats]
        rfl
      exact ⟨_,by rw [hvs, helements],.rows hn hlen hys⟩

end Slice

namespace Entry

variable {n i : Nat} {X C U x c : Value}

theorem hornerStep {R r : Value} {k : Nat} (h1 : 1 < n) (hX : Entry n i X x) (hC : Slice n i C c)
    (hR : Entry n i R r) (h : Numeric.hornerStep arithmetic X C R k = .ok U) :
    ∃ u, Numeric.hornerStep arithmetic x c r k = .ok u ∧ Entry n i U u := by
  simp only [Numeric.hornerStep, Outcome.bind_eq_ok] at h ⊢
  obtain ⟨P,hP,D,hD,h⟩ := h
  obtain ⟨p,hp,hP'⟩ := hR.binary h1 hX hP
  obtain ⟨d,hd,hD'⟩ := hC.index hD
  obtain ⟨u,hu,hU⟩ := hP'.binary h1 hD' h
  exact ⟨u,⟨p,hp,d,hd,hu⟩,hU⟩

/-- A polynomial over columns is, at an entry, the polynomial there. -/
theorem polynomial {order : Value} (h1 : 1 < n) (hX : Entry n i X x) (hC : Slice n i C c)
    (hO : Entry n i order order) (h : Value.polynomial X C order = .ok U) :
    ∃ u, Value.polynomial x c order = .ok u ∧ Entry n i U u := by
  simp only [Value.polynomial, Numeric.polynomial, Outcome.bind_eq_ok] at h ⊢
  obtain ⟨S,hS,m,hm,R,hR,b,hb,h⟩ := h
  obtain ⟨s,hs,hS'⟩ := (Entry.scalar _).binary h1 hX hS
  obtain ⟨r,hr,hR'⟩ := Outcome.foldlM_related (R := Entry n i) (g := Numeric.hornerStep arithmetic x c)
    (fun _ _ _ _ hV hf => hornerStep h1 hX hC hV hf) hS' hR
  have hm' : arithmetic.length c = .ok m := hC.length_eq.trans hm
  cases b with
  | false =>
    cases h
    exact ⟨r,⟨s,hs,m,hm',r,hr,false,hb,rfl⟩,hR'⟩
  | true =>
    simp only [if_true, Outcome.bind_eq_ok] at h
    obtain ⟨P,hP,M,hM,h⟩ := h
    obtain ⟨p,hp,hP'⟩ := hX.binary h1 hO hP
    obtain ⟨q,hq,hM'⟩ := hR'.binary h1 hP' hM
    obtain ⟨u,hu,hU⟩ := hM'.binary h1 (Entry.scalar _) h
    refine ⟨u,⟨s,hs,m,hm',r,hr,true,hb,?_⟩,hU⟩
    simp only [if_true, Outcome.bind_eq_ok]
    exact ⟨p,hp,q,hq,hu⟩

theorem mixStep {Vs vs : Value} {S S' : Value × Value} {s : Value × Value} {k : Nat} (h1 : 1 < n)
    (hV : Slice n i Vs vs) (hC : Slice n i C c) (hS : Entry n i S.1 s.1 ∧ Entry n i S.2 s.2)
    (h : Numeric.mixStep arithmetic Vs C S k = .ok S') :
    ∃ s', Numeric.mixStep arithmetic vs c s k = .ok s' ∧
      Entry n i S'.1 s'.1 ∧ Entry n i S'.2 s'.2 := by
  simp only [Numeric.mixStep, Outcome.bind_eq_ok] at h ⊢
  obtain ⟨D,hD,V,hVk,W,hW,T,hT,R,hR,h⟩ := h
  cases h
  obtain ⟨d,hd,hD'⟩ := hC.index hD
  obtain ⟨v,hvk,hV'⟩ := hV.index hVk
  obtain ⟨w,hw,hW'⟩ := hD'.binary h1 hV' hW
  obtain ⟨t,ht,hT'⟩ := hS.1.inPlace h1 hW' hT
  obtain ⟨r,hr,hR'⟩ := hS.2.inPlace h1 hD' hR
  exact ⟨(t, r),⟨d,hd,v,hvk,w,hw,t,ht,r,hr,rfl⟩,hT',hR'⟩

/-- A weighted sum over columns is, at an entry, the weighted sum there. -/
theorem weightedSum {Vs vs : Value} (h1 : 1 < n) (hV : Slice n i Vs vs) (hC : Slice n i C c)
    (h : Value.weightedSum Vs C = .ok U) :
    ∃ u, Value.weightedSum vs c = .ok u ∧ Entry n i U u := by
  simp only [Value.weightedSum, Numeric.weightedSum, Outcome.bind_eq_ok] at h ⊢
  obtain ⟨m,hm,S,hS,l,hl,h⟩ := h
  have hstart : Entry n i (float 0) (float 0) ∧ Entry n i (float 1) (float 1) := ⟨.scalar _,.scalar _⟩
  obtain ⟨s,hs,hS₁,hS₂⟩ := Outcome.foldlM_related (g := Numeric.mixStep arithmetic vs c)
    (R := fun (S s : Value × Value) => Entry n i S.1 s.1 ∧ Entry n i S.2 s.2)
    (b := (float 0, float 1)) (fun _ _ _ _ hE hf => mixStep h1 hV hC hE hf) hstart hS
  have hm' : arithmetic.length c = .ok m := hC.length_eq.trans hm
  have hl' : arithmetic.length vs = .ok l := hV.length_eq.trans hl
  by_cases hlt : m < l
  · simp only [if_pos hlt, Outcome.bind_eq_ok] at h
    obtain ⟨V,hVm,W,hW,h⟩ := h
    obtain ⟨v,hvm,hV'⟩ := hV.index hVm
    obtain ⟨w,hw,hW'⟩ := hS₂.binary h1 hV' hW
    obtain ⟨u,hu,hU⟩ := hS₁.inPlace h1 hW' h
    refine ⟨u,⟨m,hm',s,hs,l,hl',?_⟩,hU⟩
    simp only [if_pos hlt, Outcome.bind_eq_ok]
    exact ⟨v,hvm,w,hw,hu⟩
  · rw [if_neg hlt] at h
    cases h
    exact ⟨s.1,⟨m,hm',s,hs,l,hl',by rw [if_neg hlt]; rfl⟩,hS₁⟩

end Entry

end Value
end FitCode.Numeric
