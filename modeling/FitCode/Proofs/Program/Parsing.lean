import FitCode.Program.Parser

/-! # Parsing what the grammar derives

`Derives` is a grammar of the expressions that generated code is made of, with sums and products that
lean to the left. A parser with enough levels reads what it derives, up to a token that cannot go on.
`Lays` does the same for statements and their blocks.
-/
namespace FitCode.Program

open FitCode.Numeric

/-- What tokens are derived as. -/
inductive Construct where
  | sum (e : Expr)
  | product (e : Expr)
  | factor (e : Expr)
  /-- An operand with its calls, items and attributes. -/
  | primary (e : Expr)
  /-- Expressions separated by commas. -/
  | items (es : List Expr)

inductive Derives : Construct → List Token → Prop
  | name (s : String) : Derives (.primary (.name s)) [.name s]
  | int (n : Nat) : Derives (.primary (.int n)) [.int n]
  | float (x : Float) : Derives (.primary (.float x)) [.float x]
  | paren {e ts} (h : Derives (.sum e) ts) :
      Derives (.primary e) (.mark "(" :: (ts ++ [.mark ")"]))
  | list {es ts} (h : Derives (.items es) ts) :
      Derives (.primary (.list es)) (.mark "[" :: (ts ++ [.mark "]"]))
  | part {e ts} (h : Derives (.primary e) ts) (s : String) :
      Derives (.primary (.attribute e s)) (ts ++ [.mark ".", .name s])
  | call {f es ts us} (h : Derives (.primary f) ts) (hs : Derives (.items es) us) :
      Derives (.primary (.call f es)) (ts ++ .mark "(" :: (us ++ [.mark ")"]))
  | index {e i ts us} (h : Derives (.primary e) ts) (hi : Derives (.sum i) us) :
      Derives (.primary (.index e i)) (ts ++ .mark "[" :: (us ++ [.mark "]"]))
  | operand {e ts} (h : Derives (.primary e) ts) : Derives (.factor e) ts
  | negate {e ts} (h : Derives (.factor e) ts) : Derives (.factor (.negate e)) (.mark "-" :: ts)
  | keep {e ts} (h : Derives (.factor e) ts) : Derives (.factor (.keep e)) (.mark "+" :: ts)
  | factor {e ts} (h : Derives (.factor e) ts) : Derives (.product e) ts
  | times {a b ts us m op} (h : Derives (.product a) ts) (hm : productOp? m = some op)
      (h' : Derives (.factor b) us) : Derives (.product (.binary op a b)) (ts ++ .mark m :: us)
  | product {e ts} (h : Derives (.product e) ts) : Derives (.sum e) ts
  | plus {a b ts us m op} (h : Derives (.sum a) ts) (hm : sumOp? m = some op)
      (h' : Derives (.product b) us) : Derives (.sum (.binary op a b)) (ts ++ .mark m :: us)
  | none : Derives (.items []) []
  | one {e ts} (h : Derives (.sum e) ts) : Derives (.items [e]) ts
  | more {e es ts us} (h : Derives (.sum e) ts) (hs : Derives (.items es) us) :
      Derives (.items (e :: es)) (ts ++ .mark "," :: us)

/-- Whether an operand may start with a token. -/
def startsOperand : Token → Bool
  | .int _ => true
  | .float _ => true
  | .name _ => true
  | .mark m => m == "(" || m == "["
  | _ => false

/-- Whether an expression may start with a token. -/
def startsSum : Token → Bool
  | .mark m => m == "(" || m == "[" || m == "-" || m == "+"
  | t => startsOperand t

/-- What the first token of a form satisfies. -/
def Construct.Starts : Construct → List Token → Prop
  | primary _, ts => ∃ t ∈ ts.head?, startsOperand t = true
  | items _, ts => ∀ t ∈ ts.head?, startsSum t = true
  | _, ts => ∃ t ∈ ts.head?, startsSum t = true

theorem startsSum_of_startsOperand {t : Token} (h : startsOperand t = true) : startsSum t = true := by
  cases t <;> simp_all [startsOperand, startsSum]

theorem Derives.starts {f : Construct} {ts : List Token} (h : Derives f ts) : f.Starts ts := by
  have happend : ∀ {p : Token → Bool} {ts : List Token} (us : List Token), (∃ t ∈ ts.head?, p t = true) →
      ∃ t ∈ (ts ++ us).head?, p t = true := by
    rintro p ts us ⟨t,ht,hp⟩
    exact ⟨t,by rw [List.head?_append, ht]; rfl,hp⟩
  induction h with
  | name s => exact ⟨_,rfl,rfl⟩
  | int n => exact ⟨_,rfl,rfl⟩
  | float x => exact ⟨_,rfl,rfl⟩
  | paren h ih => exact ⟨_,rfl,rfl⟩
  | list h ih => exact ⟨_,rfl,rfl⟩
  | part h s ih => exact happend _ ih
  | call h hs ih => exact happend _ ih
  | index h hi ih => exact happend _ ih
  | operand h ih =>
    obtain ⟨t,ht,hs⟩ := ih
    exact ⟨t,ht,startsSum_of_startsOperand hs⟩
  | negate h ih => exact ⟨_,rfl,rfl⟩
  | keep h ih => exact ⟨_,rfl,rfl⟩
  | factor h ih => exact ih
  | times h hm h' ih => exact happend _ ih
  | product h ih => exact ih
  | plus h hm h' ih => exact happend _ ih
  | none => simp [Construct.Starts]
  | one h ih =>
    obtain ⟨t,ht,hs⟩ := ih
    intro t' ht'
    rw [ht] at ht'
    cases ht'
    exact hs
  | more h hs ih =>
    obtain ⟨t,ht,hs⟩ := happend _ ih
    intro t' ht'
    rw [ht] at ht'
    cases ht'
    exact hs

/-- The marks that go on with an operand. -/
def operandMarks : List String := ["(", "[", ".", "**"]

def productMarks : List String := "*" :: "/" :: operandMarks

def sumMarks : List String := "+" :: "-" :: productMarks

/-- The tokens start with none of the marks. -/
def Ends (marks : List String) (rest : List Located) : Prop :=
  ∀ l ∈ rest.head?, ∀ m ∈ marks, l.token ≠ .mark m

theorem Ends.mono {marks marks' : List String} {rest : List Located} (h : Ends marks rest)
    (hm : ∀ m ∈ marks', m ∈ marks) : Ends marks' rest := fun l hl m hmem => h l hl m (hm m hmem)

theorem productOp?_eq_some {m : String} {op : Op} (h : productOp? m = some op) : m = "*" ∨ m = "/" := by
  unfold productOp? at h
  split at h
  · exact .inl rfl
  · exact .inr rfl
  · cases h

theorem sumOp?_eq_some {m : String} {op : Op} (h : sumOp? m = some op) : m = "+" ∨ m = "-" := by
  unfold sumOp? at h
  split at h
  · exact .inl rfl
  · exact .inr rfl
  · cases h

section

variable {rest : List Located} {e : Expr} {n : Nat}

theorem trailer_ends (h : Ends operandMarks rest) : trailer (n + 1) e rest = some (e, rest) := by
  unfold trailer
  split
  · exact absurd rfl (h _ rfl "(" (by decide))
  · exact absurd rfl (h _ rfl "[" (by decide))
  · exact absurd rfl (h _ rfl "." (by decide))
  · rfl

theorem productRest_ends (h : Ends productMarks rest) : productRest (n + 1) e rest = some (e, rest) := by
  unfold productRest
  split
  · rename_i m line level rest
    cases hm : productOp? m with
    | none => rfl
    | some op =>
      rcases productOp?_eq_some hm with rfl | rfl
      · exact absurd rfl (h _ rfl "*" (by decide))
      · exact absurd rfl (h _ rfl "/" (by decide))
  · rfl

theorem sumRest_ends (h : Ends sumMarks rest) : sumRest (n + 1) e rest = some (e, rest) := by
  unfold sumRest
  split
  · rename_i m line level rest
    cases hm : sumOp? m with
    | none => rfl
    | some op =>
      rcases sumOp?_eq_some hm with rfl | rfl
      · exact absurd rfl (h _ rfl "+" (by decide))
      · exact absurd rfl (h _ rfl "-" (by decide))
  · rfl

end

/-- Parsers with enough levels read a form in front of other tokens. Chains of operators are read up
to a place from which the parser of the chain goes on, with at most as many levels less as there are
tokens. -/
def Construct.Parsed : Construct → List Token → Prop
  | sum e, ts => ∀ L rest n, L.map (·.token) = ts → Ends productMarks rest → 4 * ts.length ≤ n →
      ∃ k, k ≤ ts.length ∧ Program.sum n (L ++ rest) = sumRest (n - k) e rest
  | product e, ts => ∀ L rest n, L.map (·.token) = ts → Ends operandMarks rest → 4 * ts.length ≤ n + 1 →
      ∃ k, k ≤ ts.length ∧ Program.product n (L ++ rest) = productRest (n - k) e rest
  | factor e, ts => ∀ L rest n, L.map (·.token) = ts → Ends operandMarks rest → 4 * ts.length ≤ n + 2 →
      Program.factor n (L ++ rest) = some (e, rest)
  | primary e, ts => ∀ L rest n, L.map (·.token) = ts → 4 * ts.length ≤ n + 3 → ∃ k, k < ts.length ∧
      ((atom n (L ++ rest)).bind fun r => trailer n r.1 r.2) = trailer (n - k) e rest
  | items es, ts => ∀ L rest n, L.map (·.token) = ts → ∀ close l, l.token = .mark close →
      close = ")" ∨ close = "]" → 4 * ts.length < n → Program.items n close (L ++ l :: rest) = some (es, rest)

theorem length_pos_of_head? {ts : List Token} {p : Token → Bool} (h : ∃ t ∈ ts.head?, p t = true) :
    0 < ts.length := by
  obtain ⟨t,ht,_⟩ := h
  cases ts with
  | nil => cases ht
  | cons t ts => simp

section

variable {e a b : Expr} {es : List Expr} {ts us : List Token} {L rest : List Located} {n : Nat} {l : Located}
  {m : String}

theorem sum_eq (h : (Construct.sum e).Parsed ts) (hts : 0 < ts.length) (hL : L.map (·.token) = ts)
    (hr : Ends sumMarks rest) (hn : 4 * ts.length ≤ n) : Program.sum n (L ++ rest) = some (e, rest) := by
  obtain ⟨k,hk,hsum⟩ := h L rest n hL (hr.mono (by decide)) hn
  obtain ⟨j,hj⟩ := Nat.exists_eq_add_of_lt (show 0 < n - k by omega)
  rw [hsum, hj, Nat.zero_add]
  exact sumRest_ends hr

theorem product_eq (h : (Construct.product e).Parsed ts) (hts : 0 < ts.length) (hL : L.map (·.token) = ts)
    (hr : Ends productMarks rest) (hn : 4 * ts.length ≤ n + 1) :
    Program.product n (L ++ rest) = some (e, rest) := by
  obtain ⟨k,hk,hproduct⟩ := h L rest n hL (hr.mono (by decide)) hn
  obtain ⟨j,hj⟩ := Nat.exists_eq_add_of_lt (show 0 < n - k by omega)
  rw [hproduct, hj, Nat.zero_add]
  exact productRest_ends hr

theorem ends_of_mark (hl : l.token = .mark m) {marks : List String} (hm : m ∉ marks)
    (rest : List Located) : Ends marks (l :: rest) := by
  intro l' hl' m' hm' h
  cases hl'
  rw [hl] at h
  cases h
  exact hm hm'

theorem expectMark_eq (hl : l.token = .mark m) : expectMark m (l :: rest) = some ((), rest) := by
  obtain ⟨t,line,level⟩ := l
  cases hl
  simp [expectMark]

theorem exists_head {p : Token → Bool} (hs : ∃ t ∈ ts.head?, p t = true) (hL : L.map (·.token) = ts) :
    ∃ l L', L = l :: L' ∧ p l.token = true := by
  obtain ⟨t,ht,hp⟩ := hs
  cases L with
  | nil =>
    cases hL
    cases ht
  | cons l L =>
    cases hL
    cases ht
    exact ⟨l,L,rfl,hp⟩

theorem located_cons {t : Token} (hL : L.map (·.token) = t :: ts) :
    ∃ line level L', L = ⟨t, line, level⟩ :: L' ∧ L'.map (·.token) = ts := by
  obtain ⟨⟨t,line,level⟩,L',rfl,rfl,hL'⟩ := List.map_eq_cons_iff.mp hL
  exact ⟨line,level,L',rfl,hL'⟩

theorem located_single {t : Token} (hL : L.map (·.token) = [t]) : ∃ line level, L = [⟨t, line, level⟩] := by
  obtain ⟨line,level,L',rfl,hL'⟩ := located_cons hL
  cases List.map_eq_nil_iff.mp hL'
  exact ⟨line,level,rfl⟩

theorem located_joined {t : Token} (hL : L.map (·.token) = ts ++ t :: us) :
    ∃ L₁ line level L₂, L = L₁ ++ ⟨t, line, level⟩ :: L₂ ∧ L₁.map (·.token) = ts ∧
      L₂.map (·.token) = us := by
  obtain ⟨L₁,R,rfl,hL₁,hR⟩ := List.map_eq_append_iff.mp hL
  obtain ⟨line,level,L₂,rfl,hL₂⟩ := located_cons hR
  exact ⟨L₁,line,level,L₂,rfl,hL₁,hL₂⟩

theorem located_bracketed {o c : Token} (hL : L.map (·.token) = o :: (ts ++ [c])) :
    ∃ line level L' line' level', L = ⟨o, line, level⟩ :: (L' ++ [⟨c, line', level'⟩]) ∧
      L'.map (·.token) = ts := by
  obtain ⟨line,level,R,rfl,hR⟩ := located_cons hL
  obtain ⟨L',line',level',R',rfl,hL',hR'⟩ := located_joined hR
  cases List.map_eq_nil_iff.mp hR'
  exact ⟨line,level,L',line',level',rfl,hL'⟩

namespace Construct.Parsed

theorem name (s : String) : (Construct.primary (.name s)).Parsed [.name s] := by
  intro L rest n hL hn
  obtain ⟨line,level,rfl⟩ := located_single hL
  obtain ⟨n,rfl⟩ := Nat.exists_eq_add_of_le' (show 1 ≤ n by simpa using hn)
  exact ⟨0,by simp,rfl⟩

theorem int (k : Nat) : (Construct.primary (.int k)).Parsed [.int k] := by
  intro L rest n hL hn
  obtain ⟨line,level,rfl⟩ := located_single hL
  obtain ⟨n,rfl⟩ := Nat.exists_eq_add_of_le' (show 1 ≤ n by simpa using hn)
  exact ⟨0,by simp,rfl⟩

theorem float (x : Float) : (Construct.primary (.float x)).Parsed [.float x] := by
  intro L rest n hL hn
  obtain ⟨line,level,rfl⟩ := located_single hL
  obtain ⟨n,rfl⟩ := Nat.exists_eq_add_of_le' (show 1 ≤ n by simpa using hn)
  exact ⟨0,by simp,rfl⟩

theorem paren (h : (Construct.sum e).Parsed ts) (hs : (Construct.sum e).Starts ts) :
    (Construct.primary e).Parsed (.mark "(" :: (ts ++ [.mark ")"])) := by
  intro L rest n hL hn
  obtain ⟨line,level,L,line',level',rfl,hL'⟩ := located_bracketed hL
  simp only [List.length_cons, List.length_append, List.length_nil] at hn
  obtain ⟨n,rfl⟩ := Nat.exists_eq_add_of_le' (show 1 ≤ n by omega)
  have hsum := sum_eq h (length_pos_of_head? hs) hL'
    (ends_of_mark (l := ⟨.mark ")", line', level'⟩) rfl (by decide) rest) (show 4 * ts.length ≤ n by omega)
  obtain ⟨⟨t,line'',level''⟩,L',rfl,ht⟩ := exists_head hs hL'
  have hatom : atom (n + 1) (⟨.mark "(", line, level⟩ ::
      (⟨t, line'', level''⟩ :: L' ++ ⟨.mark ")", line', level'⟩ :: rest)) = some (e, rest) := by
    have hne : t ≠ .mark ")" := by
      rintro rfl
      cases ht
    simp only [List.cons_append] at hsum ⊢
    simp [atom, hsum, hne, expectMark]
  refine ⟨0,by simp,?_⟩
  simp only [List.cons_append, List.append_assoc, List.nil_append] at hatom ⊢
  rw [hatom]
  rfl

theorem list (h : (Construct.items es).Parsed ts) :
    (Construct.primary (.list es)).Parsed (.mark "[" :: (ts ++ [.mark "]"])) := by
  intro L rest n hL hn
  obtain ⟨line,level,L,line',level',rfl,hL'⟩ := located_bracketed hL
  simp only [List.length_cons, List.length_append, List.length_nil] at hn
  obtain ⟨n,rfl⟩ := Nat.exists_eq_add_of_le' (show 1 ≤ n by omega)
  have hitems := h L rest n hL' "]" ⟨.mark "]", line', level'⟩ rfl (.inr rfl) (by omega)
  have hatom : atom (n + 1) (⟨.mark "[", line, level⟩ :: (L ++ ⟨.mark "]", line', level'⟩ :: rest)) =
      some (.list es, rest) := by
    simp [atom, hitems]
  refine ⟨0,by simp,?_⟩
  simp only [List.cons_append, List.append_assoc, List.nil_append]
  rw [hatom]
  rfl

theorem part (h : (Construct.primary e).Parsed ts) (s : String) :
    (Construct.primary (.attribute e s)).Parsed (ts ++ [.mark ".", .name s]) := by
  intro L rest n hL hn
  obtain ⟨L₁,line,level,L₂,rfl,hL₁,hL₂⟩ := located_joined hL
  obtain ⟨line',level',rfl⟩ := located_single hL₂
  simp only [List.length_append, List.length_cons, List.length_nil] at hn ⊢
  obtain ⟨k,hk,hprimary⟩ := h L₁ (⟨.mark ".", line, level⟩ :: ⟨.name s, line', level'⟩ :: rest) n hL₁ (by omega)
  obtain ⟨j,hj⟩ := Nat.exists_eq_add_of_lt (show 0 < n - k by omega)
  refine ⟨k + 1,by omega,?_⟩
  have hnext : n - (k + 1) = j := by omega
  rw [Nat.zero_add] at hj
  rw [List.append_assoc, List.cons_append, List.cons_append, List.nil_append, hprimary, hj, hnext]
  simp [trailer, expectName]

theorem call {f : Expr} (h : (Construct.primary f).Parsed ts) (hs : (Construct.items es).Parsed us) :
    (Construct.primary (.call f es)).Parsed (ts ++ .mark "(" :: (us ++ [.mark ")"])) := by
  intro L rest n hL hn
  obtain ⟨L₁,R,rfl,hL₁,hR⟩ := List.map_eq_append_iff.mp hL
  obtain ⟨line,level,L₂,line',level',rfl,hL₂⟩ := located_bracketed hR
  simp only [List.length_append, List.length_cons, List.length_nil] at hn ⊢
  obtain ⟨k,hk,hprimary⟩ := h L₁
    (⟨.mark "(", line, level⟩ :: (L₂ ++ ⟨.mark ")", line', level'⟩ :: rest)) n hL₁ (by omega)
  obtain ⟨j,hj⟩ := Nat.exists_eq_add_of_lt (show 0 < n - k by omega)
  have hitems := hs L₂ rest j hL₂ ")" ⟨.mark ")", line', level'⟩ rfl (.inl rfl) (by omega)
  refine ⟨k + 1,by omega,?_⟩
  have hnext : n - (k + 1) = j := by omega
  rw [Nat.zero_add] at hj
  simp only [List.append_assoc, List.cons_append, List.nil_append]
  rw [hprimary, hj, hnext]
  simp [trailer, hitems]

theorem index {i : Expr} (h : (Construct.primary e).Parsed ts) (hi : (Construct.sum i).Parsed us)
    (hus : 0 < us.length) :
    (Construct.primary (.index e i)).Parsed (ts ++ .mark "[" :: (us ++ [.mark "]"])) := by
  intro L rest n hL hn
  obtain ⟨L₁,R,rfl,hL₁,hR⟩ := List.map_eq_append_iff.mp hL
  obtain ⟨line,level,L₂,line',level',rfl,hL₂⟩ := located_bracketed hR
  simp only [List.length_append, List.length_cons, List.length_nil] at hn ⊢
  obtain ⟨k,hk,hprimary⟩ := h L₁
    (⟨.mark "[", line, level⟩ :: (L₂ ++ ⟨.mark "]", line', level'⟩ :: rest)) n hL₁ (by omega)
  obtain ⟨j,hj⟩ := Nat.exists_eq_add_of_lt (show 0 < n - k by omega)
  have hsum := sum_eq hi hus hL₂
    (ends_of_mark (l := ⟨.mark "]", line', level'⟩) rfl (by decide) rest) (show 4 * us.length ≤ j by omega)
  refine ⟨k + 1,by omega,?_⟩
  have hnext : n - (k + 1) = j := by omega
  rw [Nat.zero_add] at hj
  simp only [List.append_assoc, List.cons_append, List.nil_append]
  rw [hprimary, hj, hnext]
  simp [trailer, hsum, expectMark]

theorem operand (h : (Construct.primary e).Parsed ts) (hs : (Construct.primary e).Starts ts) :
    (Construct.factor e).Parsed ts := by
  intro L rest n hL hr hn
  have hpos := length_pos_of_head? hs
  obtain ⟨n,rfl⟩ := Nat.exists_eq_add_of_le' (show 1 ≤ n by omega)
  obtain ⟨k,hk,hprimary⟩ := h L rest n hL (by omega)
  obtain ⟨j,hj⟩ := Nat.exists_eq_add_of_lt (show 0 < n - k by omega)
  rw [hj, Nat.zero_add, trailer_ends hr] at hprimary
  obtain ⟨⟨t,line,level⟩,L',rfl,ht⟩ := exists_head hs hL
  rw [List.cons_append] at hprimary ⊢
  cases hatom : atom n (⟨t, line, level⟩ :: (L' ++ rest)) with
  | none => simp [hatom] at hprimary
  | some r =>
    obtain ⟨e',ts'⟩ := r
    rw [hatom] at hprimary
    replace hprimary : trailer n e' ts' = some (e, rest) := hprimary
    unfold Program.factor
    split
    · rename_i heq
      cases heq
      cases ht
    · rename_i heq
      cases heq
      cases ht
    · simp only [hatom, hprimary, Option.bind_eq_bind, Option.bind_some]
      split
      · exact absurd rfl (hr _ rfl "**" (by decide))
      · rfl

theorem negate (h : (Construct.factor e).Parsed ts) : (Construct.factor (.negate e)).Parsed (.mark "-" :: ts) := by
  intro L rest n hL hr hn
  obtain ⟨line,level,L',rfl,hL'⟩ := located_cons hL
  rw [List.length_cons] at hn
  obtain ⟨n,rfl⟩ := Nat.exists_eq_add_of_le' (show 1 ≤ n by omega)
  have hfactor := h L' rest n hL' hr (by omega)
  rw [List.cons_append, Program.factor, hfactor]
  rfl

theorem keep (h : (Construct.factor e).Parsed ts) : (Construct.factor (.keep e)).Parsed (.mark "+" :: ts) := by
  intro L rest n hL hr hn
  obtain ⟨line,level,L',rfl,hL'⟩ := located_cons hL
  rw [List.length_cons] at hn
  obtain ⟨n,rfl⟩ := Nat.exists_eq_add_of_le' (show 1 ≤ n by omega)
  have hfactor := h L' rest n hL' hr (by omega)
  rw [List.cons_append, Program.factor, hfactor]
  rfl

theorem factor (h : (Construct.factor e).Parsed ts) (hts : 0 < ts.length) : (Construct.product e).Parsed ts := by
  intro L rest n hL hr hn
  obtain ⟨n,rfl⟩ := Nat.exists_eq_add_of_le' (show 1 ≤ n by omega)
  refine ⟨1,by omega,?_⟩
  rw [Program.product, h L rest n hL hr (by omega)]
  rfl

theorem times {op : Op} (h : (Construct.product a).Parsed ts) (hts : 0 < ts.length) (hm : productOp? m = some op)
    (h' : (Construct.factor b).Parsed us) : (Construct.product (.binary op a b)).Parsed (ts ++ .mark m :: us) := by
  intro L rest n hL hr hn
  obtain ⟨L₁,line,level,L₂,rfl,hL₁,hL₂⟩ := located_joined hL
  simp only [List.length_append, List.length_cons] at hn ⊢
  have hend : Ends operandMarks (⟨.mark m, line, level⟩ :: (L₂ ++ rest)) := by
    refine ends_of_mark rfl ?_ _
    rcases productOp?_eq_some hm with rfl | rfl <;> decide
  obtain ⟨k,hk,hproduct⟩ := h L₁ _ n hL₁ hend (by omega)
  obtain ⟨j,hj⟩ := Nat.exists_eq_add_of_lt (show 0 < n - k by omega)
  rw [Nat.zero_add] at hj
  refine ⟨k + 1,by omega,?_⟩
  have hnext : n - (k + 1) = j := by omega
  rw [List.append_assoc, List.cons_append, hproduct, hj, hnext, Program.productRest]
  simp only [hm, h' L₂ rest j hL₂ hr (by omega)]
  rfl

theorem product (h : (Construct.product e).Parsed ts) (hts : 0 < ts.length) : (Construct.sum e).Parsed ts := by
  intro L rest n hL hr hn
  obtain ⟨n,rfl⟩ := Nat.exists_eq_add_of_le' (show 1 ≤ n by omega)
  refine ⟨1,by omega,?_⟩
  rw [Program.sum, product_eq h hts hL hr (by omega)]
  rfl

theorem plus {op : Op} (h : (Construct.sum a).Parsed ts) (hts : 0 < ts.length) (hm : sumOp? m = some op)
    (h' : (Construct.product b).Parsed us) (hus : 0 < us.length) :
    (Construct.sum (.binary op a b)).Parsed (ts ++ .mark m :: us) := by
  intro L rest n hL hr hn
  obtain ⟨L₁,line,level,L₂,rfl,hL₁,hL₂⟩ := located_joined hL
  simp only [List.length_append, List.length_cons] at hn ⊢
  have hend : Ends productMarks (⟨.mark m, line, level⟩ :: (L₂ ++ rest)) := by
    refine ends_of_mark rfl ?_ _
    rcases sumOp?_eq_some hm with rfl | rfl <;> decide
  obtain ⟨k,hk,hsum⟩ := h L₁ _ n hL₁ hend (by omega)
  obtain ⟨j,hj⟩ := Nat.exists_eq_add_of_lt (show 0 < n - k by omega)
  rw [Nat.zero_add] at hj
  refine ⟨k + 1,by omega,?_⟩
  have hnext : n - (k + 1) = j := by omega
  rw [List.append_assoc, List.cons_append, hsum, hj, hnext, Program.sumRest]
  simp only [hm, product_eq h' hus hL₂ hr (show 4 * us.length ≤ j + 1 by omega)]
  rfl

theorem none : (Construct.items []).Parsed [] := by
  intro L rest n hL close l hl hc hn
  obtain ⟨n,rfl⟩ := Nat.exists_eq_add_of_le' (show 1 ≤ n from hn)
  cases List.map_eq_nil_iff.mp hL
  rw [List.nil_append, Program.items, expectMark_eq hl]

theorem expectMark_none {close : String} (hs : ∃ t ∈ ts.head?, startsSum t = true) (hL : L.map (·.token) = ts)
    (hc : close = ")" ∨ close = "]") (rest : List Located) : expectMark close (L ++ rest) = Option.none := by
  obtain ⟨⟨t,line,level⟩,L',rfl,ht⟩ := exists_head hs hL
  cases t with
  | mark m =>
    have hne : m ≠ close := by
      rintro rfl
      rcases hc with rfl | rfl <;> cases ht
    simp [expectMark, hne]
  | _ => rfl

theorem one (h : (Construct.sum e).Parsed ts) (hs : (Construct.sum e).Starts ts) : (Construct.items [e]).Parsed ts := by
  intro L rest n hL close l hl hc hn
  obtain ⟨n,rfl⟩ := Nat.exists_eq_add_of_le' (show 1 ≤ n by omega)
  have hend : Ends sumMarks (l :: rest) := by
    refine ends_of_mark hl ?_ rest
    rcases hc with rfl | rfl <;> decide
  have hsum := sum_eq h (length_pos_of_head? hs) hL hend (show 4 * ts.length ≤ n by omega)
  rw [Program.items, expectMark_none hs hL hc]
  simp only [hsum, Option.bind_eq_bind, Option.bind_some]
  obtain ⟨t,line,level⟩ := l
  cases hl
  rcases hc with rfl | rfl <;> simp [expectMark]

theorem more (h : (Construct.sum e).Parsed ts) (hs : (Construct.sum e).Starts ts) (h' : (Construct.items es).Parsed us) :
    (Construct.items (e :: es)).Parsed (ts ++ .mark "," :: us) := by
  intro L rest n hL close l hl hc hn
  obtain ⟨L₁,line,level,L₂,rfl,hL₁,hL₂⟩ := located_joined hL
  simp only [List.length_append, List.length_cons] at hn
  obtain ⟨n,rfl⟩ := Nat.exists_eq_add_of_le' (show 1 ≤ n by omega)
  have hend : Ends sumMarks (⟨.mark ",", line, level⟩ :: (L₂ ++ l :: rest)) :=
    ends_of_mark rfl (by decide) _
  have hsum := sum_eq h (length_pos_of_head? hs) hL₁ hend (show 4 * ts.length ≤ n by omega)
  rw [List.append_assoc, List.cons_append, Program.items, expectMark_none hs hL₁ hc]
  simp only [hsum, Option.bind_eq_bind, Option.bind_some, h' L₂ rest n hL₂ close l hl hc (by omega)]

end Construct.Parsed

end

theorem Derives.parsed {f : Construct} {ts : List Token} (h : Derives f ts) : f.Parsed ts := by
  induction h with
  | name s => exact .name s
  | int n => exact .int n
  | float x => exact .float x
  | paren h ih => exact .paren ih h.starts
  | list h ih => exact .list ih
  | part h s ih => exact .part ih s
  | call h hs ih ihs => exact .call ih ihs
  | index h hi ih ihi => exact .index ih ihi (length_pos_of_head? hi.starts)
  | operand h ih => exact .operand ih h.starts
  | negate h ih => exact .negate ih
  | keep h ih => exact .keep ih
  | factor h ih => exact .factor ih (length_pos_of_head? h.starts)
  | times h hm h' ih ih' => exact .times ih (length_pos_of_head? h.starts) hm ih'
  | product h ih => exact .product ih (length_pos_of_head? h.starts)
  | plus h hm h' ih ih' =>
    exact .plus ih (length_pos_of_head? h.starts) hm ih' (length_pos_of_head? h'.starts)
  | none => exact .none
  | one h ih => exact .one ih h.starts
  | more h hs ih ihs => exact .more ih h.starts ihs

/-- Statements and the tokens of their lines. -/
inductive Lays : List Stmt → List Token → Prop
  | nil : Lays [] []
  | assign {e ts ss us} (x : String) (h : Derives (.sum e) ts) (rest : Lays ss us) :
      Lays (.assign [x] e :: ss) (.name x :: .mark "=" :: (ts ++ .newline :: us))
  | result {e ts ss us} (h : Derives (.sum e) ts) (rest : Lays ss us) :
      Lays (.result (some e) :: ss) (.keyword "return" :: (ts ++ .newline :: us))
  | pass {ss us} (rest : Lays ss us) : Lays (.pass :: ss) (.keyword "pass" :: .newline :: us)
  | forEach {e ts s body us ss ws} (x : String) (h : Derives (.sum e) ts) (hbody : Lays (s :: body) us)
      (rest : Lays ss ws) : Lays (.forEach x e (s :: body) :: ss)
        (.keyword "for" :: .name x :: .keyword "in" ::
          (ts ++ .mark ":" :: .newline :: .indent :: (us ++ .dedent :: ws)))

section

variable {e : Expr} {ts us : List Token} {L rest : List Located} {bound n : Nat} {s : Stmt}
  {ss : List Stmt}

theorem series_eq (h : Derives (.sum e) ts) (hL : L.map (·.token) = ts) (hr : Ends ("," :: sumMarks) rest)
    (hb : 4 * ts.length ≤ bound) : series bound (L ++ rest) = some (e, rest) := by
  have hsum := sum_eq h.parsed (length_pos_of_head? h.starts) hL (hr.mono (by decide)) hb
  rw [series, hsum]
  simp only [Option.bind_eq_bind, Option.bind_some]
  split
  · exact absurd rfl (hr _ rfl "," (by decide))
  · rfl

theorem ends_of_newline {l : Located} (hl : l.token = .newline) (marks : List String) (rest : List Located) :
    Ends marks (l :: rest) := by
  intro l' hl' m hm h
  cases hl'
  rw [hl] at h
  cases h

theorem simple_assign (x : String) (h : Derives (.sum e) ts) {i j k l i' j' : Nat}
    (hL : L.map (·.token) = ts) (hb : 4 * ts.length < bound) :
    simple bound (⟨.name x, i, j⟩ :: ⟨.mark "=", k, l⟩ :: (L ++ ⟨.newline, i', j'⟩ :: rest)) =
      some (.assign [x] e, ⟨.newline, i', j'⟩ :: rest) := by
  have hts := length_pos_of_head? h.starts
  have hname : Derives (.sum (.name x)) [.name x] := .product (.factor (.operand (.name x)))
  have hfirst := series_eq (L := [⟨.name x, i, j⟩]) hname rfl
    (ends_of_mark (l := ⟨.mark "=", k, l⟩) rfl (by decide) (L ++ ⟨.newline, i', j'⟩ :: rest))
    (show 4 * 1 ≤ bound by omega)
  have hsecond := series_eq h hL (ends_of_newline (l := ⟨.newline, i', j'⟩) rfl _ rest)
    (show 4 * ts.length ≤ bound by omega)
  obtain ⟨b,rfl⟩ := Nat.exists_eq_add_of_le' (show 2 ≤ bound by omega)
  rw [List.singleton_append] at hfirst
  have hset : setting (b + 2) (b + 2) [] (.name x)
      (⟨.mark "=", k, l⟩ :: (L ++ ⟨.newline, i', j'⟩ :: rest)) =
      some (.assign [x] e, ⟨.newline, i', j'⟩ :: rest) := by
    simp [setting, hsecond]
  have hnone : updateOp? "=" = none := rfl
  simp only [simple, hfirst, Option.bind_eq_bind, Option.bind_some, hnone, hset]

theorem simple_result (h : Derives (.sum e) ts) {i j i' j' : Nat}
    (hL : L.map (·.token) = ts) (hb : 4 * ts.length < bound) :
    simple bound (⟨.keyword "return", i, j⟩ :: (L ++ ⟨.newline, i', j'⟩ :: rest)) =
      some (.result (some e), ⟨.newline, i', j'⟩ :: rest) := by
  have hseries := series_eq h hL (ends_of_newline (l := ⟨.newline, i', j'⟩) rfl _ rest)
    (show 4 * ts.length ≤ bound by omega)
  obtain ⟨⟨t,line,level⟩,L',rfl,ht⟩ := exists_head h.starts hL
  have hgo : endsSeries t = false := by
    cases t with
    | mark m =>
      simp only [startsSum, Bool.or_eq_true, beq_iff_eq] at ht
      rcases ht with ((rfl | rfl) | rfl) | rfl <;> rfl
    | newline => cases ht
    | _ => rfl
  rw [List.cons_append] at hseries ⊢
  simp [simple, hgo, hseries]

theorem simpleLine_eq {T : List Located} {i j : Nat}
    (h : simple bound T = some (s, ⟨.newline, i, j⟩ :: rest)) :
    simpleLine bound (n + 1) T = some ([s], rest) := by
  simp [simpleLine, h]

theorem statement_eq {l : Located} {T : List Located} (hl : l.token ≠ .keyword "for") :
    statement bound (n + 1) (l :: T) = simpleLine bound bound (l :: T) := by
  obtain ⟨t,i,j⟩ := l
  unfold statement
  split
  · rename_i heq
    cases heq
    exact absurd rfl hl
  · rfl

theorem statements_cons {l : Located} {T : List Located} (hl : l.token ≠ .dedent) :
    statements bound (n + 1) (l :: T) = (statement bound n (l :: T)).bind fun r =>
      (statements bound n r.2).bind fun q => some (r.1 ++ q.1, q.2) := by
  obtain ⟨t,i,j⟩ := l
  conv => lhs; unfold statements
  split
  · rename_i heq
    cases heq
    exact absurd rfl hl
  · rfl

theorem Lays.head (h : Lays (s :: ss) ts) : ∃ t ∈ ts.head?, t ≠ .dedent := by
  cases h <;> exact ⟨_,rfl,Token.noConfusion⟩

/-- A block on lines of its own holds the statements up to its end. -/
theorem block_eq (h : Lays (s :: ss) ts) (hL : L.map (·.token) = ts) (i j k l : Nat) :
    block bound (n + 1) (⟨.newline, i, j⟩ :: ⟨.indent, k, l⟩ :: (L ++ rest)) =
      statements bound (n + 1) (L ++ rest) := by
  obtain ⟨t,ht,hne⟩ := h.head
  cases L with
  | nil =>
    cases hL
    cases ht
  | cons l L =>
    cases hL
    cases ht
    rw [List.cons_append, statements_cons hne, block]
    rfl

theorem statements_line {T : List Located} {l : Located} {ss' : List Stmt} {T' : List Located} {i j : Nat}
    (hl : l.token ≠ .keyword "for") (hd : l.token ≠ .dedent)
    (h : simple (bound + 1) (l :: T) = some (s, ⟨.newline, i, j⟩ :: T'))
    (hs : statements (bound + 1) (n + 1) T' = some (ss', rest)) :
    statements (bound + 1) (n + 2) (l :: T) = some (s :: ss', rest) := by
  rw [statements_cons hd, statement_eq hl, simpleLine_eq h, Option.bind_some, hs]
  rfl

theorem Lays.statements_eq (h : Lays ss ts) {L rest : List Located} {n i j : Nat}
    (hL : L.map (·.token) = ts) (hn : ts.length < n) (hb : 4 * ts.length < bound) :
    statements bound n (L ++ ⟨.dedent, i, j⟩ :: rest) = some (ss, rest) := by
  induction h generalizing L rest n i j with
  | nil =>
    obtain ⟨n,rfl⟩ := Nat.exists_eq_add_of_le' (show 1 ≤ n from hn)
    cases List.map_eq_nil_iff.mp hL
    rfl
  | @assign e ts ss us x h rest' ih =>
    obtain ⟨i₁,j₁,L₁,rfl,hL₁⟩ := located_cons hL
    obtain ⟨i₂,j₂,L₂,rfl,hL₂⟩ := located_cons hL₁
    obtain ⟨L₃,i₃,j₃,L₄,rfl,hL₃,hL₄⟩ := located_joined hL₂
    simp only [List.length_cons, List.length_append] at hn hb
    obtain ⟨n,rfl⟩ := Nat.exists_eq_add_of_le' (show 2 ≤ n by omega)
    obtain ⟨b,rfl⟩ := Nat.exists_eq_add_of_le' (show 1 ≤ bound by omega)
    simp only [List.cons_append, List.append_assoc]
    exact statements_line Token.noConfusion Token.noConfusion
      (simple_assign x h hL₃ (by omega)) (ih hL₄ (by omega) (by omega))
  | @result e ts ss us h rest' ih =>
    obtain ⟨i₁,j₁,L₁,rfl,hL₁⟩ := located_cons hL
    obtain ⟨L₃,i₃,j₃,L₄,rfl,hL₃,hL₄⟩ := located_joined hL₁
    simp only [List.length_cons, List.length_append] at hn hb
    obtain ⟨n,rfl⟩ := Nat.exists_eq_add_of_le' (show 2 ≤ n by omega)
    obtain ⟨b,rfl⟩ := Nat.exists_eq_add_of_le' (show 1 ≤ bound by omega)
    simp only [List.cons_append, List.append_assoc]
    exact statements_line (by simp) Token.noConfusion
      (simple_result h hL₃ (by omega)) (ih hL₄ (by omega) (by omega))
  | @pass ss us rest' ih =>
    obtain ⟨i₁,j₁,L₁,rfl,hL₁⟩ := located_cons hL
    obtain ⟨i₂,j₂,L₂,rfl,hL₂⟩ := located_cons hL₁
    simp only [List.length_cons] at hn hb
    obtain ⟨n,rfl⟩ := Nat.exists_eq_add_of_le' (show 2 ≤ n by omega)
    obtain ⟨b,rfl⟩ := Nat.exists_eq_add_of_le' (show 1 ≤ bound by omega)
    exact statements_line (by simp) Token.noConfusion rfl (ih hL₂ (by omega) (by omega))
  | @forEach e ts s body us ss ws x h hbody rest' ihb ih =>
    obtain ⟨i₁,j₁,L₁,rfl,hL₁⟩ := located_cons hL
    obtain ⟨i₂,j₂,L₂,rfl,hL₂⟩ := located_cons hL₁
    obtain ⟨i₃,j₃,L₃,rfl,hL₃⟩ := located_cons hL₂
    obtain ⟨L₄,i₄,j₄,L₅,rfl,hL₄,hL₅⟩ := located_joined hL₃
    obtain ⟨i₅,j₅,L₆,rfl,hL₆⟩ := located_cons hL₅
    obtain ⟨i₆,j₆,L₇,rfl,hL₇⟩ := located_cons hL₆
    obtain ⟨L₈,i₈,j₈,L₉,rfl,hL₈,hL₉⟩ := located_joined hL₇
    simp only [List.length_cons, List.length_append] at hn hb
    obtain ⟨n,rfl⟩ := Nat.exists_eq_add_of_le' (show 3 ≤ n by omega)
    obtain ⟨b,rfl⟩ := Nat.exists_eq_add_of_le' (show 1 ≤ bound by omega)
    have hseries := series_eq h hL₄ (ends_of_mark (l := ⟨.mark ":", i₄, j₄⟩) rfl (by decide)
      (⟨.newline, i₅, j₅⟩ :: ⟨.indent, i₆, j₆⟩ :: (L₈ ++ ⟨.dedent, i₈, j₈⟩ :: (L₉ ++ ⟨.dedent, i, j⟩ :: rest))))
      (show 4 * ts.length ≤ b + 1 by omega)
    have hblock : block (b + 1) (n + 1) (⟨.newline, i₅, j₅⟩ :: ⟨.indent, i₆, j₆⟩ ::
        (L₈ ++ ⟨.dedent, i₈, j₈⟩ :: (L₉ ++ ⟨.dedent, i, j⟩ :: rest))) =
        some (s :: body, L₉ ++ ⟨.dedent, i, j⟩ :: rest) := by
      rw [block_eq hbody hL₈]
      exact ihb hL₈ (by omega) (by omega)
    have hrest : statements (b + 1) (n + 2) (L₉ ++ ⟨.dedent, i, j⟩ :: rest) = some (ss, rest) :=
      ih hL₉ (by omega) (by omega)
    simp only [List.cons_append, List.append_assoc]
    rw [statements_cons Token.noConfusion]
    simp [statement, expectName, expectKeyword, hseries, expectMark, hblock, hrest]

theorem expectMark_cons (m : String) (i j : Nat) (L : List Located) :
    expectMark m (⟨.mark m, i, j⟩ :: L) = some ((), L) := expectMark_eq rfl

theorem expectKeyword_cons (k : String) (i j : Nat) (L : List Located) :
    expectKeyword k (⟨.keyword k, i, j⟩ :: L) = some ((), L) := by simp [expectKeyword]

theorem expectName_cons (n : String) (i j : Nat) (L : List Located) :
    expectName (⟨.name n, i, j⟩ :: L) = some (n, L) := rfl

/-- The tokens of a function's header up to its body. -/
def headerTokens (f a b : String) : List Token :=
  [.keyword "def", .name f, .mark "(", .name a, .mark ",", .name b, .mark ")", .mark ":", .newline, .indent]

/-- A function is parsed from the tokens of its header and of its body. -/
theorem parse?_eq (h : Lays (s :: ss) ts) {f a b : String}
    (hL : L.map (·.token) = headerTokens f a b ++ (ts ++ [.dedent, .stop])) :
    parse? L = some ⟨f, a, b, s :: ss⟩ := by
  obtain ⟨H,R,rfl,hH,hR⟩ := List.map_eq_append_iff.mp hL
  obtain ⟨L,i,j,R',rfl,hL',hR'⟩ := located_joined hR
  obtain ⟨i',j',rfl⟩ := located_single hR'
  obtain ⟨i₀,j₀,H₀,rfl,h₀⟩ := located_cons hH
  obtain ⟨i₁,j₁,H₁,rfl,h₁⟩ := located_cons h₀
  obtain ⟨i₂,j₂,H₂,rfl,h₂⟩ := located_cons h₁
  obtain ⟨i₃,j₃,H₃,rfl,h₃⟩ := located_cons h₂
  obtain ⟨i₄,j₄,H₄,rfl,h₄⟩ := located_cons h₃
  obtain ⟨i₅,j₅,H₅,rfl,h₅⟩ := located_cons h₄
  obtain ⟨i₆,j₆,H₆,rfl,h₆⟩ := located_cons h₅
  obtain ⟨i₇,j₇,H₇,rfl,h₇⟩ := located_cons h₆
  obtain ⟨i₈,j₈,H₈,rfl,h₈⟩ := located_cons h₇
  obtain ⟨i₉,j₉,rfl⟩ := located_single h₈
  have hlength : ts.length = L.length := by rw [← hL', List.length_map]
  rw [parse?]
  generalize hbound : 8 * _ = bound
  simp only [List.length_cons, List.length_append, List.length_nil] at hbound
  obtain ⟨b,rfl⟩ := Nat.exists_eq_add_of_le' (show 1 ≤ bound by omega)
  have hblock : block (b + 1) (b + 1) (⟨.newline, i₈, j₈⟩ :: ⟨.indent, i₉, j₉⟩ ::
      (L ++ [⟨.dedent, i, j⟩, ⟨.stop, i', j'⟩])) = some (s :: ss, [⟨.stop, i', j'⟩]) := by
    rw [block_eq h hL']
    exact h.statements_eq hL' (by omega) (by omega)
  simp only [function, List.cons_append, List.nil_append, expectKeyword_cons, expectName_cons, expectMark_cons,
    Option.bind_eq_bind, Option.bind_some, hblock]

end

end FitCode.Program
