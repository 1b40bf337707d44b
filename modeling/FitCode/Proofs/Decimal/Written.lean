import FitCode.Decimal.Shortest
import FitCode.Proofs.Program.Numerals

/-! # The texts of numbers are numerals

The shortest text of a finite number is a numeral with a fraction or an exponent, behind a sign if the
number is negative. So code reads it as a number that is not whole.
-/
namespace FitCode.Decimal

open Text Program

/-- A numeral that is not read as a whole number. -/
structure Broken (m : Numeral) : Prop where
  valid : m.Valid
  float : m.token? = some (.float m.float)

theorem broken_of_fraction {m : Numeral} (hm : m.Valid) (h : m.fraction.isSome = true) : Broken m :=
  ⟨hm,by simp [Numeral.token?, h]⟩

theorem broken_of_exponent {m : Numeral} (hm : m.Valid) (h : m.exponent.isSome = true) : Broken m :=
  ⟨hm,by simp [Numeral.token?, h]⟩

theorem isDigit_replicate {n : Nat} {c : Char} (h : c ∈ List.replicate n '0') : isDigit c = true := by
  rw [List.eq_of_mem_replicate h]
  decide

theorem exists_positional {ds : List Char} (hds : ∀ c ∈ ds, isDigit c = true) (point : Int) :
    ∃ m, Broken m ∧ positional ds point = m.chars := by
  by_cases hp : point ≤ 0
  · refine ⟨⟨['0'],some (List.replicate (-point).toNat '0' ++ ds),none⟩,
      broken_of_fraction ⟨by simp; decide,by simp,?_,by simp,by simp⟩ rfl,?_⟩
    · simp only [Option.mem_def, Option.some.injEq]
      rintro _ rfl c hc
      rcases List.mem_append.mp hc with hc | hc
      · exact isDigit_replicate hc
      · exact hds c hc
    · simp [positional, hp, Numeral.chars]
  · by_cases hlen : ds.length ≤ point.toNat
    · refine ⟨⟨ds ++ List.replicate (point.toNat - ds.length) '0',some ['0'],none⟩,
        broken_of_fraction ⟨fun c hc => ?_,?_,by simp; decide,by simp,by simp⟩ rfl,?_⟩
      · rcases List.mem_append.mp hc with hc | hc
        · exact hds c hc
        · exact isDigit_replicate hc
      · intro hnil
        have hl := congrArg List.length hnil
        rw [List.length_append, List.length_replicate, List.length_nil] at hl
        omega
      · simp [positional, hp, hlen, Numeral.chars]
    · refine ⟨⟨ds.take point.toNat,some (ds.drop point.toNat),none⟩,
        broken_of_fraction ⟨fun c hc => hds c (List.mem_of_mem_take hc),?_,?_,by simp,by simp⟩ rfl,?_⟩
      · intro hnil
        have hl := congrArg List.length hnil
        rw [List.length_take, List.length_nil] at hl
        omega
      · simp only [Option.mem_def, Option.some.injEq]
        rintro _ rfl c hc
        exact hds c (List.mem_of_mem_drop hc)
      · simp [positional, hp, hlen, Numeral.chars]

/-- The sign and the digits of a written exponent. -/
def exponentParts (e : Int) : List Char × List Char :=
  ([if e < 0 then '-' else '+'],
    List.replicate (2 - (digitsOf e.natAbs).length) '0' ++ digitsOf e.natAbs)

theorem exponentText_eq (e : Int) : exponentText e = Numeral.exponentChars (exponentParts e) := by
  simp [exponentText, Numeral.exponentChars, exponentParts]

theorem isDigit_digitsOf {n : Nat} {c : Char} (h : c ∈ digitsOf n) : isDigit c = true := isDigit_toDigits h

theorem valid_exponent {whole : List Char} {fraction : Option (List Char)} (e : Int)
    (hw : ∀ c ∈ whole, isDigit c = true) (hne : whole ≠ [])
    (hf : ∀ ds ∈ fraction, ∀ c ∈ ds, isDigit c = true) :
    Numeral.Valid ⟨whole, fraction, some (exponentParts e)⟩ where
  whole := hw
  nonempty := hne
  fraction := hf
  signs := by
    simp only [Option.mem_def, Option.some.injEq]
    rintro _ rfl
    by_cases he : e < 0
    · simp [exponentParts, he]
    · simp [exponentParts, he]
  powers := by
    simp only [Option.mem_def, Option.some.injEq]
    rintro _ rfl
    refine ⟨?_,fun c hc => ?_⟩
    · simp [exponentParts, digitsOf]
    · rcases List.mem_append.mp hc with hc | hc
      · exact isDigit_replicate hc
      · exact isDigit_digitsOf hc

theorem exists_digit {n : Nat} (hn : 0 < n) : ∃ c ∈ digitsOf n, c ≠ '0' := by
  have hhead := head_toDigits hn
  cases hd : digitsOf n with
  | nil => exact absurd hd Nat.toDigits_ne_nil
  | cons c cs =>
    refine ⟨c,by simp,?_⟩
    rintro rfl
    rw [← digitsOf, hd] at hhead
    exact hhead rfl

/-- A decimal other than zero, or one that is written without exponent, is a numeral. -/
theorem exists_writeShortest {d : Scaled}
    (h : 0 < d.digits ∨ -4 < ((digitsOf d.digits).length : Int) + d.exponent ∧
      ((digitsOf d.digits).length : Int) + d.exponent ≤ 16) :
    ∃ m, Broken m ∧ writeShortest d = m.chars := by
  have hdrop : ∀ c ∈ ((digitsOf d.digits).reverse.dropWhile (· == '0')).reverse, isDigit c = true := by
    intro c hc
    have hc := (List.dropWhile_sublist _).subset (List.mem_reverse.mp hc)
    exact isDigit_digitsOf (List.mem_reverse.mp hc)
  rw [writeShortest]
  generalize hds : ((digitsOf d.digits).reverse.dropWhile (· == '0')).reverse = ds at hdrop ⊢
  dsimp only
  split
  · exact exists_positional hdrop _
  · rename_i hrange
    have hpos : 0 < d.digits := by
      rcases h with h | h
      · exact h
      · exact absurd (by simpa using h) hrange
    have hne : ds ≠ [] := by
      obtain ⟨c,hc,hzero⟩ := exists_digit hpos
      rintro rfl
      rw [List.reverse_eq_nil_iff, List.dropWhile_eq_nil_iff] at hds
      exact hzero (by simpa using hds c (List.mem_reverse.mpr hc))
    rw [exponentText_eq]
    generalize ((digitsOf d.digits).length : Int) + d.exponent - 1 = e
    split
    · rename_i a b cs
      refine ⟨⟨[a],some (b :: cs),some (exponentParts e)⟩,broken_of_exponent (valid_exponent _ ?_ (by simp) ?_) rfl,?_⟩
      · simpa using hdrop a (by simp)
      · simp only [Option.mem_def, Option.some.injEq]
        rintro _ rfl c hc
        exact hdrop c (by simp [hc])
      · rfl
    · exact ⟨⟨ds,none,some _⟩,broken_of_exponent (valid_exponent _ hdrop hne (by simp)) rfl,rfl⟩

theorem numerator_scaleTwo_pos {n d : Nat} (k : Int) (hn : 0 < n) : 0 < (scaleTwo n d k).1 := by
  rw [scaleTwo]
  split
  · exact Nat.mul_pos hn (Nat.pow_pos (by decide))
  · exact hn

theorem numerator_scaleTen_pos {n d : Nat} (k : Int) (hn : 0 < n) : 0 < (scaleTen n d k).1 := by
  rw [scaleTen]
  split
  · exact Nat.mul_pos hn (Nat.pow_pos (by decide))
  · exact hn

theorem pos_of_mem {i : Interval} {c d n : Nat} (hi : 0 < i.low) (hn : 0 < n)
    (h : i.mem (c * d) n = true) : 0 < c := by
  have hlow : 0 < i.low * n := Nat.mul_pos hi hn
  rcases Nat.eq_zero_or_pos c with rfl | hc
  · rw [Interval.mem] at h
    split at h
    · simp at h
      omega
    · simp at h
  · exact hc

namespace BinaryFormat

variable {f : BinaryFormat} {m : Nat} {q : Int}

theorem low_pos (hm : 0 < m) : 0 < (f.interval m q).low := by
  simp only [interval]
  split <;> omega

theorem best_pos {i : Interval} (hi : 0 < i.low) {unit e : Int} {k : Nat} {d : Scaled}
    (h : best? i unit e k = some d) : 0 < d.digits := by
  have hn : 0 < (scaleTen (scaleTwo 1 1 unit).1 (scaleTwo 1 1 unit).2 (-(e - k))).1 :=
    numerator_scaleTen_pos _ (numerator_scaleTwo_pos unit (by decide))
  simp only [best?] at h
  generalize (scaleTen (scaleTwo 1 1 unit).1 (scaleTwo 1 1 unit).2 (-(e - k))).1 = n at h hn
  generalize (scaleTen (scaleTwo 1 1 unit).1 (scaleTwo 1 1 unit).2 (-(e - k))).2 = d' at h
  generalize i.mid * n / d' = below at h
  split at h
  · rename_i hfits
    have hb := pos_of_mem hi hn (Bool.and_eq_true_iff.mp hfits).1
    cases h
    dsimp only
    split
    · exact hb
    · split <;> omega
  · split at h
    · rename_i hfits
      cases h
      exact pos_of_mem hi hn hfits
    · split at h
      · cases h
        exact Nat.succ_pos _
      · cases h

theorem shortest_pos (hm : 0 < m) : 0 < (f.shortest m q).digits := by
  simp only [shortest]
  generalize floorLogTen (scaleTwo m 1 q).1 (scaleTwo m 1 q).2 = e
  cases h : (List.range 17).findSome? (best? (f.interval m q) (q - 2) e) with
  | none => exact hm
  | some d =>
    obtain ⟨k,_,hk⟩ := List.exists_of_findSome?_eq_some h
    exact best_pos (low_pos hm) hk

theorem shortest_zero : f.shortest 0 q = ⟨0, -1⟩ := by
  have hscale : (scaleTwo 0 1 q).1 = 0 ∧ 0 < (scaleTwo 0 1 q).2 := by
    rw [scaleTwo]
    split
    · exact ⟨Nat.zero_mul _,Nat.one_pos⟩
    · exact ⟨rfl,Nat.mul_pos (by decide) (Nat.pow_pos (by decide))⟩
  have hlog : floorLogTen (scaleTwo 0 1 q).1 (scaleTwo 0 1 q).2 = -1 := by
    have hlt : ¬ (scaleTwo 0 1 q).2 ≤ 0 := Nat.not_le.mpr hscale.2
    have hone : (digitsOf 0).length = 1 := by decide
    simp [floorLogTen, hscale.1, hlt, hone]
  have hmem : ∀ n, (f.interval 0 q).mem 0 n = true := by
    intro n
    simp [Interval.mem, interval]
  have hbest : best? (f.interval 0 q) (q - 2) (-1) 0 = some ⟨0, -1⟩ := by
    have hmid : (f.interval 0 q).mid = 0 := rfl
    simp [best?, hmid, hmem]
  have hfirst : (List.range 17).findSome? (best? (f.interval 0 q) (q - 2) (-1)) = some ⟨0, -1⟩ := by
    rw [List.range_eq_range', List.range'_succ, List.findSome?_cons, hbest]
  simp only [shortest, hlog, hfirst, Option.getD_some]

end BinaryFormat

theorem exists_shortText {x : Float} {negative : Bool} {m : Nat} {q : Int}
    (hx : read x = .finite negative m q) :
    ∃ N, Broken N ∧ (shortText x).toList = signText negative N.chars := by
  rw [shortText, BinaryFormat.text, hx, String.toList_ofList]
  dsimp only
  split
  · exact ⟨⟨['0'],some ['0'],none⟩,
      broken_of_fraction ⟨by simp; decide,by simp,by simp; decide,by simp,by simp⟩ rfl,rfl⟩
  · generalize (double.nearest (scaleTwo m 1 q).1 (scaleTwo m 1 q).2).getD (m, q) = r
    obtain ⟨m',q'⟩ := r
    obtain ⟨N,hN,hchars⟩ : ∃ N, Broken N ∧ writeShortest (double.shortest m' q') = N.chars := by
      refine exists_writeShortest ?_
      rcases Nat.eq_zero_or_pos m' with rfl | hpos
      · right
        rw [BinaryFormat.shortest_zero]
        decide
      · exact .inl (BinaryFormat.shortest_pos hpos)
    exact ⟨N,hN,by rw [hchars]⟩

end FitCode.Decimal
