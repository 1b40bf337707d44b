import FitCode.Proofs.Decimal.Written
import FitCode.Proofs.Program.Parsing
import FitCode.Proofs.Program.Scanning

/-! # Texts that spell expressions

A text spells an expression if it is read as tokens from which the grammar derives the expression. The
rules of the grammar become rules on texts, with blanks where they may stand.
-/
namespace FitCode.Program

open FitCode.Numeric FitCode.Text Scan

/-- A text that is read as a form wherever it stands, with at most `d` brackets open at a time. -/
def Spells (d : Nat) (cs : List Char) (f : Construct) : Prop := ∃ ts, Phrase d cs ts ∧ Derives f ts

namespace Spells

variable {d d' : Nat} {cs cs' : List Char} {f : Construct} {e a b i : Expr} {es : List Expr} {k : Nat}

theorem mono (h : Spells d cs f) (hd : d ≤ d') : Spells d' cs f := by
  obtain ⟨ts,hp,hg⟩ := h
  exact ⟨ts,hp.mono hd,hg⟩

theorem blank (h : Spells d cs f) : Spells d (' ' :: cs) f := by
  obtain ⟨ts,hp,hg⟩ := h
  exact ⟨ts,hp.blank,hg⟩

theorem word {w : List Char} (hw : IsWord w) (hk : keywords.contains (String.ofList w) = false) :
    Spells 0 w (.primary (.name (String.ofList w))) := by
  refine ⟨_,Phrase.word hw,?_⟩
  simp only [wordToken, hk, Bool.false_eq_true, if_false]
  exact .name _

theorem int {m : Numeral} {n : Nat} (hm : m.Valid) (ht : m.token? = some (.int n)) :
    Spells 0 m.chars (.primary (.int n)) :=
  ⟨_,Phrase.numeral hm ht,.int n⟩

theorem nat {n : Nat} (hn : n < 10 ^ Decimal.maxDigits) :
    Spells 0 (toString n).toList (.primary (.int n)) := by
  rw [← Numeral.chars_ofNat]
  exact int (Numeral.valid_ofNat n) (Numeral.token_ofNat hn)

theorem float {m : Numeral} (hm : m.Valid) {x : Float} (ht : m.token? = some (.float x)) :
    Spells 0 m.chars (.primary (.float x)) :=
  ⟨_,Phrase.numeral hm ht,.float x⟩

theorem part {w : List Char} (hw : IsWord w) (hk : keywords.contains (String.ofList w) = false) :
    Spells 0 ('n' :: 'p' :: '.' :: w) (.primary (.attribute (.name "np") (String.ofList w))) := by
  refine ⟨_,Phrase.part hw,?_⟩
  simp only [wordToken, hk, Bool.false_eq_true, if_false]
  exact .part (.name "np") _

theorem operand (h : Spells d cs (.primary e)) : Spells d cs (.factor e) := by
  obtain ⟨ts,hp,hg⟩ := h
  exact ⟨ts,hp,.operand hg⟩

theorem factor (h : Spells d cs (.factor e)) : Spells d cs (.product e) := by
  obtain ⟨ts,hp,hg⟩ := h
  exact ⟨ts,hp,.factor hg⟩

theorem product (h : Spells d cs (.product e)) : Spells d cs (.sum e) := by
  obtain ⟨ts,hp,hg⟩ := h
  exact ⟨ts,hp,.product hg⟩

theorem one (h : Spells d cs (.sum e)) : Spells d cs (.items [e]) := by
  obtain ⟨ts,hp,hg⟩ := h
  exact ⟨ts,hp,.one hg⟩

theorem paren (h : Spells d cs (.sum e)) (k : Nat) :
    Spells (d + 1) ('(' :: (cs ++ (List.replicate k ' ' ++ [')']))) (.primary e) := by
  obtain ⟨ts,hp,hg⟩ := h
  exact ⟨_,hp.bracketed (by decide) k,.paren hg⟩

theorem list (h : Spells d cs (.items es)) :
    Spells (d + 1) ('[' :: (cs ++ [']'])) (.primary (.list es)) := by
  obtain ⟨ts,hp,hg⟩ := h
  exact ⟨_,hp.bracketed (o := '[') (by decide) 0,.list hg⟩

theorem call (h : Spells (d + 1) cs (.primary a)) (hs : Spells d cs' (.items es)) (k : Nat) :
    Spells (d + 1) (cs ++ '(' :: (cs' ++ (List.replicate k ' ' ++ [')']))) (.primary (.call a es)) := by
  obtain ⟨ts,hp,hg⟩ := h
  obtain ⟨us,hp',hg'⟩ := hs
  exact ⟨_,hp.append (hp'.bracketed (by decide) k) ⟨'(',rfl,by decide⟩,.call hg hg'⟩

theorem index (h : Spells (d + 1) cs (.primary e)) (hi : Spells d cs' (.sum i)) :
    Spells (d + 1) (cs ++ '[' :: (cs' ++ [']'])) (.primary (.index e i)) := by
  obtain ⟨ts,hp,hg⟩ := h
  obtain ⟨us,hp',hg'⟩ := hi
  exact ⟨_,hp.append (hp'.bracketed (o := '[') (by decide) 0) ⟨'[',rfl,by decide⟩,.index hg hg'⟩

theorem negate (h : Spells d cs (.factor e)) : Spells d ('-' :: cs) (.factor (.negate e)) := by
  obtain ⟨ts,hp,hg⟩ := h
  exact ⟨_,hp.sign (by decide),.negate hg⟩

theorem keep (h : Spells d cs (.factor e)) : Spells d ('+' :: cs) (.factor (.keep e)) := by
  obtain ⟨ts,hp,hg⟩ := h
  exact ⟨_,hp.sign (by decide),.keep hg⟩

theorem times {c : Char} {op : Op} (hc : productOp? (String.ofList [c]) = some op)
    (h : Spells d cs (.product a)) (k : Nat) (h' : Spells d cs' (.factor b)) :
    Spells d (cs ++ (List.replicate k ' ' ++ c :: cs')) (.product (.binary op a b)) := by
  obtain ⟨ts,hp,hg⟩ := h
  obtain ⟨us,hp',hg'⟩ := h'
  have hmem : c ∈ ['+', '-', '*', '/', ',', '='] := by
    rcases productOp?_eq_some hc with h | h <;> cases String.ofList_injective h <;> decide
  exact ⟨_,hp.joined hmem k hp',.times hg hc hg'⟩

theorem plus {c : Char} {op : Op} (hc : sumOp? (String.ofList [c]) = some op)
    (h : Spells d cs (.sum a)) (k : Nat) (h' : Spells d cs' (.product b)) :
    Spells d (cs ++ (List.replicate k ' ' ++ c :: cs')) (.sum (.binary op a b)) := by
  obtain ⟨ts,hp,hg⟩ := h
  obtain ⟨us,hp',hg'⟩ := h'
  have hmem : c ∈ ['+', '-', '*', '/', ',', '='] := by
    rcases sumOp?_eq_some hc with h | h <;> cases String.ofList_injective h <;> decide
  exact ⟨_,hp.joined hmem k hp',.plus hg hc hg'⟩

theorem more (h : Spells d cs (.sum e)) (hs : Spells d cs' (.items es)) :
    Spells d (cs ++ ',' :: cs') (.items (e :: es)) := by
  obtain ⟨ts,hp,hg⟩ := h
  obtain ⟨us,hp',hg'⟩ := hs
  exact ⟨_,hp.joined (by decide) 0 hp',.more hg hg'⟩

end Spells

end FitCode.Program
