import FitCode.Options
import Mathlib.Data.List.Basic

/-! # Options that pass their checks

What the checks of the options guarantee: every name is that of a variable, the three stems differ
and a block is indented.
-/
namespace FitCode

open Text

/-- Options that pass their checks. -/
structure Options.Valid (o : Options) : Prop where
  indent : ∀ n, o.indentSize? = some n → 1 ≤ n
  names : ∀ e ∈ o.variableNames, isVariable e.2 = true
  stems : o.stemsDiffer = true

namespace Options

theorem nameOf_ok {field s : String} {d : Datum} (h : nameOf field d = .ok s) :
    isVariable s = true := by
  cases d with
  | text t =>
    rw [nameOf] at h
    split at h
    · cases h
      assumption
    · cases h
  | _ => cases h

theorem indentOf_ok {o : Options} {d : Datum} (h : indentOf d = .ok o.indent) (n : Int)
    (hn : o.indentSize? = some n) : 1 ≤ n := by
  have hd : o.indent = d := by
    rw [indentOf] at h
    split at h
    · split at h
      · cases h
      · exact (Except.ok.inj h).symm
    · split at h
      · cases h
      · exact (Except.ok.inj h).symm
    · cases h
  have hsmall : ∀ m, d.number? = some (.inl m) → 1 ≤ m := by
    intro m hm
    rw [indentOf, hm] at h
    simp only at h
    split at h
    · cases h
    · omega
  rw [indentSize?, hd] at hn
  split at hn
  all_goals cases hn
  all_goals exact hsmall _ rfl

theorem valid_of_ofFields {given : List (String × Datum)} {machine : Machine} {o : Options}
    (h : ofFields given machine = .ok o) : o.Valid := by
  simp only [ofFields] at h
  split at h
  · cases h
  simp only [bind, Except.bind] at h
  split at h
  · cases h
  rename_i n hn
  split at h
  · cases h
  rename_i temp htemp
  split at h
  · cases h
  rename_i loop hloop
  split at h
  · cases h
  rename_i array harray
  split at h
  · cases h
  rename_i obs hobs
  split at h
  · cases h
  rename_i params hparams
  split at h
  · cases h
  rename_i function hfunction
  split at h
  · rename_i hstems
    cases h
    refine ⟨indentOf_ok hn,?_,hstems⟩
    simp only [variableNames, List.forall_mem_cons]
    exact ⟨nameOf_ok htemp,nameOf_ok hloop,nameOf_ok harray,nameOf_ok hobs,nameOf_ok hparams,
      nameOf_ok hfunction,by simp⟩
  · cases h

end Options

theorem Text.newline_not_mem_of_isIdentifier {text : String} (h : isIdentifier text = true) :
    '\n' ∉ text.toList := by
  rw [isIdentifier] at h
  split at h
  · cases h
  · rename_i c cs heq
    simp only [Bool.and_eq_true, List.all_eq_true] at h
    rw [heq]
    intro hm
    rcases List.mem_cons.mp hm with rfl | hm
    · exact absurd h.1 (by decide)
    · exact absurd (h.2 _ hm) (by decide)

theorem Options.Valid.isIdentifier {o : Options} (h : o.Valid) :
    ∀ e ∈ o.variableNames, Text.isIdentifier e.2 = true := by
  intro e he
  have hv := h.names e he
  simp only [isVariable, Bool.and_eq_true] at hv
  exact hv.1

end FitCode
