import FitCode.Program.Load
import FitCode.Proofs.Program.Spelling

/-! # Reading whole functions

A passage is a run of lines at one margin, the statements they spell and their tokens. A function whose
body is a passage is parsed as the function with these statements.
-/
namespace FitCode.Program

open FitCode.Text Scan

variable {B : List Margin} {ls ls' : List SourceLine} {ss ss' : List Stmt} {ts us ws : List Token} {m k : Nat}
  {cs : List Char} {s : Stmt}

/-- Lines in front of others in a block, and statements in front of others. -/
structure Passage (B : List Margin) (ls : List SourceLine) (ss : List Stmt) (ts : List Token) : Prop where
  laid : ∀ ls' us, Laid B ls' us → Laid B (ls ++ ls') (ts ++ us)
  lays : ∀ ss' us, Lays ss' us → Lays (ss ++ ss') (ts ++ us)

namespace Passage

theorem nil : Passage B [] [] [] := ⟨fun _ _ h => h,fun _ _ h => h⟩

theorem append (h : Passage B ls ss ts) (h' : Passage B ls' ss' us) :
    Passage B (ls ++ ls') (ss ++ ss') (ts ++ us) where
  laid := fun ls₁ us₁ h₁ => by
    rw [List.append_assoc, List.append_assoc]
    exact h.laid _ _ (h'.laid _ _ h₁)
  lays := fun ss₁ us₁ h₁ => by
    rw [List.append_assoc, List.append_assoc]
    exact h.lays _ _ (h'.lays _ _ h₁)

theorem line (hB : B.headD (0, 0) = (m, m)) (hl : LineText cs ws)
    (hs : ∀ ss us, Lays ss us → Lays (s :: ss) (ws ++ .newline :: us)) :
    Passage B [⟨m, cs⟩] [s] (ws ++ [.newline]) where
  laid := fun ls us h => by
    have hcons := Laid.cons (.stay hB) hl h
    simpa using hcons
  lays := fun ss us h => by
    have hcons := hs ss us h
    simpa using hcons

end Passage

/-- A line at the margin of the innermost block changes no block. -/
theorem Laid.cons_inv (h : Laid B (⟨m, cs⟩ :: ls) us) (hB : B.headD (0, 0) = (m, m)) :
    ∃ ws ts, us = ws ++ .newline :: ts ∧ LineText cs ws ∧ Laid B ls ts := by
  cases h with
  | @cons _ _ _ change _ ws _ ts hc hl hrest =>
    cases hc with
    | stay h => exact ⟨ws,ts,rfl,hl,hrest⟩
    | @deepen _ _ k h hk hb =>
      rw [hB] at h
      cases h
      exact absurd hk (Nat.lt_irrefl _)
    | @close _ _ k h hk =>
      cases hB
      exact absurd hk (Nat.lt_irrefl _)

theorem Laid.deepen (h : Laid ((m, m) :: B) (⟨m, cs⟩ :: ls) us) (hB : B.headD (0, 0) = (k, k)) (hk : k < m)
    (hb : B.length + 1 < maxBlocks) : Laid B (⟨m, cs⟩ :: ls) (.indent :: us) := by
  obtain ⟨ws,ts,rfl,hl,hrest⟩ := h.cons_inv rfl
  exact .cons (.deepen hB hk hb) hl hrest

theorem Laid.close (h : Laid B (⟨m, cs⟩ :: ls) us) (hB : B.headD (0, 0) = (m, m)) (hk : m < k) :
    Laid ((k, k) :: B) (⟨m, cs⟩ :: ls) (.dedent :: us) := by
  obtain ⟨ws,ts,rfl,hl,hrest⟩ := h.cons_inv hB
  exact .cons (.close hB hk) hl hrest

/-- A loop with its body, in front of a line at the loop's own margin. -/
theorem Laid.loop {header body : List Char} (hB : B.headD (0, 0) = (m, m)) (hk : m < k)
    (hb : B.length + 1 < maxBlocks) (hheader : LineText header ws)
    (hbody : Passage ((k, k) :: B) (⟨k, body⟩ :: ls) ss ts) (h : Laid B (⟨m, cs⟩ :: ls') us) :
    Laid B (⟨m, header⟩ :: (⟨k, body⟩ :: ls ++ ⟨m, cs⟩ :: ls'))
      (ws ++ .newline :: .indent :: (ts ++ .dedent :: us)) := by
  have hinner := hbody.laid _ _ (h.close hB hk)
  exact .cons (.stay hB) hheader (Laid.deepen hinner hB hk hb)

/-- A source that is a header line and the lines of a body is parsed as their function. -/
theorem parse?_lex {source header : String} {f a b : String} {n : Nat} (hn : 0 < n)
    (hheader : headerTokens f a b = ws ++ [.newline, .indent])
    (hline : LineText header.toList ws) (hlaid : Laid [(n, n)] (⟨n, cs⟩ :: ls) (ts ++ [.dedent, .stop]))
    (hlays : Lays (s :: ss) ts)
    (hsource : source.toList = (⟨0, header.toList⟩ :: ⟨n, cs⟩ :: ls : List SourceLine).flatMap SourceLine.chars) :
    parse? (lex source).tokens.toList = some ⟨f, a, b, s :: ss⟩ := by
  have hopen := hlaid.deepen (B := []) rfl hn (by decide)
  have hall : Laid [] (⟨0, header.toList⟩ :: ⟨n, cs⟩ :: ls) (ws ++ .newline :: .indent :: (ts ++ [.dedent, .stop])) :=
    .cons (.stay rfl) hline hopen
  have htokens := lex_laid hsource hall (by simp)
  refine parse?_eq hlays ?_
  rw [htokens, hheader]
  simp

end FitCode.Program
