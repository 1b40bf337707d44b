import FitCode.Code.Line
import Mathlib.Data.List.Flatten
import Mathlib.Data.List.Infix
import Mathlib.Data.List.Nodup

/-! # Where emitted lines end up

A log says what was emitted and when. Replaying it needs no positions: a body with open loops is a
pile of blocks, and what is staged for a loop waits beside its opening line until the loop closes.
`Arranged` says how the lines of a complete log stand in the finished body.
-/
namespace FitCode

/-- Where a name comes from. -/
inductive Origin where
  | minted
  | given
  | index
  deriving DecidableEq

/-- What a step of a lowering emits. Loops are numbered in the order in which they are opened. -/
inductive Event where
  | named (name : String) (origin : Origin)
  /-- Lines appended to the body. -/
  | written (ls : List Line)
  /-- Lines that wait for a loop to close. -/
  | staged (loop : Nat) (ls : List Line)
  | opened (loop : Nat) (header : Line)
  | closed (loop : Nat) (pass : List Line)
  /-- A lowering into a body of its own, whose lines are then staged. -/
  | lifted (loop : Nat) (inner : List Event) (ls : List Line)
  /-- A lowering into a body of its own that failed. -/
  | dropped (inner : List Event)

namespace Event

/-- The lines appended to the body. -/
def direct : Event → List Line
  | .written ls => ls
  | .opened _ header => [header]
  | .closed _ pass => pass
  | _ => []

/-- The lines that wait for the loop `h`. -/
def stagedIn (h : Nat) : Event → List Line
  | .staged k ls => if k = h then ls else []
  | .lifted k _ ls => if k = h then ls else []
  | _ => []

def lines : Event → List Line
  | .staged _ ls => ls
  | .lifted _ _ ls => ls
  | e => e.direct

end Event

/-- What a loop gets when it closes with the lines `ls` after its opening line. -/
def passFor (header : Line) (ls : List Line) : List Line :=
  if ls = [] then [⟨header.depth + 1, "pass"⟩] else []

/-- How the lines of a log stand in a body: each of them once, those that were appended in order,
those staged for a loop together in front of it. A loop is filled up with a `pass` if nothing was
appended while it was open. -/
inductive Arranged : List Event → List Line → Prop
  | intro {es : List Event} {body : List Line}
    (once : body.Perm (es.flatMap Event.lines))
    (ordered : (es.flatMap Event.direct).Sublist body)
    (contiguous : ∀ h header, Event.opened h header ∈ es →
      es.flatMap (Event.stagedIn h) ++ [header] <:+: body)
    (passes : ∀ pre mid post h header pass,
      es = pre ++ .opened h header :: (mid ++ .closed h pass :: post) →
        pass = passFor header (mid.flatMap Event.direct))
    (inner : ∀ h fs ls, Event.lifted h fs ls ∈ es → Arranged fs ls) : Arranged es body

/-- An open loop, the lines in front of it in its block, and those that wait for it to close. -/
structure Pile where
  loop : Nat
  header : Line
  before : List Line
  queued : List Line

def Pile.stage (h : Nat) (ls : List Line) (p : Pile) : Pile :=
  if p.loop = h then { p with queued := p.queued ++ ls } else p

/-- A body that is being written. -/
structure Layout where
  /-- The open loops, innermost first. -/
  piles : List Pile
  /-- The lines of the innermost block. -/
  block : List Line
  /-- How many loops there have been. -/
  count : Nat

namespace Layout

/-- The lines of a block with those that stand in front of it. -/
def unfold : List Pile → List Line → List Line
  | [], ls => ls
  | p :: ps, ls => unfold ps (p.before ++ p.header :: ls)

def body (L : Layout) : List Line := unfold L.piles L.block

def stage (L : Layout) (h : Nat) (ls : List Line) : Layout :=
  { L with piles := L.piles.map (Pile.stage h ls) }

/-- One event. A loop may close only as the innermost one, and lines wait only for open loops. -/
inductive Step : Layout → Event → Layout → Prop
  | named {L : Layout} (name : String) (origin : Origin) : Step L (.named name origin) L
  | written {L : Layout} (ls : List Line) : Step L (.written ls) { L with block := L.block ++ ls }
  | staged {L : Layout} {h : Nat} (hh : h ∈ L.piles.map (·.loop)) (ls : List Line) :
    Step L (.staged h ls) (L.stage h ls)
  | opened {L : Layout} (header : Line) : Step L (.opened L.count header)
      ⟨⟨L.count, header, L.block, []⟩ :: L.piles, [], L.count + 1⟩
  | closed (p : Pile) (ps : List Pile) (block : List Line) (count : Nat) :
    Step ⟨p :: ps, block, count⟩ (.closed p.loop (passFor p.header block))
      ⟨ps, p.before ++ p.queued ++ p.header :: (block ++ passFor p.header block), count⟩
  | lifted {L : Layout} {h : Nat} (hh : h ∈ L.piles.map (·.loop)) {inner : List Event}
    {ls : List Line} (hin : Arranged inner ls) {n : Nat} (hn : L.count ≤ n) :
    Step L (.lifted h inner ls) { L.stage h ls with count := n }
  | dropped {L : Layout} (inner : List Event) {n : Nat} (hn : L.count ≤ n) :
    Step L (.dropped inner) { L with count := n }

inductive Run : Layout → List Event → Layout → Prop
  | refl (L : Layout) : Run L [] L
  | snoc {L M N : Layout} {es : List Event} {e : Event} (h : Run L es M) (hs : Step M e N) :
    Run L (es ++ [e]) N

theorem Run.trans {L M N : Layout} {es fs : List Event} (h : Run L es M) (h' : Run M fs N) :
    Run L (es ++ fs) N := by
  induction h' with
  | refl => exact (List.append_nil es).symm ▸ h
  | snoc _ hs ih =>
    rw [← List.append_assoc]
    exact .snoc ih hs

theorem Run.single {L M : Layout} {e : Event} (hs : Step L e M) : Run L [e] M :=
  .snoc (.refl L) hs

theorem unfold_eq (ps : List Pile) (ls : List Line) : unfold ps ls = unfold ps [] ++ ls := by
  induction ps generalizing ls with
  | nil => rfl
  | cons p ps ih =>
    have hnil := ih (p.before ++ [p.header])
    rw [unfold, unfold, ih, hnil]
    simp

theorem unfold_append (ps : List Pile) (ls ms : List Line) :
    unfold ps (ls ++ ms) = unfold ps ls ++ ms := by
  rw [unfold_eq, unfold_eq ps ls, List.append_assoc]

@[simp] theorem unfold_map_stage (h : Nat) (ls : List Line) (ps : List Pile) (ms : List Line) :
    unfold (ps.map (Pile.stage h ls)) ms = unfold ps ms := by
  induction ps generalizing ms with
  | nil => rfl
  | cons p ps ih =>
    have hp : (p.stage h ls).before = p.before ∧ (p.stage h ls).header = p.header := by
      rw [Pile.stage]
      split <;> exact ⟨rfl,rfl⟩
    rw [List.map_cons, unfold, unfold, ih, hp.1, hp.2]

@[simp] theorem loop_stage (h : Nat) (ls : List Line) (p : Pile) : (p.stage h ls).loop = p.loop := by
  rw [Pile.stage]
  split <;> rfl

@[simp] theorem loops_stage (L : Layout) (h : Nat) (ls : List Line) :
    (L.stage h ls).piles.map (·.loop) = L.piles.map (·.loop) := by
  rw [stage, List.map_map]
  exact List.map_congr_left fun p _ => loop_stage h ls p

theorem map_stage_of_not_mem {h : Nat} {ls : List Line} {ps : List Pile}
    (hh : h ∉ ps.map (·.loop)) : ps.map (Pile.stage h ls) = ps := by
  induction ps with
  | nil => rfl
  | cons p ps ih =>
    rw [List.map_cons, List.mem_cons, not_or] at hh
    rw [List.map_cons, ih hh.2, Pile.stage, if_neg (Ne.symm hh.1)]

theorem count_queued_stage {h : Nat} {ps : List Pile} (hn : (ps.map (·.loop)).Nodup)
    (hh : h ∈ ps.map (·.loop)) (ls : List Line) (l : Line) :
    ((ps.map (Pile.stage h ls)).flatMap (·.queued)).count l =
      (ps.flatMap (·.queued)).count l + ls.count l := by
  induction ps with
  | nil => cases hh
  | cons p ps ih =>
    rw [List.map_cons, List.nodup_cons] at hn
    simp only [List.map_cons, List.flatMap_cons, List.count_append]
    by_cases hp : p.loop = h
    · rw [map_stage_of_not_mem (hp ▸ hn.1), Pile.stage, if_pos hp, List.count_append]
      omega
    · have hmem : h ∈ ps.map (·.loop) := by
        rcases List.mem_cons.mp hh with hh | hh
        · exact absurd hh.symm hp
        · exact hh
      have hps := ih hn.2 hmem
      rw [Pile.stage, if_neg hp]
      omega

/-- All blocks: the innermost one, and for each open loop what stands in front of it. -/
def blocks (L : Layout) : List (List Line) := L.block :: L.piles.map (·.before)

/-- Where the opening line of a loop stands: it is open, or it stands inside a block behind the lines
that were staged for it. -/
def Places (L : Layout) (es : List Event) (h : Nat) (header : Line) : Prop :=
  (∃ p ∈ L.piles, p.loop = h ∧ p.header = header) ∨
    h < L.count ∧ h ∉ L.piles.map (·.loop) ∧
      ∃ ls ∈ L.blocks, es.flatMap (Event.stagedIn h) ++ [header] <:+: ls

/-- What a log says about the layout it leads to. -/
structure Keeps (L : Layout) (es : List Event) : Prop where
  once : ∀ l, L.body.count l + (L.piles.flatMap (·.queued)).count l = (es.flatMap Event.lines).count l
  ordered : (es.flatMap Event.direct).Sublist L.body
  distinct : (L.piles.map (·.loop)).Nodup
  below : ∀ h ∈ L.piles.map (·.loop), h < L.count
  fresh : ∀ h, L.count ≤ h → es.flatMap (Event.stagedIn h) = []
  queued : ∀ p ∈ L.piles, p.queued = es.flatMap (Event.stagedIn p.loop)
  placed : ∀ h header, Event.opened h header ∈ es → L.Places es h header
  /-- Nothing was appended since a loop was opened if it is the innermost one and its block empty. -/
  pending : ∀ p ∈ L.piles, ∀ pre mid, es = pre ++ .opened p.loop p.header :: mid →
    (mid.flatMap Event.direct = [] ↔ (L.piles.map (·.loop)).head? = some p.loop ∧ L.block = [])
  passes : ∀ pre mid post h header pass,
    es = pre ++ .opened h header :: (mid ++ .closed h pass :: post) →
      pass = passFor header (mid.flatMap Event.direct)
  inner : ∀ h fs ls, Event.lifted h fs ls ∈ es → Arranged fs ls

theorem keeps_start (n : Nat) : Keeps ⟨[], [], n⟩ [] where
  once := fun _ => rfl
  ordered := List.Sublist.slnil
  distinct := List.nodup_nil
  below := fun _ hh => nomatch hh
  fresh := fun _ _ => rfl
  queued := fun _ hp => nomatch hp
  placed := fun _ _ h => nomatch h
  pending := fun _ hp => nomatch hp
  passes := fun pre mid post h header pass he => by simp at he
  inner := fun _ _ _ h => nomatch h

namespace Step

variable {L M : Layout} {es : List Event} {e : Event}

theorem once (hs : Step L e M) (hk : L.Keeps es) (l : Line) : M.body.count l +
    (M.piles.flatMap (·.queued)).count l = ((es ++ [e]).flatMap Event.lines).count l := by
  have hold := hk.once l
  rw [List.flatMap_append, List.count_append, ← hold, List.flatMap_singleton]
  cases hs with
  | named => rfl
  | written ls =>
    simp only [body, unfold_append, List.count_append, Event.lines, Event.direct]
    omega
  | staged hh ls =>
    simp only [body, stage, unfold_map_stage, count_queued_stage hk.distinct hh, Event.lines]
    omega
  | opened header =>
    simp only [body, unfold, unfold_append, List.count_append, List.flatMap_cons, List.count_nil,
      Event.lines, Event.direct]
    omega
  | closed p ps block count =>
    simp only [body, unfold, unfold_eq ps (_ ++ _), List.count_append, List.count_cons,
      List.flatMap_cons, Event.lines, Event.direct]
    omega
  | lifted hh hin hn =>
    simp only [body, stage, unfold_map_stage, count_queued_stage hk.distinct hh, Event.lines]
    omega
  | dropped => rfl

theorem ordered (hs : Step L e M) (hk : L.Keeps es) :
    ((es ++ [e]).flatMap Event.direct).Sublist M.body := by
  have hold := hk.ordered
  rw [List.flatMap_append, List.flatMap_singleton]
  cases hs with
  | named => simpa [Event.direct] using hold
  | written ls =>
    rw [body, unfold_append]
    exact hold.append_right ls
  | staged hh ls => simpa [Event.direct, body, stage] using hold
  | opened header =>
    rw [body, unfold, unfold_append]
    exact hold.append_right [header]
  | closed p ps block count =>
    have hcons : p.header :: (block ++ passFor p.header block) =
        p.header :: block ++ passFor p.header block := rfl
    rw [body, hcons, ← List.append_assoc, unfold_append]
    refine List.Sublist.append (hold.trans ?_) (List.Sublist.refl _)
    -- What was staged for the loop comes in between.
    rw [body, unfold, unfold_eq, unfold_eq ps (p.before ++ p.queued ++ _), List.append_assoc p.before]
    refine (List.Sublist.refl _).append ((List.Sublist.refl _).append ?_)
    exact List.sublist_append_right _ _
  | lifted hh hin hn => simpa [Event.direct, body, stage] using hold
  | dropped => simpa [Event.direct, body] using hold

theorem distinct (hs : Step L e M) (hk : L.Keeps es) : (M.piles.map (·.loop)).Nodup := by
  have hold := hk.distinct
  cases hs with
  | named => exact hold
  | written ls => exact hold
  | staged hh ls => simpa using hold
  | opened header =>
    refine List.nodup_cons.mpr ⟨fun hmem => ?_,hold⟩
    exact Nat.lt_irrefl _ (hk.below _ hmem)
  | closed p ps block count => exact (List.nodup_cons.mp hold).2
  | lifted hh hin hn => simpa using hold
  | dropped => exact hold

theorem count_le (hs : Step L e M) : L.count ≤ M.count := by
  cases hs with
  | opened header => exact Nat.le_succ _
  | lifted hh hin hn => exact hn
  | dropped inner hn => exact hn
  | _ => exact Nat.le_refl _

theorem below (hs : Step L e M) (hk : L.Keeps es) : ∀ h ∈ M.piles.map (·.loop), h < M.count := by
  have hold : ∀ h ∈ L.piles.map (·.loop), h < M.count := fun h hh =>
    Nat.lt_of_lt_of_le (hk.below h hh) hs.count_le
  cases hs with
  | named => exact hold
  | written ls => exact hold
  | staged hh ls => simpa using hold
  | opened header =>
    intro h hh
    rcases List.mem_cons.mp hh with rfl | hh
    · exact Nat.lt_succ_self _
    · exact hold h hh
  | closed p ps block count => exact fun h hh => hold h (List.mem_cons_of_mem _ hh)
  | lifted hh hin hn => simpa using hold
  | dropped => exact hold

theorem stagedIn_of_not_mem (hs : Step L e M) {h : Nat} (hh : h ∉ L.piles.map (·.loop)) :
    e.stagedIn h = [] := by
  cases hs with
  | staged hk ls =>
    rw [Event.stagedIn, if_neg]
    rintro rfl
    exact hh hk
  | lifted hk hin hn =>
    rw [Event.stagedIn, if_neg]
    rintro rfl
    exact hh hk
  | _ => rfl

theorem fresh (hs : Step L e M) (hk : L.Keeps es) (h : Nat) (hh : M.count ≤ h) :
    (es ++ [e]).flatMap (Event.stagedIn h) = [] := by
  have hle := Nat.le_trans hs.count_le hh
  have hnot : h ∉ L.piles.map (·.loop) := fun hmem => Nat.not_lt_of_le hle (hk.below h hmem)
  rw [List.flatMap_append, hk.fresh h hle, List.flatMap_singleton, hs.stagedIn_of_not_mem hnot]
  rfl

theorem queued_stage {h : Nat} {ls : List Line} (hk : L.Keeps es)
    (he : ∀ k, e.stagedIn k = if h = k then ls else []) :
    ∀ p ∈ L.piles.map (Pile.stage h ls), p.queued = (es ++ [e]).flatMap (Event.stagedIn p.loop) := by
  intro q hq
  obtain ⟨p,hp,rfl⟩ := List.mem_map.mp hq
  rw [loop_stage, List.flatMap_append, ← hk.queued p hp, List.flatMap_singleton, he]
  rw [Pile.stage]
  by_cases hph : p.loop = h
  · rw [if_pos hph, if_pos hph.symm]
  · rw [if_neg hph, if_neg (Ne.symm hph), List.append_nil]

theorem queued (hs : Step L e M) (hk : L.Keeps es) :
    ∀ p ∈ M.piles, p.queued = (es ++ [e]).flatMap (Event.stagedIn p.loop) := by
  have hold : (∀ k, e.stagedIn k = []) → ∀ p ∈ L.piles,
      p.queued = (es ++ [e]).flatMap (Event.stagedIn p.loop) := by
    intro he p hp
    rw [List.flatMap_append, ← hk.queued p hp, List.flatMap_singleton, he, List.append_nil]
  cases hs with
  | named => exact hold fun _ => rfl
  | written ls => exact hold fun _ => rfl
  | staged hh ls => exact queued_stage hk fun _ => rfl
  | opened header =>
    intro p hp
    rcases List.mem_cons.mp hp with rfl | hp
    · rw [List.flatMap_append, hk.fresh _ (Nat.le_refl _)]
      rfl
    · exact hold (fun _ => rfl) p hp
  | closed p ps block count => exact fun q hq => hold (fun _ => rfl) q (List.mem_cons_of_mem _ hq)
  | lifted hh hin hn => exact queued_stage hk fun _ => rfl
  | dropped => exact hold fun _ => rfl

/-- A closed loop stays where it is as long as its block stays in one piece. -/
theorem places_of_blocks (hs : Step L e M) {h : Nat} {header : Line}
    (hlt : h < L.count) (hnot : h ∉ L.piles.map (·.loop)) (hnot' : h ∉ M.piles.map (·.loop))
    (hblocks : ∀ ls ∈ L.blocks, ∃ ms ∈ M.blocks, ls <:+: ms)
    (hls : ∃ ls ∈ L.blocks, es.flatMap (Event.stagedIn h) ++ [header] <:+: ls) :
    M.Places (es ++ [e]) h header := by
  obtain ⟨ls,hls,hin⟩ := hls
  obtain ⟨ms,hms,hsub⟩ := hblocks ls hls
  refine .inr ⟨Nat.lt_of_lt_of_le hlt hs.count_le,hnot',ms,hms,?_⟩
  rw [List.flatMap_append, List.flatMap_singleton, hs.stagedIn_of_not_mem hnot, List.append_nil]
  exact hin.trans hsub

theorem blocks_stage (L : Layout) (h : Nat) (ls : List Line) : (L.stage h ls).blocks = L.blocks := by
  have hbefore : ∀ p : Pile, (p.stage h ls).before = p.before := by
    intro p
    rw [Pile.stage]
    split <;> rfl
  rw [blocks, blocks, stage, List.map_map]
  exact congrArg _ (List.map_congr_left fun p _ => hbefore p)

theorem blocks_infix (hs : Step L e M) : ∀ ls ∈ L.blocks, ∃ ms ∈ M.blocks, ls <:+: ms := by
  have hsame : M.blocks = L.blocks → ∀ ls ∈ L.blocks, ∃ ms ∈ M.blocks, ls <:+: ms :=
    fun hM ls hls => ⟨ls,hM ▸ hls,List.infix_rfl⟩
  cases hs with
  | named => exact hsame rfl
  | written ls =>
    intro ms hms
    rcases List.mem_cons.mp hms with rfl | hms
    · exact ⟨_,List.mem_cons_self,(List.prefix_append _ _).isInfix⟩
    · exact ⟨ms,List.mem_cons_of_mem _ hms,List.infix_rfl⟩
  | staged hh ls => exact hsame (blocks_stage _ _ _)
  | opened header => exact fun ms hms => ⟨ms,List.mem_cons_of_mem _ hms,List.infix_rfl⟩
  | closed p ps block count =>
    -- The block of the loop becomes part of the block around it.
    intro ms hms
    rcases List.mem_cons.mp hms with rfl | hms
    · refine ⟨_,List.mem_cons_self,p.before ++ p.queued ++ [p.header],passFor p.header ms,?_⟩
      simp
    · rcases List.mem_cons.mp hms with rfl | hms
      · refine ⟨_,List.mem_cons_self,List.IsPrefix.isInfix ?_⟩
        rw [List.append_assoc]
        exact List.prefix_append _ _
      · exact ⟨ms,List.mem_cons_of_mem _ hms,List.infix_rfl⟩
  | lifted hh hin hn => exact hsame (blocks_stage L _ _)
  | dropped => exact hsame rfl

theorem placed_closed {p : Pile} {ps : List Pile} {block : List Line} {count : Nat} {pass : List Line}
    (hk : Keeps ⟨p :: ps, block, count⟩ es) :
    Places ⟨ps, p.before ++ p.queued ++ p.header :: (block ++ pass), count⟩
      (es ++ [.closed p.loop pass]) p.loop p.header := by
  refine .inr ⟨hk.below _ List.mem_cons_self,(List.nodup_cons.mp hk.distinct).1,_,List.mem_cons_self,?_⟩
  rw [List.flatMap_append, ← hk.queued p List.mem_cons_self]
  refine ⟨p.before,block ++ pass,?_⟩
  simp [Event.stagedIn]

theorem exists_mem_stage {ps : List Pile} {k : Nat} {header : Line} (h : Nat) (ls : List Line)
    (hp : ∃ p ∈ ps, p.loop = k ∧ p.header = header) :
    ∃ p ∈ ps.map (Pile.stage h ls), p.loop = k ∧ p.header = header := by
  obtain ⟨p,hp,hloop,hheader⟩ := hp
  refine ⟨p.stage h ls,List.mem_map_of_mem hp,by rw [loop_stage, hloop],?_⟩
  rw [Pile.stage]
  split <;> exact hheader

theorem placed (hs : Step L e M) (hk : L.Keeps es) (h : Nat) (header : Line)
    (hmem : Event.opened h header ∈ es ++ [e]) : M.Places (es ++ [e]) h header := by
  have hblocks := hs.blocks_infix
  rw [List.mem_append, List.mem_singleton] at hmem
  rcases hmem with hmem | rfl
  · rcases hk.placed h header hmem with hopen | ⟨hlt,hnot,hls⟩
    · cases hs with
      | named => exact .inl hopen
      | written ls => exact .inl hopen
      | staged hh ls => exact .inl (exists_mem_stage _ _ hopen)
      | opened header' =>
        obtain ⟨p,hp,hq⟩ := hopen
        exact .inl ⟨p,List.mem_cons_of_mem _ hp,hq⟩
      | closed q ps block count =>
        obtain ⟨p,hp,hloop,hheader⟩ := hopen
        rcases List.mem_cons.mp hp with rfl | hp
        · subst hloop hheader
          exact placed_closed hk
        · exact .inl ⟨p,hp,hloop,hheader⟩
      | lifted hh hin hn => exact .inl (exists_mem_stage _ _ hopen)
      | dropped => exact .inl hopen
    · refine hs.places_of_blocks hlt hnot ?_ hblocks hls
      cases hs with
      | staged hh ls => simpa using hnot
      | lifted hh hin hn => simpa using hnot
      | opened header' =>
        rw [List.map_cons, List.mem_cons, not_or]
        exact ⟨Nat.ne_of_lt hlt,hnot⟩
      | closed p ps block count => exact fun hh => hnot (List.mem_cons_of_mem _ hh)
      | _ => exact hnot
  · cases hs with
    | opened => exact .inl ⟨_,List.mem_cons_self,rfl,rfl⟩

/-- An event in a longer log is the last one or was there before. -/
theorem concat_eq_append_cons {α : Type} {as pre mid : List α} {a x : α}
    (h : as ++ [a] = pre ++ x :: mid) :
    mid = [] ∧ as = pre ∧ a = x ∨ ∃ mid', mid = mid' ++ [a] ∧ as = pre ++ x :: mid' := by
  rcases List.eq_nil_or_concat mid with rfl | ⟨mid',b,rfl⟩
  · have hlast := List.append_inj' h rfl
    exact .inl ⟨rfl,hlast.1,List.singleton_inj.mp hlast.2⟩
  · rw [List.concat_eq_append, ← List.cons_append, ← List.append_assoc] at h
    have hlast := List.append_inj' h rfl
    obtain rfl := List.singleton_inj.mp hlast.2
    exact .inr ⟨mid',List.concat_eq_append,hlast.1⟩

theorem lt_count_of_opened (hk : L.Keeps es) {h : Nat} {header : Line}
    (hmem : Event.opened h header ∈ es) : h < L.count := by
  rcases hk.placed h header hmem with ⟨p,hp,rfl,_⟩ | ⟨hlt,_⟩
  · exact hk.below _ (List.mem_map_of_mem hp)
  · exact hlt

theorem pending (hs : Step L e M) (hk : L.Keeps es) (p : Pile) (hp : p ∈ M.piles)
    (pre mid : List Event) (he : es ++ [e] = pre ++ .opened p.loop p.header :: mid) :
    mid.flatMap Event.direct = [] ↔
      (M.piles.map (·.loop)).head? = some p.loop ∧ M.block = [] := by
  rcases concat_eq_append_cons he with ⟨rfl,rfl,rfl⟩ | ⟨mid',rfl,hes⟩
  · -- The loop has just been opened.
    generalize hloop : p.loop = h at hs
    cases hs with
    | opened header => simp
  · have hmem : Event.opened p.loop p.header ∈ es := by simp [hes]
    have hold : ∀ q ∈ L.piles, q.loop = p.loop → q.header = p.header →
        (mid'.flatMap Event.direct = [] ↔
          (L.piles.map (·.loop)).head? = some p.loop ∧ L.block = []) := by
      intro q hq hloop hheader
      have := hk.pending q hq pre mid'
      rw [hloop, hheader] at this
      exact this hes
    rw [List.flatMap_append, List.flatMap_singleton, List.append_eq_nil_iff]
    cases hs with
    | named => simpa [Event.direct] using hold p hp rfl rfl
    | written ls => simp [Event.direct, hold p hp rfl rfl, and_assoc]
    | staged hh ls =>
      obtain ⟨q,hq,rfl⟩ := List.mem_map.mp hp
      simpa [Event.direct, stage] using hold q hq (loop_stage _ _ _).symm (by rw [Pile.stage]; split <;> rfl)
    | opened header =>
      have hlt := lt_count_of_opened hk hmem
      simp [Event.direct, Nat.ne_of_gt hlt]
    | closed q ps block count =>
      have hne : q.loop ≠ p.loop := by
        intro heq
        exact (List.nodup_cons.mp hk.distinct).1 (List.mem_map.mpr ⟨p,hp,heq.symm⟩)
      have hq := hold p (List.mem_cons_of_mem _ hp) rfl rfl
      simp [hq, hne]
    | lifted hh hin hn =>
      obtain ⟨q,hq,rfl⟩ := List.mem_map.mp hp
      simpa [Event.direct, stage] using hold q hq (loop_stage _ _ _).symm (by rw [Pile.stage]; split <;> rfl)
    | dropped => simpa [Event.direct] using hold p hp rfl rfl

theorem passes (hs : Step L e M) (hk : L.Keeps es) (pre mid post : List Event) (h : Nat)
    (header : Line) (pass : List Line)
    (he : es ++ [e] = pre ++ .opened h header :: (mid ++ .closed h pass :: post)) :
    pass = passFor header (mid.flatMap Event.direct) := by
  rw [← List.cons_append, ← List.append_assoc] at he
  rcases concat_eq_append_cons he with ⟨rfl,rfl,rfl⟩ | ⟨post',rfl,hes⟩
  · have hmem : Event.opened h header ∈ pre ++ .opened h header :: mid := by simp
    cases hs with
    | closed p ps block count =>
      -- The loop that closes is the one that was opened there.
      rcases hk.placed _ header hmem with ⟨q,hq,hloop,rfl⟩ | ⟨_,hnot,_⟩
      · obtain rfl : p = q := by
          rcases List.mem_cons.mp hq with rfl | hq
          · rfl
          · exact absurd (List.mem_map.mpr ⟨q,hq,hloop⟩) (List.nodup_cons.mp hk.distinct).1
        have hp := hk.pending p List.mem_cons_self pre mid rfl
        simp only [List.map_cons, List.head?_cons, true_and] at hp
        simp only [passFor, hp]
      · exact absurd List.mem_cons_self hnot
  · rw [List.append_assoc, List.cons_append] at hes
    exact hk.passes pre mid post' h header pass hes

theorem inner (hs : Step L e M) (hk : L.Keeps es) (h : Nat) (fs : List Event) (ls : List Line)
    (hmem : Event.lifted h fs ls ∈ es ++ [e]) : Arranged fs ls := by
  rw [List.mem_append, List.mem_singleton] at hmem
  rcases hmem with hmem | rfl
  · exact hk.inner h fs ls hmem
  · cases hs with
    | lifted hh hin hn => exact hin

theorem keeps (hs : Step L e M) (hk : L.Keeps es) : M.Keeps (es ++ [e]) :=
  ⟨hs.once hk,hs.ordered hk,hs.distinct hk,hs.below hk,hs.fresh hk,hs.queued hk,hs.placed hk,
    hs.pending hk,hs.passes hk,hs.inner hk⟩

end Step

namespace Run

theorem keeps {n : Nat} {es : List Event} {L : Layout} (h : Run ⟨[], [], n⟩ es L) : L.Keeps es := by
  generalize hstart : (⟨[], [], n⟩ : Layout) = S at h
  induction h with
  | refl => exact hstart ▸ keeps_start n
  | snoc _ hs ih => exact hs.keeps ih

/-- Once all loops are closed, the body holds what the log says and nothing else. -/
theorem arranged {n : Nat} {es : List Event} {L : Layout} (h : Run ⟨[], [], n⟩ es L)
    (hp : L.piles = []) : Arranged es L.body := by
  have hk := h.keeps
  have hbody : L.body = L.block := by rw [body, hp, unfold]
  refine .intro ?_ hk.ordered ?_ hk.passes hk.inner
  · refine List.perm_iff_count.mpr fun l => ?_
    have := hk.once l
    rw [hp] at this
    exact this
  · intro i header hmem
    rcases hk.placed i header hmem with ⟨p,hpile,_⟩ | ⟨_,_,ls,hls,hin⟩
    · rw [hp] at hpile
      cases hpile
    · rw [blocks, hp, List.map_nil, List.mem_singleton] at hls
      rw [hbody, ← hls]
      exact hin

end Run

end Layout

end FitCode
