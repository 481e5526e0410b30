import Tntsat.Spec.FrameIndexStep

/-!
# The PTS of the frames

A frame takes the PTS of the latest PES header when it is opened, and the next frames have
0xffffffff until another header comes.  An instance begins with 0 in the field, so the
first frame has a PTS of 0 when no header has been fed.

## Key results

- `pts_attributed`: the PTS of the frames, as long as a PES header comes before the first
  start code that opens a frame
- `no_pes_header`: what happens otherwise
-/

namespace Tntsat.FrameIndex

/-! ## Whose PTS a frame has -/

/-- The PTS of frames, each with the latest PES header before its frame. -/
structure PtsOk (given : List (Nat × Option Pes)) : Prop where
  /-- a frame has the PTS of the latest header, or none -/
  latest : ∀ g ∈ given, g.1 = 0xffffffff ∨ ∃ pes, g.2 = some pes ∧ g.1 = pes.u32PTS
  /-- no two frames have the PTS of one header -/
  once : given.Pairwise fun g g' => g.1 ≠ 0xffffffff → g'.1 ≠ 0xffffffff → g.2 ≠ g'.2
  /-- without a header a frame has none -/
  before : ∀ g ∈ given, g.2 = none → g.1 = 0xffffffff

/-- The frames that have been handed out, and the one that is open. -/
def Watch.all (c : Ctx) (w : Watch) : List (Nat × Option Pes) :=
  w.given ++ if c.isOpen then [(c.stNewFramePos.u32PTS, w.opener)] else []

/-- What holds behind every start code. -/
structure PtsInv (c : Ctx) (w : Watch) : Prop where
  ok : PtsOk (w.all c)
  /-- the PTS of the next frame -/
  next : w.pes = none ∨ c.u32PTS = 0xffffffff ∨
    ∃ pes, w.pes = some pes ∧ c.u32PTS = pes.u32PTS ∧
      ∀ g ∈ w.all c, g.2 = some pes → g.1 = 0xffffffff
  /-- headers are numbered -/
  numbers : ∀ g ∈ w.all c, ∀ pes, g.2 = some pes → pes.number < w.pesNum
  latest : ∀ pes, w.pes = some pes → pes.number < w.pesNum
  type : c.stNewFramePos.eFrameType ≠ .pesh

/-- A PES header comes before the first start code that opens a frame. -/
def PesFirst (s : Ctx × Watch) (sc : FindexScd) : Prop :=
  opens s.1 sc = true → s.2.pes ≠ none

instance (s : Ctx × Watch) (sc : FindexScd) : Decidable (PesFirst s sc) :=
  inferInstanceAs (Decidable (_ → _))

theorem PtsOk.sublist {given given' : List (Nat × Option Pes)} (h : PtsOk given)
    (hsub : given'.Sublist given) : PtsOk given' where
  latest g hg := h.latest g (hsub.subset hg)
  once := h.once.sublist hsub
  before g hg := h.before g (hsub.subset hg)

/-- One frame more, with the PTS of a header that no frame has yet. -/
theorem PtsOk.snoc {given : List (Nat × Option Pes)} {pts : Nat} {pes : Option Pes}
    (h : PtsOk given) (hpts : pts = 0xffffffff ∨ ∃ p, pes = some p ∧ pts = p.u32PTS)
    (hnone : pes = none → pts = 0xffffffff)
    (hnew : pts ≠ 0xffffffff → ∀ g ∈ given, g.2 = pes → g.1 = 0xffffffff) :
    PtsOk (given ++ [(pts, pes)]) where
  latest g hg := by
    rcases List.mem_append.mp hg with hg | hg
    · exact h.latest g hg
    · rw [List.mem_singleton.mp hg]
      exact hpts
  once := by
    rw [List.pairwise_append]
    refine ⟨h.once, List.pairwise_singleton _ _, ?_⟩
    intro g hg g' hg' hne hne' hsame
    rw [List.mem_singleton.mp hg'] at hne' hsame
    exact hne (hnew hne' g hg hsame)
  before g hg hgnone := by
    rcases List.mem_append.mp hg with hg | hg
    · exact h.before g hg hgnone
    · rw [List.mem_singleton.mp hg] at hgnone ⊢
      exact hnone hgnone

/-! ## One start code -/

theorem pes_inv {c : Ctx} {w : Watch} {sc : FindexScd} (hI : PtsInv c w)
    (hpes : isPesSC sc.u8StartCode.toNat c.eVideoStandard = true) :
    PtsInv (feedStartCode c sc).1 (w.next c sc) := by
  obtain ⟨hc, hout, htouches, hopens⟩ := feedStartCode_pes c sc hpes
  have hopen : (feedStartCode c sc).1.isOpen = c.isOpen := by rw [hc]; rfl
  have hframe : (feedStartCode c sc).1.stNewFramePos = c.stNewFramePos := by rw [hc]; rfl
  have hall : (w.next c sc).all (feedStartCode c sc).1 = w.all c := by
    simp [Watch.all, Watch.next, hout, hopens, hopen, hframe]
  have hnumber : (w.next c sc).pesNum = w.pesNum + 1 := by simp [Watch.next, hpes]
  have hlatest : (w.next c sc).pes = some ⟨w.pesNum, sc.u32PtsMs⟩ := by simp [Watch.next, hpes]
  exact
    { ok := by
        rw [hall]
        exact hI.ok
      next := by
        rw [hall, hlatest, hc]
        refine .inr (.inr ⟨_, rfl, rfl, ?_⟩)
        -- no frame has the new number
        intro g hg hsome
        have hlt := hI.numbers g hg _ hsome
        exact absurd hlt (Nat.lt_irrefl _)
      numbers := by
        rw [hall, hnumber]
        intro g hg pes hsome
        exact Nat.lt_succ_of_lt (hI.numbers g hg pes hsome)
      latest := by
        rw [hlatest, hnumber]
        rintro pes ⟨⟩
        exact Nat.lt_succ_self _
      type := by
        rw [hc]
        exact hI.type }

theorem frame_inv {c : Ctx} {w : Watch} {sc : FindexScd} (hI : PtsInv c w)
    (hpes : isPesSC sc.u8StartCode.toNat c.eVideoStandard = false) (hc : PesFirst (c, w) sc) :
    PtsInv (feedStartCode c sc).1 (w.next c sc) := by
  obtain ⟨c0, c1, border, hframe, hpts, hended, hturn⟩ := feed_turn c sc hpes
  have hnumber : (w.next c sc).pesNum = w.pesNum := by simp [Watch.next, hpes]
  have hlatest : (w.next c sc).pes = w.pes := by simp [Watch.next, hpes]
  have hopen0 : c0.isOpen = c.isOpen := by simp [Ctx.isOpen, hframe]
  -- the frames behind the first half of the step
  have hhalf : ((w.next c sc).given ++
        if c1.isOpen then [(c1.stNewFramePos.u32PTS, w.opener)] else []).Sublist (w.all c) ∧
      c1.u32PTS = c.u32PTS ∧ c1.stNewFramePos.eFrameType ≠ .pesh := by
    generalize hout : (feedStartCode c sc).2 = out at hended
    have hgiven : (w.next c sc).given =
        w.given ++ ((frameOut out).map fun f => (f.u32PTS, w.opener)).toList := by
      simp [Watch.next, hout]
    rw [hgiven]
    cases hended with
    | kept =>
      refine ⟨?_, hpts, by rw [hframe]; exact hI.type⟩
      simp [frameOut, Watch.all, hopen0, hframe]
    | dropped f hopen hf hneg =>
      refine ⟨?_, hpts, by simp [hf]⟩
      simp [frameOut, Watch.all, Ctx.isOpen, hf]
    | output f fresh hopen htype hfpts hstart hsize hfresh =>
      refine ⟨?_, hpts, by simp⟩
      have hf : f.eFrameType ≠ .pesh := fun h => hI.type (hframe ▸ htype h)
      have hopen' : c.isOpen = true := hopen0 ▸ hopen
      simp [frameOut, Option.filter, hf, Watch.all, hopen', hfpts, hframe, isOpen_eq_false]
  obtain ⟨hsub, hpts1, htype1⟩ := hhalf
  cases hopens : opens c sc with
  | false =>
    -- nothing is opened
    have hopener : (w.next c sc).opener = w.opener := by simp [Watch.next, hopens]
    rw [hopens] at hturn
    cases hturn with
    | kept hopen hpts' hframe' htype =>
      have hall : ((w.next c sc).all (feedStartCode c sc).1).Sublist (w.all c) := by
        rw [Watch.all, hopen, hframe', hopener]
        exact hsub
      exact
        { ok := hI.ok.sublist hall
          next := by
            rw [hlatest, hpts', hpts1]
            rcases hI.next with hnone | hunknown | ⟨pes, hpes, heq, hfree⟩
            · exact .inl hnone
            · exact .inr (.inl hunknown)
            · exact .inr (.inr ⟨pes, hpes, heq, fun g hg => hfree g (hall.subset hg)⟩)
          numbers := by
            rw [hnumber]
            exact fun g hg => hI.numbers g (hall.subset hg)
          latest := by
            rw [hlatest, hnumber]
            exact hI.latest
          type := fun h => htype1 (htype h) }
  | true =>
    have hopener : (w.next c sc).opener = w.pes := by simp [Watch.next, hopens]
    rw [hopens] at hturn
    cases hturn with
    | opened hclosed hopen hpts' hframe' htype =>
      rw [hclosed] at hsub
      have hgiven : (w.next c sc).given.Sublist (w.all c) := by simpa using hsub
      have hall : (w.next c sc).all (feedStartCode c sc).1 =
          (w.next c sc).given ++ [(c.u32PTS, w.pes)] := by
        simp [Watch.all, hopen, hframe', hpts1, hopener]
      have hnext := hI.next.resolve_left (hc hopens)
      have hok : PtsOk ((w.next c sc).given ++ [(c.u32PTS, w.pes)]) := by
        apply (hI.ok.sublist hgiven).snoc
        · rcases hnext with hunknown | ⟨pes, hpes, heq, -⟩
          · exact .inl hunknown
          · exact .inr ⟨pes, hpes, heq⟩
        · exact fun hnone => absurd hnone (hc hopens)
        · intro hne g hg hsame
          obtain ⟨pes, hpes, -, hfree⟩ := hnext.resolve_left hne
          exact hfree g (hgiven.subset hg) (hsame.trans hpes)
      exact
        { ok := by
            rw [hall]
            exact hok
          next := .inr (.inl hpts')
          numbers := by
            rw [hall, hnumber]
            intro g hg pes hsome
            rcases List.mem_append.mp hg with hg | hg
            · exact hI.numbers g (hgiven.subset hg) pes hsome
            · rw [List.mem_singleton.mp hg] at hsome
              exact hI.latest pes hsome
          latest := by
            rw [hlatest, hnumber]
            exact hI.latest
          type := htype }

/-- One start code under the condition. -/
theorem pts_step (s : Ctx × Watch) (sc : FindexScd) (hI : PtsInv s.1 s.2) (hc : PesFirst s sc) :
    PtsOk (watched.step s sc).1.2.given ∧ PtsInv (watched.step s sc).1.1 (watched.step s sc).1.2 := by
  have hI' : PtsInv (watched.step s sc).1.1 (watched.step s sc).1.2 := by
    cases hpes : isPesSC sc.u8StartCode.toNat s.1.eVideoStandard with
    | true => exact pes_inv hI hpes
    | false => exact frame_inv hI hpes hc
  exact ⟨hI'.ok.sublist (List.sublist_append_left _ _), hI'⟩

/-! ## Runs -/

theorem start_ptsInv (std : VidStd) : PtsInv (openInstance std) {} where
  ok := ⟨nofun, List.Pairwise.nil, nofun⟩
  next := .inl rfl
  numbers := nofun
  latest := nofun
  type := nofun

/-- Every sequence of start codes and PES headers, for every standard. -/
theorem pts_attributed (std : VidStd) (scs : List FindexScd)
    (hc : watched.Always PesFirst (openInstance std, {}) scs) :
    watched.Always (fun s sc => PtsOk (watched.step s sc).1.2.given) (openInstance std, {}) scs :=
  (Machine.always_of_invariant (I := fun s => PtsInv s.1 s.2) pts_step (start_ptsInv std) hc).1

/-- A PES header with a PTS. -/
def pesAt (offset : Int) (pts : Nat) : FindexScd :=
  { u8StartCode := 0xe0, u32PtsMs := pts, s64GlobalOffset := offset }

/-- A sequence header of MPEG-2. -/
def sequenceAt (offset : Int) : FindexScd := { u8StartCode := 0xb3, s64GlobalOffset := offset }

/-- A picture of MPEG-2: `8` begins an I picture, `16` a P picture. -/
def pictureAt (offset : Int) (coding : UInt8) : FindexScd :=
  { u8StartCode := 0x00, s64GlobalOffset := offset, au8DataAfterSC := [0, coding, 0, 0, 0, 0, 0, 0] }

/-- Four frames and two PES headers; the second and the fourth frame have no PTS. -/
theorem pts_attributed_mpeg2 :
    watched.Always (fun s sc => PtsOk (watched.step s sc).1.2.given) (openInstance .mpeg2, {})
      [pesAt 0 40, sequenceAt 10, pictureAt 20 8, pictureAt 100 16, pesAt 180 120,
        pictureAt 190 16, pictureAt 300 16, pictureAt 400 16] :=
  pts_attributed .mpeg2 _ (by decide +kernel)

/-- A frame opened before any PES header has the PTS 0. -/
theorem no_pes_header :
    ¬ watched.Always (fun s sc => PtsOk (watched.step s sc).1.2.given) (openInstance .mpeg2, {})
      [sequenceAt 0, pictureAt 10 8, pictureAt 100 16] := by
  rintro ⟨-, -, hlast, -⟩
  exact absurd (hlast.before (0, none) (by decide +kernel) rfl) (by decide)

end Tntsat.FrameIndex
