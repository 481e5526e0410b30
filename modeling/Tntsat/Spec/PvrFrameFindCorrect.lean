import Mathlib.Algebra.Group.Nat.Defs
import Mathlib.Data.List.Nodup
import Mathlib.Data.List.TakeWhile
import Tntsat.Native.PvrFrameFind
import Tntsat.Spec.PvrFrameStatCorrect
import Tntsat.Spec.PvrFrmNumCorrect

/-!
# Looking for a frame of a type

The search goes along the frames of the ring one after the other.  Backward it stops in
front of the start.  Forward it looks at the write position as well, where a ring that was
filled before still holds the entry of an earlier cycle.  A cycle of less than 26 frames
leaves the start behind the last frame, and the search then fails at once.

## Key results

- `findLoop_along`: the loop along positions that hold entries
- `finds_iff`: exactly when the search finds the nearest frame
- `getFBwardIPBFrameNum_iff`: the same after every run of calls that succeed
-/

namespace Tntsat.PvrIndex

open PvrIdxCache (sizeofEntry)

/-! ## What the search is for -/

/-- The frame is one of the type. -/
def typed (read : Nat → ReadRes) (u32FrameType : Nat) (num : Nat) : Bool :=
  match read num with
  | .entry e => e.isOfType u32FrameType == some true
  | _ => false

/-- The frames that are stored, from the one before `cur` back to the start. -/
def CycMgr.framesBefore (c : CycMgr) (cur : Nat) : List Nat :=
  (c.ringWalk.takeWhile (· ≠ cur)).reverse

/-- The frames that are stored, from the one behind `cur` up to the end. -/
def CycMgr.framesAfter (c : CycMgr) (cur : Nat) : List Nat :=
  (c.ringWalk.dropWhile (· ≠ cur)).tail

/-- The frames in a direction, nearest first. -/
def CycMgr.framesFrom (c : CycMgr) (u32Direction cur : Nat) : List Nat :=
  if u32Direction = 0 then c.framesBefore cur else c.framesAfter cur

/-- The nearest frame of the type. -/
def CycMgr.nearest (c : CycMgr) (read : Nat → ReadRes) (u32Direction u32FrameType cur : Nat) :
    Option Nat :=
  (c.framesFrom u32Direction cur).find? (typed read u32FrameType)

/-- With enough fuel the result is `r`. -/
def Returns (f : Nat → Option FindRes) (r : FindRes) : Prop := ∃ k, ∀ fuel, f (fuel + k) = some r

theorem Returns.unique {f : Nat → Option FindRes} {r r' : FindRes} (h : Returns f r)
    (h' : Returns f r') : r = r' := by
  obtain ⟨k, hk⟩ := h
  obtain ⟨k', hk'⟩ := h'
  have heq := hk k'
  rw [Nat.add_comm, hk' k] at heq
  exact (Option.some.inj heq).symm

/-- The search terminates, and finds a frame exactly when it is the nearest one. -/
def FindsNearest (c : CycMgr) (read : Nat → ReadRes) (u32Direction u32FrameType cur : Nat) :
    Prop :=
  ∃ r, Returns (getFBwardIPBFrameNum c read u32Direction u32FrameType cur) r ∧
    ∀ num, r = .found num ↔ c.nearest read u32Direction u32FrameType cur = some num

variable {c : CycMgr} {read : Nat → ReadRes} {dir type : Nat}

theorem framesBefore_of_split {cur : Nat} {l₁ l₂ : List Nat} (h : c.ringWalk = l₁ ++ cur :: l₂)
    (hn : cur ∉ l₁) : c.framesBefore cur = l₁.reverse := by
  have hne : ∀ x ∈ l₁, (decide (x ≠ cur)) = true := fun x hx =>
    decide_eq_true fun heq => hn (heq ▸ hx)
  unfold CycMgr.framesBefore
  rw [h, List.takeWhile_append_of_pos hne, List.takeWhile_cons_of_neg (by simp),
    List.append_nil]

theorem framesAfter_of_split {cur : Nat} {l₁ l₂ : List Nat} (h : c.ringWalk = l₁ ++ cur :: l₂)
    (hn : cur ∉ l₁) : c.framesAfter cur = l₂ := by
  have hne : ∀ x ∈ l₁, (decide (x ≠ cur)) = true := fun x hx =>
    decide_eq_true fun heq => hn (heq ▸ hx)
  unfold CycMgr.framesAfter
  rw [h, List.dropWhile_append_of_pos hne, List.dropWhile_cons_of_neg (by simp)]
  rfl

/-- From the end of the ring all frames lie before. -/
theorem framesBefore_of_notMem {cur : Nat} (h : cur ∉ c.ringWalk) :
    c.framesBefore cur = c.ringWalk.reverse := by
  have hne : ∀ x ∈ c.ringWalk, (decide (x ≠ cur)) = true := fun x hx =>
    decide_eq_true fun heq => h (heq ▸ hx)
  rw [CycMgr.framesBefore, List.takeWhile_eq_self_iff.mpr hne]

theorem framesAfter_of_notMem {cur : Nat} (h : cur ∉ c.ringWalk) : c.framesAfter cur = [] := by
  have hne : ∀ x ∈ c.ringWalk, (decide (x ≠ cur)) = true := fun x hx =>
    decide_eq_true fun heq => h (heq ▸ hx)
  rw [CycMgr.framesAfter, List.dropWhile_eq_nil_iff.mpr hne]
  rfl

/-! ## One position after the other -/

theorem u32OfInt_natCast {n : Nat} (h : n < 4294967296) : u32OfInt (n : Int) = n := by
  rw [u32OfInt_of_nonneg (by omega) (by omega)]
  rfl

theorem nextFrameNum_up (hdir : dir ≠ 0) {p : Nat} (hp : p + 1 < 4294967296)
    (hin : c.u32EndFrame ≤ c.u32StartFrame → p + 1 ≤ c.u32LastFrame) :
    c.nextFrameNum dir p = ((p + 1 : Nat) : Int) := by
  unfold CycMgr.nextFrameNum
  simp only [if_neg hdir]
  split
  · rename_i hwrap
    have hle := hin hwrap
    rw [← Int.natCast_succ, u32OfInt_natCast hp, if_neg (by omega)]
  · rfl

theorem nextFrameNum_round_up (hdir : dir ≠ 0) (hwrap : c.u32EndFrame ≤ c.u32StartFrame)
    (hlast : c.u32LastFrame + 1 < 4294967296) :
    c.nextFrameNum dir c.u32LastFrame = ((0 : Nat) : Int) := by
  unfold CycMgr.nextFrameNum
  simp only [if_neg hdir, if_pos hwrap]
  rw [← Int.natCast_succ, u32OfInt_natCast hlast, if_pos (by omega)]
  rfl

theorem nextFrameNum_down (p : Nat) : c.nextFrameNum 0 ((p + 1 : Nat) : Int) = (p : Int) := by
  unfold CycMgr.nextFrameNum
  simp only [if_true]
  split
  · rw [if_neg (by omega)]
    omega
  · omega

theorem nextFrameNum_round_down (hwrap : c.u32EndFrame ≤ c.u32StartFrame)
    (hlast : c.u32LastFrame < 2147483648) :
    c.nextFrameNum 0 ((0 : Nat) : Int) = (c.u32LastFrame : Int) := by
  unfold CycMgr.nextFrameNum
  simp only [if_true, if_pos hwrap]
  rw [if_pos (by omega), s32_of_range (by omega) (by omega)]

/-- The search goes from `p` along these positions. -/
def Leads (c : CycMgr) (dir : Nat) : Nat → List Nat → Prop
  | _, [] => True
  | p, x :: xs => c.nextFrameNum dir p = (x : Int) ∧ Leads c dir x xs

theorem Leads.append {p : Nat} {xs ys : List Nat} (h : Leads c dir p xs)
    (h' : Leads c dir (xs.getLastD p) ys) : Leads c dir p (xs ++ ys) := by
  induction xs generalizing p with
  | nil => exact h'
  | cons x xs ih => exact ⟨h.1, ih h.2 (by rwa [List.getLastD_cons] at h')⟩

theorem leads_up {a k : Nat}
    (h : ∀ p, a ≤ p → p < a + k → c.nextFrameNum dir p = ((p + 1 : Nat) : Int)) :
    Leads c dir a (List.range' (a + 1) k) := by
  induction k generalizing a with
  | zero => trivial
  | succ k ih =>
    rw [List.range'_succ]
    exact ⟨h a (Nat.le_refl a) (by omega), ih fun p h1 h2 => h p (by omega) (by omega)⟩

theorem leads_down (a k : Nat) : Leads c 0 (a + k) (List.range' a k).reverse := by
  induction k with
  | zero => trivial
  | succ k ih =>
    rw [List.range'_concat, List.reverse_append, Nat.one_mul]
    exact ⟨nextFrameNum_down (a + k), ih⟩

theorem getLastD_up (a k : Nat) : (List.range' (a + 1) k).getLastD a = a + k := by
  cases k with
  | zero => rfl
  | succ k => rw [List.range'_concat, List.getLastD_concat]; omega

theorem getLastD_down (a k : Nat) : (List.range' a k).reverse.getLastD (a + k) = a := by
  cases k with
  | zero => rfl
  | succ k => rw [List.range'_succ, List.reverse_cons, List.getLastD_concat]

/-- One of the types I, P and B. -/
def KnownType (type : Nat) : Prop :=
  type = FrameType.i.toNat ∨ type = FrameType.p.toNat ∨ type = FrameType.b.toNat

instance : Decidable (KnownType type) := inferInstanceAs (Decidable (_ ∨ _ ∨ _))

theorem isOfType_known (h : KnownType type) (e : IndexEntry) :
    e.isOfType type = some (e.isOfType type == some true) := by
  unfold IndexEntry.isOfType
  rcases h with rfl | rfl | rfl
  · cases e.isIframe <;> rfl
  · cases e.isPframe <;> rfl
  · cases e.isBframe <;> rfl

/-- One round at a position that holds an entry. -/
theorem findLoop_entry (htype : KnownType type) {s : Int} {x loop : Nat}
    (hnext : c.nextFrameNum dir s = (x : Int)) (hx : x < 4294967296)
    (hv : c.isFrameValid x = true) {e : IndexEntry} (he : read x = .entry e)
    (hloop : loop + (if x = 0 then 1 else 0) < 2) (fuel : Nat) :
    findLoop c read dir type (fuel + 1) s loop =
      if typed read type x = true then some (.found x)
      else findLoop c read dir type fuel x (loop + if x = 0 then 1 else 0) := by
  have hcount : (if 0 = (x : Int) then loop + 1 else loop) = loop + if x = 0 then 1 else 0 := by
    by_cases h0 : x = 0
    · simp [h0]
    · rw [if_neg (by omega), if_neg h0]
      rfl
  have htyped : typed read type x = (e.isOfType type == some true) := by
    unfold typed
    rw [he]
  rw [findLoop, hnext, hcount, if_neg (by omega), u32OfInt_natCast hx, hv, he, htyped]
  simp only [Bool.not_true, Bool.false_eq_true, if_false]
  rw [isOfType_known htype e]
  cases e.isOfType type == some true <;> rfl

/-- Along positions that hold entries the loop finds the first of the type, and goes on from
    the last where none is. -/
theorem findLoop_along (htype : KnownType type) {xs : List Nat} {p loop : Nat}
    (hlead : Leads c dir p xs)
    (hx : ∀ x ∈ xs, x < 4294967296 ∧ c.isFrameValid x = true ∧ ∃ e, read x = .entry e)
    (hloop : loop + xs.count 0 < 2) (fuel : Nat) :
    findLoop c read dir type (fuel + xs.length) p loop =
      match xs.find? (typed read type) with
      | some num => some (.found num)
      | none => findLoop c read dir type fuel ((xs.getLastD p : Nat) : Int) (loop + xs.count 0) := by
  induction xs generalizing p loop with
  | nil => rfl
  | cons x xs ih =>
    obtain ⟨hlt, hv, e, he⟩ := hx x List.mem_cons_self
    have hcount : (x :: xs).count 0 = (if x = 0 then 1 else 0) + xs.count 0 := by
      rw [List.count_cons, Nat.add_comm]
      simp
    rw [hcount] at hloop ⊢
    rw [List.length_cons, ← Nat.add_assoc,
      findLoop_entry htype hlead.1 hlt hv he (by omega), List.find?_cons]
    cases htyped : typed read type x with
    | true => rfl
    | false =>
      rw [if_neg Bool.false_ne_true, ih hlead.2 (fun y hy => hx y (List.mem_cons_of_mem x hy))
        (by omega), List.getLastD_cons, Nat.add_assoc]

/-- The search ends at a position that is no frame. -/
theorem findLoop_invalid (read : Nat → ReadRes) (type : Nat) {s : Int} (loop : Nat)
    (hv : c.isFrameValid (u32OfInt (c.nextFrameNum dir s)) = false) :
    ∃ r, (∀ num, r ≠ .found num) ∧
      ∀ fuel, findLoop c read dir type (fuel + 1) s loop = some r := by
  unfold findLoop
  dsimp only
  generalize (if 0 = c.nextFrameNum dir s then loop + 1 else loop) = looptimes
  split
  · exact ⟨.failure, fun _ => nofun, fun _ => rfl⟩
  · rw [hv]
    exact ⟨.invalid, fun _ => nofun, fun _ => rfl⟩

/-- The search fails at a position that holds no entry. -/
theorem findLoop_unread (type : Nat) {s : Int} {x : Nat} (loop : Nat)
    (hnext : c.nextFrameNum dir s = (x : Int)) (hx : x < 4294967296)
    (hv : c.isFrameValid x = true) (hread : ∀ e, read x ≠ .entry e) (fuel : Nat) :
    findLoop c read dir type (fuel + 1) s loop = some .failure := by
  rw [findLoop, hnext, u32OfInt_natCast hx, hv]
  generalize (if 0 = (x : Int) then loop + 1 else loop) = looptimes
  split
  · rfl
  · cases he : read x with
    | entry e => exact absurd he (hread e)
    | _ => rfl

/-! ## The search in a ring -/

/-- A ring that passes the search's first test, with a gap in front of its start once it
    has been wrapped. -/
structure Searchable (c : CycMgr) (read : Nat → ReadRes) : Prop where
  start_le : c.u32StartFrame ≤ c.u32LastFrame
  end_le : c.u32EndFrame ≤ c.u32LastFrame
  end_pos : 0 < c.u32EndFrame
  shape : c.u32StartFrame < c.u32EndFrame ∨ c.u32EndFrame + 1 < c.u32StartFrame
  small : c.u32LastFrame < 2147483647
  stored : ∀ x ∈ c.ringWalk, ∃ e, read x = .entry e

theorem CycMgr.ringWalk_straight (h : c.u32StartFrame < c.u32EndFrame) :
    c.ringWalk = List.range' c.u32StartFrame (c.u32EndFrame - c.u32StartFrame) := by
  rw [ringWalk, walk, if_pos (Nat.le_of_lt h)]

theorem CycMgr.ringWalk_wrapped (h : c.u32EndFrame < c.u32StartFrame) :
    c.ringWalk = List.range' c.u32StartFrame (c.u32LastFrame + 1 - c.u32StartFrame) ++
      List.range' 0 c.u32EndFrame := by
  rw [ringWalk, walk, if_neg (by omega), ringSize, if_pos (by omega)]

/-- A row of positions is cut at one of them. -/
theorem range'_split {a b cur : Nat} (h1 : a ≤ cur) (h2 : cur < b) :
    List.range' a (b - a) =
      List.range' a (cur - a) ++ cur :: List.range' (cur + 1) (b - 1 - cur) := by
  have hlen : b - a = (cur - a) + (b - 1 - cur + 1) := by omega
  have hcur : a + (cur - a) = cur := by omega
  rw [hlen, ← List.range'_append_1, hcur, List.range'_succ]

/-- The ring around a frame of the present cycle, where it has not been wrapped. -/
theorem CycMgr.ringWalk_split {cur : Nat} (h1 : c.u32StartFrame ≤ cur)
    (h2 : cur < c.u32EndFrame) :
    c.ringWalk = List.range' c.u32StartFrame (cur - c.u32StartFrame) ++
      cur :: List.range' (cur + 1) (c.u32EndFrame - 1 - cur) := by
  rw [ringWalk_straight (by omega), range'_split h1 h2]

/-- The ring around a frame of the cycle before. -/
theorem CycMgr.ringWalk_split_old {cur : Nat} (hwrap : c.u32EndFrame < c.u32StartFrame)
    (h1 : c.u32StartFrame ≤ cur) (h2 : cur ≤ c.u32LastFrame) :
    c.ringWalk = List.range' c.u32StartFrame (cur - c.u32StartFrame) ++
      cur :: (List.range' (cur + 1) (c.u32LastFrame - cur) ++ List.range' 0 c.u32EndFrame) := by
  rw [ringWalk_wrapped hwrap, range'_split h1 (Nat.lt_succ_of_le h2), Nat.succ_sub_one,
    List.append_assoc, List.cons_append]

/-- The ring around a frame of the present cycle, where it has been wrapped. -/
theorem CycMgr.ringWalk_split_new {cur : Nat} (hwrap : c.u32EndFrame < c.u32StartFrame)
    (h2 : cur < c.u32EndFrame) :
    c.ringWalk = (List.range' c.u32StartFrame (c.u32LastFrame + 1 - c.u32StartFrame) ++
        List.range' 0 cur) ++ cur :: List.range' (cur + 1) (c.u32EndFrame - 1 - cur) := by
  have hsplit := range'_split (Nat.zero_le cur) h2
  rw [Nat.sub_zero, Nat.sub_zero] at hsplit
  rw [ringWalk_wrapped hwrap, hsplit, List.append_assoc]

theorem getLastD_append_cons (xs ys : List Nat) (y d : Nat) :
    (xs ++ y :: ys).getLastD d = ys.getLastD y := by
  induction xs generalizing d with
  | nil => rw [List.nil_append, List.getLastD_cons]
  | cons x xs ih => rw [List.cons_append, List.getLastD_cons, ih]

theorem CycMgr.mem_ringWalk {x : Nat} (hx : x ∈ c.ringWalk) :
    (c.u32StartFrame ≤ x ∧ x < c.u32EndFrame) ∨ (c.u32EndFrame ≤ c.u32StartFrame ∧
      (c.u32StartFrame ≤ x ∧ x ≤ c.u32LastFrame ∨ x < c.u32EndFrame)) := by
  unfold ringWalk walk ringSize at hx
  split at hx
  · rw [List.mem_range'_1] at hx
    omega
  · rw [List.mem_append, List.mem_range'_1, List.mem_range'_1] at hx
    split at hx <;> omega

theorem CycMgr.nodup_ringWalk (c : CycMgr) : c.ringWalk.Nodup := by
  unfold ringWalk walk
  split
  · exact List.nodup_range'
  · refine List.nodup_append.mpr ⟨List.nodup_range', List.nodup_range', fun a ha b hb => ?_⟩
    rw [List.mem_range'_1] at ha hb
    omega

theorem CycMgr.framesFrom_sublist (c : CycMgr) (dir cur : Nat) :
    ∀ x ∈ c.framesFrom dir cur, x ∈ c.ringWalk := by
  intro x hx
  unfold framesFrom at hx
  split at hx
  · exact (List.takeWhile_sublist _).subset (List.mem_reverse.mp hx)
  · exact (List.dropWhile_sublist _).subset (List.mem_of_mem_tail hx)

theorem CycMgr.nodup_framesFrom (c : CycMgr) (dir cur : Nat) : (c.framesFrom dir cur).Nodup := by
  unfold framesFrom
  split
  · exact List.nodup_reverse.mpr (c.nodup_ringWalk.sublist (List.takeWhile_sublist _))
  · exact (c.nodup_ringWalk.sublist (List.dropWhile_sublist _)).sublist (List.tail_sublist _)

section

variable (h : Searchable c read)

include h

theorem Searchable.mem_ok {x : Nat} (hx : x ∈ c.ringWalk) :
    x < 4294967296 ∧ c.isFrameValid x = true ∧ ∃ e, read x = .entry e := by
  have hend := h.end_le
  have hsmall := h.small
  have hmem := CycMgr.mem_ringWalk hx
  refine ⟨by omega, CycMgr.isFrameValid_iff.mpr ?_, h.stored x hx⟩
  omega

/-- The loop along the frames in a direction. -/
theorem Searchable.findLoop_frames (htype : KnownType type) {cur : Nat}
    (hlead : Leads c dir cur (c.framesFrom dir cur)) (fuel : Nat) :
    findLoop c read dir type (fuel + (c.framesFrom dir cur).length) cur 0 =
      match c.nearest read dir type cur with
      | some num => some (.found num)
      | none => findLoop c read dir type fuel
          (((c.framesFrom dir cur).getLastD cur : Nat) : Int) ((c.framesFrom dir cur).count 0) := by
  have hcount := List.nodup_iff_count_le_one.mp (c.nodup_framesFrom dir cur) 0
  rw [findLoop_along htype hlead (fun x hx => h.mem_ok (c.framesFrom_sublist dir cur x hx))
    (by omega), Nat.zero_add]
  rfl

/-- Backward the frames lie in a row down to the start. -/
theorem Searchable.leads_before {cur : Nat} (hcur : c.isFrameValid cur = true) :
    Leads c 0 cur (c.framesBefore cur) ∧ (c.framesBefore cur).getLastD cur = c.u32StartFrame := by
  have hv := CycMgr.isFrameValid_iff.mp hcur
  have hstart := h.start_le
  have hpos := h.end_pos
  have hsmall := h.small
  have hrow : c.u32StartFrame ≤ cur → c.framesBefore cur =
      (List.range' c.u32StartFrame (cur - c.u32StartFrame)).reverse →
      Leads c 0 cur (c.framesBefore cur) ∧
        (c.framesBefore cur).getLastD cur = c.u32StartFrame := by
    intro hle heq
    have hk : c.u32StartFrame + (cur - c.u32StartFrame) = cur := by omega
    have hlead := leads_down (c := c) c.u32StartFrame (cur - c.u32StartFrame)
    have hlast := getLastD_down c.u32StartFrame (cur - c.u32StartFrame)
    rw [hk] at hlead hlast
    rw [heq]
    exact ⟨hlead, hlast⟩
  have hnotMem : cur ∉ List.range' c.u32StartFrame (cur - c.u32StartFrame) := by
    rw [List.mem_range'_1]
    omega
  cases h.shape with
  | inl hlt =>
    apply hrow (by omega)
    by_cases hend : cur = c.u32EndFrame
    · have hwalk := CycMgr.ringWalk_straight hlt
      rw [← hend] at hwalk
      rw [framesBefore_of_notMem (by rwa [hwalk]), hwalk]
    · exact framesBefore_of_split (CycMgr.ringWalk_split (by omega) (by omega)) hnotMem
  | inr hgap =>
    by_cases hup : c.u32StartFrame ≤ cur
    · apply hrow hup
      exact framesBefore_of_split (CycMgr.ringWalk_split_old (by omega) hup (by omega)) hnotMem
    · -- down to 0, and from the last position down to the start
      have hnew : cur ∉ List.range' c.u32StartFrame (c.u32LastFrame + 1 - c.u32StartFrame) ++
          List.range' 0 cur := by
        rw [List.mem_append, List.mem_range'_1, List.mem_range'_1]
        omega
      have heq : c.framesBefore cur =
          (List.range' c.u32StartFrame (c.u32LastFrame + 1 - c.u32StartFrame) ++
            List.range' 0 cur).reverse := by
        by_cases hend : cur = c.u32EndFrame
        · have hwalk := CycMgr.ringWalk_wrapped (c := c) (by omega)
          rw [← hend] at hwalk
          rw [framesBefore_of_notMem (by rwa [hwalk]), hwalk]
        · exact framesBefore_of_split (CycMgr.ringWalk_split_new (by omega) (by omega)) hnew
      have hlen : c.u32LastFrame + 1 - c.u32StartFrame =
          c.u32LastFrame - c.u32StartFrame + 1 := by omega
      have hk : c.u32StartFrame + (c.u32LastFrame - c.u32StartFrame) = c.u32LastFrame := by omega
      have hdown := leads_down (c := c) 0 cur
      have hzero := getLastD_down 0 cur
      have hrest := leads_down (c := c) c.u32StartFrame (c.u32LastFrame - c.u32StartFrame)
      have hfin := getLastD_down c.u32StartFrame (c.u32LastFrame - c.u32StartFrame)
      rw [Nat.zero_add] at hdown hzero
      rw [hk] at hrest hfin
      rw [heq, List.reverse_append, hlen, List.range'_concat, Nat.one_mul, hk,
        List.reverse_append]
      constructor
      · apply hdown.append
        rw [hzero]
        exact ⟨nextFrameNum_round_down (by omega) (by omega), hrest⟩
      · exact (getLastD_append_cons _ _ _ _).trans hfin

/-- Forward the frames lie in a row up to the write position. -/
theorem Searchable.leads_after {cur : Nat} (hcur : c.isFrameValid cur = true) (hdir : dir ≠ 0) :
    Leads c dir cur (c.framesAfter cur) ∧ (cur ≠ c.u32EndFrame →
      c.nextFrameNum dir ((c.framesAfter cur).getLastD cur : Nat) = (c.u32EndFrame : Int)) := by
  have hv := CycMgr.isFrameValid_iff.mp hcur
  have hend := h.end_le
  have hpos := h.end_pos
  have hsmall := h.small
  have hshape := h.shape
  -- below the write position the search goes up one by one
  have hup : ∀ p, p < c.u32EndFrame → c.nextFrameNum dir p = ((p + 1 : Nat) : Int) :=
    fun p hp => nextFrameNum_up hdir (by omega) (by omega)
  have hrow : cur < c.u32EndFrame →
      c.framesAfter cur = List.range' (cur + 1) (c.u32EndFrame - 1 - cur) →
      Leads c dir cur (c.framesAfter cur) ∧ (cur ≠ c.u32EndFrame →
        c.nextFrameNum dir ((c.framesAfter cur).getLastD cur : Nat) = (c.u32EndFrame : Int)) := by
    intro hlt heq
    rw [heq]
    refine ⟨leads_up fun p _ _ => hup p (by omega), fun _ => ?_⟩
    rw [getLastD_up, hup _ (by omega)]
    congr
    omega
  by_cases heq : cur = c.u32EndFrame
  · have hnone : c.framesAfter cur = [] := by
      apply framesAfter_of_notMem
      intro hmem
      have := CycMgr.mem_ringWalk hmem
      omega
    rw [hnone]
    exact ⟨trivial, fun hne => absurd heq hne⟩
  cases hshape with
  | inl hlt =>
    apply hrow (by omega)
    apply framesAfter_of_split (CycMgr.ringWalk_split (by omega) (by omega))
    rw [List.mem_range'_1]
    omega
  | inr hgap =>
    by_cases hnew : cur < c.u32EndFrame
    · apply hrow hnew
      apply framesAfter_of_split (CycMgr.ringWalk_split_new (by omega) hnew)
      rw [List.mem_append, List.mem_range'_1, List.mem_range'_1]
      omega
    · -- up to the last position, and from 0 on
      have hsplit : c.framesAfter cur = List.range' (cur + 1) (c.u32LastFrame - cur) ++
          0 :: List.range' (0 + 1) (c.u32EndFrame - 1) := by
        rw [← List.range'_succ, Nat.sub_add_cancel hpos]
        apply framesAfter_of_split (CycMgr.ringWalk_split_old (by omega) (by omega) (by omega))
        rw [List.mem_range'_1]
        omega
      have hlast := getLastD_up cur (c.u32LastFrame - cur)
      rw [show cur + (c.u32LastFrame - cur) = c.u32LastFrame by omega] at hlast
      rw [hsplit]
      constructor
      · apply Leads.append
        · exact leads_up fun p _ _ => nextFrameNum_up hdir (by omega) (by omega)
        · rw [hlast]
          exact ⟨nextFrameNum_round_up hdir (by omega) (by omega),
            leads_up fun p _ _ => hup p (by omega)⟩
      · intro _
        rw [getLastD_append_cons, getLastD_up, hup _ (by omega)]
        congr
        omega

theorem Searchable.not_valid_before :
    c.isFrameValid (u32OfInt (c.nextFrameNum 0 (c.u32StartFrame : Nat))) = false := by
  have hstart := h.start_le
  have hend := h.end_le
  have hshape := h.shape
  have hsmall := h.small
  rw [← Bool.not_eq_true, CycMgr.isFrameValid_iff]
  cases hS : c.u32StartFrame with
  | zero =>
    have hnext : c.nextFrameNum 0 ((0 : Nat) : Int) = -1 := by
      unfold CycMgr.nextFrameNum
      rw [if_neg (by omega)]
      rfl
    have hbig : u32OfInt (-1) = 4294967295 := rfl
    rw [hnext, hbig]
    omega
  | succ p =>
    rw [nextFrameNum_down, u32OfInt_natCast (by omega)]
    omega

theorem Searchable.not_valid_behind (hdir : dir ≠ 0) :
    c.isFrameValid (u32OfInt (c.nextFrameNum dir (c.u32EndFrame : Nat))) = false := by
  have hstart := h.start_le
  have hend := h.end_le
  have hshape := h.shape
  have hsmall := h.small
  rw [nextFrameNum_up hdir (by omega) (by omega), u32OfInt_natCast (by omega),
    ← Bool.not_eq_true, CycMgr.isFrameValid_iff]
  omega

/-- A search that passes the first tests is its loop. -/
theorem Searchable.returns_iff {cur : Nat} (hcur : c.isFrameValid cur = true) (r : FindRes) :
    Returns (getFBwardIPBFrameNum c read dir type cur) r ↔
      Returns (fun fuel => findLoop c read dir type fuel cur 0) r := by
  have hv := CycMgr.isFrameValid_iff.mp hcur
  have hstart := h.start_le
  have hend := h.end_le
  have hsmall := h.small
  have heq : getFBwardIPBFrameNum c read dir type cur =
      fun fuel => findLoop c read dir type fuel cur 0 := by
    funext fuel
    rw [getFBwardIPBFrameNum, if_neg (by omega), hcur, s32_of_range (by omega) (by omega)]
    rfl
  rw [heq]

/-- Backward the search finds the nearest frame. -/
theorem Searchable.backward (htype : KnownType type) {cur : Nat}
    (hcur : c.isFrameValid cur = true) :
    ∃ r, Returns (getFBwardIPBFrameNum c read 0 type cur) r ∧
      ∀ num, r = .found num ↔ c.nearest read 0 type cur = some num := by
  obtain ⟨hlead, hlast⟩ := h.leads_before hcur
  have hlead' : Leads c 0 cur (c.framesFrom 0 cur) := hlead
  have halong := h.findLoop_frames htype hlead'
  simp only [h.returns_iff hcur]
  cases hnear : c.nearest read 0 type cur with
  | some num =>
    rw [hnear] at halong
    refine ⟨.found num, ⟨_, halong⟩, fun num' => ?_⟩
    rw [FindRes.found.injEq, Option.some.injEq]
  | none =>
    rw [hnear] at halong
    obtain ⟨r, hr, hloop⟩ := findLoop_invalid read type
      ((c.framesFrom 0 cur).count 0) h.not_valid_before
    refine ⟨r, ⟨1 + (c.framesFrom 0 cur).length, fun fuel => ?_⟩,
      fun num => ⟨fun heq => absurd heq (hr num), nofun⟩⟩
    show findLoop c read 0 type (fuel + (1 + _)) cur 0 = _
    rw [← Nat.add_assoc, halong]
    show findLoop c read 0 type (fuel + 1) (((c.framesBefore cur).getLastD cur : Nat) : Int) _ = _
    rw [hlast]
    exact hloop fuel

/-- Forward it finds the nearest frame, or what the write position still holds. -/
theorem Searchable.forward (htype : KnownType type) {cur : Nat}
    (hcur : c.isFrameValid cur = true) (hdir : dir ≠ 0) :
    ∃ r, Returns (getFBwardIPBFrameNum c read dir type cur) r ∧
      ∀ num, r = .found num ↔ c.nearest read dir type cur = some num ∨
        c.nearest read dir type cur = none ∧ cur ≠ c.u32EndFrame ∧
          typed read type c.u32EndFrame = true ∧ num = c.u32EndFrame := by
  have hframes : c.framesFrom dir cur = c.framesAfter cur := if_neg hdir
  obtain ⟨hlead, hlast⟩ := h.leads_after hcur hdir
  rw [← hframes] at hlead hlast
  have halong := h.findLoop_frames htype hlead
  simp only [h.returns_iff hcur]
  cases hnear : c.nearest read dir type cur with
  | some num =>
    rw [hnear] at halong
    refine ⟨.found num, ⟨_, halong⟩, fun num' => ?_⟩
    rw [FindRes.found.injEq, Option.some.injEq]
    exact ⟨.inl, fun hor => hor.elim id fun hno => nomatch hno.1⟩
  | none =>
    rw [hnear] at halong
    dsimp only at halong
    by_cases heq : cur = c.u32EndFrame
    · -- nothing lies behind the write position
      have hnil : c.framesFrom dir cur = [] := by
        rw [hframes]
        apply framesAfter_of_notMem
        intro hmem
        have hin := CycMgr.mem_ringWalk hmem
        have hshape := h.shape
        omega
      obtain ⟨r, hr, hloop⟩ := findLoop_invalid read type 0
        (h.not_valid_behind hdir)
      refine ⟨r, ⟨1, fun fuel => ?_⟩, fun num => ⟨fun hfound => absurd hfound (hr num), ?_⟩⟩
      · rw [heq]
        exact hloop fuel
      · rintro (hno | ⟨-, hne, -⟩)
        · exact nomatch hno
        · exact absurd heq hne
    · have hnext := hlast heq
      have hshape := h.shape
      have hsmall := h.small
      have hend := h.end_le
      have hpos := h.end_pos
      have hv : c.isFrameValid c.u32EndFrame = true := by
        rw [CycMgr.isFrameValid_iff]
        omega
      have hcount := List.nodup_iff_count_le_one.mp (c.nodup_framesFrom dir cur) 0
      cases hread : read c.u32EndFrame with
      | entry e =>
        obtain ⟨r, hr, hloop⟩ := findLoop_invalid read type
          ((c.framesFrom dir cur).count 0 + if c.u32EndFrame = 0 then 1 else 0)
          (h.not_valid_behind hdir)
        have hloop0 : (c.framesFrom dir cur).count 0 +
            (if c.u32EndFrame = 0 then 1 else 0) < 2 := by
          rw [if_neg (by omega)]
          omega
        have hround := findLoop_entry htype hnext (by omega) hv hread hloop0
        cases htyped : typed read type c.u32EndFrame with
        | true =>
          refine ⟨.found c.u32EndFrame, ⟨1 + (c.framesFrom dir cur).length, fun fuel => ?_⟩,
            fun num => ?_⟩
          · show findLoop c read dir type (fuel + (1 + _)) cur 0 = _
            rw [← Nat.add_assoc, halong, hround, if_pos htyped]
          · rw [FindRes.found.injEq]
            exact ⟨fun hnum => .inr ⟨rfl, heq, rfl, hnum.symm⟩,
              fun hor => hor.elim nofun fun hstale => hstale.2.2.2.symm⟩
        | false =>
          refine ⟨r, ⟨2 + (c.framesFrom dir cur).length, fun fuel => ?_⟩,
            fun num => ⟨fun hfound => absurd hfound (hr num), ?_⟩⟩
          · show findLoop c read dir type (fuel + (2 + _)) cur 0 = _
            rw [← Nat.add_assoc, halong, hround, if_neg (by simp [htyped])]
            exact hloop fuel
          · rintro (hno | ⟨-, -, hno, -⟩)
            · exact nomatch hno
            · exact nomatch hno
      | _ =>
        have hstop := findLoop_unread type ((c.framesFrom dir cur).count 0) hnext
          (by omega) hv (fun e he => nomatch hread.symm.trans he)
        refine ⟨.failure, ⟨1 + (c.framesFrom dir cur).length, fun fuel => ?_⟩,
          fun num => ⟨nofun, ?_⟩⟩
        · show findLoop c read dir type (fuel + (1 + _)) cur 0 = _
          rw [← Nat.add_assoc, halong]
          exact hstop fuel
        · rintro (hno | ⟨-, -, htyped, -⟩)
          · exact nomatch hno
          · rw [typed, hread] at htyped
            exact nomatch htyped

end

/-- The ring does not pass the search's first test. -/
def CycMgr.Bad (c : CycMgr) : Prop :=
  c.u32StartFrame > c.u32LastFrame ∨ c.u32EndFrame > c.u32LastFrame

instance : Decidable c.Bad := inferInstanceAs (Decidable (_ ∨ _))

/-- Where the search goes right: a ring that does not pass its first test holds no such
    frame, and a search forward meets a frame of the type before the write position, or no
    old entry of the type there. -/
def FindsRight (c : CycMgr) (read : Nat → ReadRes) (dir type cur : Nat) : Prop :=
  (c.Bad → c.nearest read dir type cur = none) ∧
    (¬ c.Bad → dir ≠ 0 → cur ≠ c.u32EndFrame → typed read type c.u32EndFrame = true →
      c.nearest read dir type cur ≠ none)

instance (dir type cur : Nat) : Decidable (FindsRight c read dir type cur) :=
  inferInstanceAs (Decidable ((_ → _) ∧ (_ → _ → _ → _ → _)))

theorem Searchable.finds_iff (h : Searchable c read) (htype : KnownType type) {cur : Nat}
    (hcur : c.isFrameValid cur = true) :
    FindsNearest c read dir type cur ↔ FindsRight c read dir type cur := by
  have hgood : ¬ c.Bad := not_or.mpr ⟨Nat.not_lt.mpr h.start_le, Nat.not_lt.mpr h.end_le⟩
  by_cases hdir : dir = 0
  · subst hdir
    exact iff_of_true (h.backward htype hcur)
      ⟨fun hbad => absurd hbad hgood, fun _ hne => absurd rfl hne⟩
  · obtain ⟨r, hr, hfound⟩ := h.forward htype hcur hdir
    constructor
    · rintro ⟨r', hr', hnear⟩
      refine ⟨fun hbad => absurd hbad hgood, fun _ _ hne htyped hnone => ?_⟩
      obtain rfl := hr.unique hr'
      have hstale := (hfound c.u32EndFrame).mpr (.inr ⟨hnone, hne, htyped, rfl⟩)
      exact nomatch hnone.symm.trans ((hnear _).mp hstale)
    · intro hright
      refine ⟨r, hr, fun num => (hfound num).trans ⟨?_, .inl⟩⟩
      rintro (hnear | ⟨hnone, hne, htyped, -⟩)
      · exact hnear
      · exact absurd hnone (hright.2 hgood hdir hne htyped)

/-- A ring that does not pass the first test: the search fails. -/
theorem finds_iff_of_bad {cur : Nat} (hbad : c.Bad) :
    FindsNearest c read dir type cur ↔ FindsRight c read dir type cur := by
  have hfails : Returns (getFBwardIPBFrameNum c read dir type cur) .failure :=
    ⟨0, fun _ => if_pos hbad⟩
  constructor
  · rintro ⟨r, hr, hnear⟩
    obtain rfl := hfails.unique hr
    have hnone : c.nearest read dir type cur = none :=
      Option.eq_none_iff_forall_ne_some.mpr fun num h => nomatch (hnear num).mpr h
    exact ⟨fun _ => hnone, fun hgood => absurd hbad hgood⟩
  · intro hright
    have hnone := hright.1 hbad
    exact ⟨.failure, hfails, fun num => ⟨nofun, fun h => nomatch hnone.symm.trans h⟩⟩

/-- An empty ring over an empty file. -/
theorem finds_iff_of_empty {cur : Nat} (hS : c.u32StartFrame = 0) (hE : c.u32EndFrame = 0)
    (hL : c.u32LastFrame = 0) (hread : ∀ x e, read x ≠ .entry e)
    (hcur : c.isFrameValid cur = true) :
    FindsNearest c read dir type cur ↔ FindsRight c read dir type cur := by
  -- of an empty file only number 0 is valid
  have hzero : cur = 0 := by
    have hv := CycMgr.isFrameValid_iff.mp hcur
    omega
  subst hzero
  have hnext : c.nextFrameNum dir ((0 : Nat) : Int) = ((0 : Nat) : Int) := by
    by_cases hdir : dir = 0
    · rw [hdir, nextFrameNum_round_down (by omega) (by omega), hL]
    · have hround := nextFrameNum_round_up (c := c) hdir (by omega) (by omega)
      rwa [hL] at hround
  -- it cannot be read, so the search ends at once
  have hfails : Returns (getFBwardIPBFrameNum c read dir type 0) .failure := by
    refine ⟨1, fun fuel => ?_⟩
    rw [getFBwardIPBFrameNum, if_neg (by omega), hcur]
    exact findLoop_unread type 0 hnext (by decide) hcur (hread 0) fuel
  -- and there is no frame to find
  have hnone : c.nearest read dir type 0 = none := by
    rw [CycMgr.nearest, List.find?_eq_none]
    intro x hx
    have hmem := CycMgr.mem_ringWalk (c.framesFrom_sublist dir 0 x hx)
    unfold typed
    split
    · rename_i e he
      exact absurd he (hread x e)
    · exact Bool.false_ne_true
  exact iff_of_true ⟨.failure, hfails, fun num => ⟨nofun, fun h => nomatch hnone.symm.trans h⟩⟩
    ⟨fun _ => hnone, fun _ _ hne => absurd hE.symm hne⟩

/-! ## Rings that are filled by calls that succeed -/

/-- An entry is stored for frame `p`. -/
def Stored (file : IdxFile) (p : Nat) : Prop := (file (u32 (p * sizeofEntry))).isSome = true

theorem Stored.entry {file : IdxFile} {p : Nat} (h : Stored file p) :
    ∃ e, file.read p = .entry e := by
  obtain ⟨e, he⟩ := Option.isSome_iff_exists.mp h
  exact ⟨e, by rw [IdxFile.read, he]⟩

/-- The file holds at least what `file₀` holds. -/
def Extends (file₀ file : IdxFile) : Prop := ∀ a, (file₀ a).isSome = true → (file a).isSome = true

theorem Extends.write {file₀ file : IdxFile} (h : Extends file₀ file) (num : Nat) (e : IndexEntry) :
    Extends file₀ (file.write num e) := by
  intro a ha
  by_cases hkey : a = u32 (num * sizeofEntry)
  · rw [hkey, write_self]
    rfl
  · rw [write_of_ne file e hkey]
    exact h a ha

/-- No operation takes an entry away. -/
theorem entryFile_keeps (file₀ : IdxFile) : StoreKeeps entryFile (Extends file₀) where
  read x e num h := by rwa [getEntryByNum_file]
  flush _ h := h
  correct x e num h := h.write num e
  outcomes _ _ h := h

/-- The state of an index that was filled by calls that succeeded. -/
structure Filled (s : Index IdxFile) : Prop where
  write : s.u32WriteFrame = s.stCycMgr.u32EndFrame
  new : ∀ p, p < s.stCycMgr.u32EndFrame → Stored s.store p
  old : s.stCycMgr.u32EndFrame < s.stCycMgr.u32StartFrame →
    ∀ p, s.stCycMgr.u32StartFrame ≤ p → p ≤ s.stCycMgr.u32LastFrame → Stored s.store p
  near : s.stCycMgr.u32EndFrame ≤ s.stCycMgr.u32LastFrame + 1
  start : s.stCycMgr.u32StartFrame < s.stCycMgr.u32EndFrame ∨
    s.stCycMgr.u32EndFrame + 24 ≤ s.stCycMgr.u32StartFrame ∨
    (s.stCycMgr.u32StartFrame = 0 ∧ s.stCycMgr.u32EndFrame = 0 ∧ s.stCycMgr.u32LastFrame = 0)
  empty : s.stCycMgr.u32EndFrame = 0 → ∀ a, s.store a = none
  straight : s.stCycMgr.bIsRewind = false →
    s.stCycMgr.u32LastFrame = s.stCycMgr.u32EndFrame ∧
      s.stCycMgr.u32StartFrame ≤ s.stCycMgr.u32EndFrame

/-- The start frame that the event file of a recording that does not loop hands out is one
    that was stored. -/
def SharedStart (s : Index IdxFile) (i : SaveCall) : Prop :=
  accepts s i.frame = true → s.stCycMgr.bIsRewind = false →
    i.env.startFrame.toNat ≤ s.stCycMgr.u32EndFrame

instance (s : Index IdxFile) (i : SaveCall) : Decidable (SharedStart s i) :=
  inferInstanceAs (Decidable (_ → _ → _))

theorem Filled.finish {s : Index IdxFile} (h : Filled s) (e : IndexEntry) (env : SaveEnv)
    (record : Bool) : Filled (finishFrame entryFile s e env record) := by
  have hfile := finishFrame_file s e env record
  have hkeep := finishFrame_start (s := s) e env record
  obtain ⟨store, start, count, header, t, heq, hle, hlast⟩ :=
    finishFrame_eq entryFile s e env record
  rw [heq] at hfile hkeep ⊢
  dsimp only at hfile hkeep
  subst hfile
  have hS := h.start
  by_cases hSE : s.stCycMgr.u32StartFrame ≤ s.stCycMgr.u32EndFrame
  · obtain rfl := hkeep hSE
    exact ⟨h.write, h.new, h.old, h.near, h.start, h.empty, h.straight⟩
  · refine ⟨h.write, h.new, fun _ p hp => h.old (by omega) p (Nat.le_trans hle hp), h.near, ?_,
      h.empty, fun hrew => ?_⟩
    · dsimp only
      omega
    · have := (h.straight hrew).2
      omega

/-- Where the start and the last frame are once the end has moved up. -/
theorem moveOn_ring (s : Index IdxFile) :
    (s.stCycMgr.u32LastFrame < s.stCycMgr.u32EndFrame + 1 ∧
      (moveOn s).stCycMgr.u32LastFrame = s.stCycMgr.u32LastFrame + 1 ∧
      ((moveOn s).stCycMgr.u32StartFrame = 0 ∧
          s.stCycMgr.u32LastFrame + 1 < s.stCycMgr.u32StartFrame ∨
        (moveOn s).stCycMgr.u32StartFrame = s.stCycMgr.u32StartFrame ∧
          s.stCycMgr.u32StartFrame ≤ s.stCycMgr.u32LastFrame + 1)) ∨
    (s.stCycMgr.u32EndFrame + 1 ≤ s.stCycMgr.u32LastFrame ∧
      (moveOn s).stCycMgr.u32LastFrame = s.stCycMgr.u32LastFrame ∧
      ((moveOn s).stCycMgr.u32StartFrame = 0 ∧
          s.stCycMgr.u32LastFrame < s.stCycMgr.u32StartFrame + 1 ∨
        (moveOn s).stCycMgr.u32StartFrame = s.stCycMgr.u32StartFrame + 1 ∧
          s.stCycMgr.u32StartFrame + 1 ≤ s.stCycMgr.u32LastFrame)) := by
  unfold moveOn
  dsimp only
  split
  · split <;> omega
  · split <;> omega

/-- The ring moves once the entry of a call was written. -/
theorem filled_advance {s : Index IdxFile} {env : SaveEnv} {rewinds : Bool}
    (hwrite : s.u32WriteFrame = if rewinds then 0 else s.stCycMgr.u32EndFrame)
    (hstored : Stored s.store s.u32WriteFrame)
    (hnew : ∀ p, p < s.stCycMgr.u32EndFrame → Stored s.store p)
    (hold : s.stCycMgr.u32EndFrame < s.stCycMgr.u32StartFrame →
      ∀ p, s.stCycMgr.u32StartFrame ≤ p → p ≤ s.stCycMgr.u32LastFrame → Stored s.store p)
    (hnear : s.stCycMgr.u32EndFrame ≤ s.stCycMgr.u32LastFrame + 1)
    (hS : s.stCycMgr.u32StartFrame < s.stCycMgr.u32EndFrame ∨
      s.stCycMgr.u32EndFrame + 24 ≤ s.stCycMgr.u32StartFrame ∨
      (s.stCycMgr.u32StartFrame = 0 ∧ s.stCycMgr.u32EndFrame = 0 ∧ s.stCycMgr.u32LastFrame = 0))
    (hstraight : s.stCycMgr.bIsRewind = false →
      s.stCycMgr.u32LastFrame = s.stCycMgr.u32EndFrame ∧
        s.stCycMgr.u32StartFrame ≤ s.stCycMgr.u32EndFrame)
    (hrewinds : rewinds = true → s.stCycMgr.bIsRewind = true)
    (hstart : s.stCycMgr.bIsRewind = false → env.startFrame.toNat ≤ s.stCycMgr.u32EndFrame) :
    Filled (advance s env rewinds) := by
  have hfile := advance_file s env rewinds
  -- the frames of the present cycle, once the new one is among them
  have hpush : rewinds = false → ∀ p, p < s.stCycMgr.u32EndFrame + 1 → Stored s.store p := by
    rintro rfl p hp
    by_cases heq : p = s.stCycMgr.u32EndFrame
    · rw [heq]
      rwa [hwrite] at hstored
    · exact hnew p (by omega)
  cases hrew : s.stCycMgr.bIsRewind with
  | false =>
    have hno : rewinds = false := by
      cases rewinds with
      | false => rfl
      | true => exact nomatch hrew.symm.trans (hrewinds rfl)
    subst hno
    obtain ⟨hL, hle⟩ := hstraight hrew
    have henv := hstart hrew
    rw [if_neg Bool.false_ne_true] at hwrite
    rw [advance_straight hrew] at hfile ⊢
    have hS' : (if env.startFrame.toNat > 0 then env.startFrame.toNat
        else s.stCycMgr.u32StartFrame) < s.stCycMgr.u32EndFrame + 1 := by
      split <;> omega
    refine ⟨?_, hpush rfl, fun hlt => ?_, ?_, .inl hS', nofun, fun _ => ⟨?_, ?_⟩⟩
    · exact congrArg (· + 1) hwrite
    · exact absurd hlt (Nat.not_lt.mpr (Nat.le_of_lt hS'))
    · show s.stCycMgr.u32EndFrame + 1 ≤ s.stCycMgr.u32LastFrame + 1 + 1
      omega
    · show s.stCycMgr.u32LastFrame + 1 = s.stCycMgr.u32EndFrame + 1
      omega
    · exact Nat.le_of_lt hS'
  | true =>
    cases rewinds with
    | false =>
      rw [if_neg Bool.false_ne_true] at hwrite
      rw [advance_move hrew] at hfile ⊢
      have hstep := hpush rfl
      have hmove := moveOn_ring { s with u32WriteFrame := s.u32WriteFrame + 1 }
      dsimp only at hmove
      refine ⟨congrArg (· + 1) hwrite, hstep, ?_, ?_, ?_, nofun,
        fun hno => nomatch hrew.symm.trans hno⟩
      · intro hlt p hp hpL
        have hlt' : s.stCycMgr.u32EndFrame + 1 < _ := hlt
        exact hold (by omega) p (by omega) (by omega)
      · show s.stCycMgr.u32EndFrame + 1 ≤ _
        omega
      · show _ < s.stCycMgr.u32EndFrame + 1 ∨ s.stCycMgr.u32EndFrame + 1 + 24 ≤ _ ∨ _
        omega
    | true =>
      rw [advance_start hrew] at hfile ⊢
      rw [if_pos rfl] at hwrite
      rw [hwrite] at hstored
      have hgap : (if s.enIndexType = .audio then 25 else rewindFramesGap) = 25 := by
        split <;> rfl
      refine ⟨rfl, ?_, ?_, ?_, .inr (.inl ?_), nofun, fun hno => nomatch hrew.symm.trans hno⟩
      · intro p hp
        have hp' : p < 1 := hp
        obtain rfl : p = 0 := by omega
        exact hstored
      · intro _ p hp hpL
        have hpL' : p ≤ s.stCycMgr.u32EndFrame - 1 := hpL
        have hp' : (if s.enIndexType = .audio then 25 else rewindFramesGap) ≤ p := hp
        rw [hgap] at hp'
        exact hnew p (by omega)
      · show 1 ≤ s.stCycMgr.u32EndFrame - 1 + 1
        omega
      · show 1 + 24 ≤ if s.enIndexType = .audio then 25 else rewindFramesGap
        rw [hgap]

/-- A call that succeeds keeps what is known of the ring. -/
theorem Filled.step {s : Index IdxFile} {i : SaveCall} {out : SaveOut} (h : Filled s)
    (hout : ((machine entryFile).step s i).2 = some out) (hret : out.ret = none)
    (hshared : SharedStart s i) : Filled ((machine entryFile).step s i).1 := by
  obtain ⟨hacc, -, store, lastI, hs'⟩ | ⟨hacc, s₁, offset, rewinds, record, hplace, -, -, hs'⟩ :=
    step_success entryFile hout hret
  -- a discarded frame leaves the file as it is
  · have hfile := discard_store entryFile hacc
    rw [hs'] at hfile ⊢
    dsimp only at hfile
    subst hfile
    exact ⟨h.write, h.new, h.old, h.near, h.start, h.empty, h.straight⟩
  -- finding the place of a stored frame removes no entry
  · have hp := placed entryFile hplace
    have hkeeps : Extends s.store s₁.store :=
      place_store (entryFile_keeps s.store) (fun _ ha => ha) hplace
    have hrewinds : rewinds = true → s.stCycMgr.bIsRewind = true := by
      intro hr
      have hstarts := hp.starts.symm.trans hr
      unfold startsCycle at hstarts
      exact (Bool.and_eq_true _ _ ▸ hstarts).1
    set e : IndexEntry := { i.entry s with u64Offset := offset }
    set t := afterWrite entryFile s₁ e rewinds i.u32DirectFlag
    have hfile : t.store = s₁.store.write t.u32WriteFrame e := rfl
    -- nor does writing it
    have hall : Extends s.store t.store := by
      rw [hfile]
      exact hkeeps.write _ _
    have hS : t.stCycMgr.u32StartFrame = s.stCycMgr.u32StartFrame := hp.start
    have hE : t.stCycMgr.u32EndFrame = s.stCycMgr.u32EndFrame := hp.end_
    have hL : t.stCycMgr.u32LastFrame = s.stCycMgr.u32LastFrame := hp.last
    have hrew : t.stCycMgr.bIsRewind = s.stCycMgr.bIsRewind := hp.isRewind
    rw [hs']
    apply Filled.finish
    -- what `advance` needs, read off the state after the write
    apply filled_advance
    · rw [hE, ← h.write, ← hp.write]
      rfl
    · rw [hfile, Stored, write_self]
      rfl
    · rw [hE]
      exact fun p hlt => hall _ (h.new p hlt)
    · rw [hE, hS, hL]
      exact fun hlt p h1 h2 => hall _ (h.old hlt p h1 h2)
    · rw [hE, hL]
      exact h.near
    · rw [hE, hS, hL]
      exact h.start
    · rw [hrew, hE, hS, hL]
      exact h.straight
    · rw [hrew]
      exact hrewinds
    · rw [hrew, hE]
      exact hshared hacc

theorem newIndex_filled (s : Index IdxFile) : Filled (newIndex s) where
  write := rfl
  new := fun p hp => absurd hp (Nat.not_lt_zero p)
  old := fun h => absurd h (Nat.lt_irrefl 0)
  near := Nat.zero_le _
  start := .inr (.inr ⟨rfl, rfl, rfl⟩)
  empty := fun _ _ => rfl
  straight := fun _ => ⟨rfl, Nat.le_refl 0⟩

/-- Every run of calls that succeed. -/
theorem filled_final (s : Index IdxFile) (calls : List SaveCall)
    (hok : (machine entryFile).Always (fun s i => ReturnsSuccess s i ∧ SharedStart s i)
      (newIndex s) calls) : Filled ((machine entryFile).final (newIndex s) calls) := by
  refine Machine.invariant (fun s i hI hi => ?_) (newIndex_filled s) hok
  obtain ⟨out, hout, hret⟩ := Option.map_eq_some_iff.mp hi.1
  exact hI.step hout hret hi.2

/-- The search in a ring that was filled so. -/
theorem Filled.finds_iff {s : Index IdxFile} (h : Filled s)
    (hsmall : s.stCycMgr.u32LastFrame < 2147483647) (htype : KnownType type) {cur : Nat}
    (hcur : s.stCycMgr.isFrameValid cur = true) :
    FindsNearest s.stCycMgr s.store.read dir type cur ↔
      FindsRight s.stCycMgr s.store.read dir type cur := by
  by_cases hbad : s.stCycMgr.Bad
  · exact finds_iff_of_bad hbad
  obtain ⟨hS, hE⟩ := not_or.mp hbad
  have hstart := h.start
  by_cases hzero : s.stCycMgr.u32EndFrame = 0
  · -- nothing is stored, so the start has not moved
    have hnone : ∀ p, ¬ Stored s.store p := fun p hp => by
      rw [Stored, h.empty hzero] at hp
      exact nomatch hp
    have hS0 : ¬ s.stCycMgr.u32EndFrame < s.stCycMgr.u32StartFrame := fun hlt =>
      hnone _ (h.old hlt _ (Nat.le_refl _) (Nat.not_lt.mp hS))
    refine finds_iff_of_empty (by omega) hzero (by omega) (fun x e he => hnone x ?_) hcur
    unfold IdxFile.read at he
    rw [h.empty hzero] at he
    exact nomatch he
  · apply Searchable.finds_iff _ htype hcur
    refine ⟨by omega, by omega, by omega, by omega, hsmall, fun x hx => ?_⟩
    have hmem := CycMgr.mem_ringWalk hx
    by_cases hnew : x < s.stCycMgr.u32EndFrame
    · exact (h.new x hnew).entry
    · exact (h.old (by omega) x (by omega) (by omega)).entry

/-- In the ring of every run of calls that succeed, the search from a frame finds the nearest
    frame of the type exactly where it goes right. -/
theorem getFBwardIPBFrameNum_iff (s : Index IdxFile) (calls : List SaveCall)
    (hok : (machine entryFile).Always (fun s i => ReturnsSuccess s i ∧ SharedStart s i)
      (newIndex s) calls)
    (hsmall : ((machine entryFile).final (newIndex s) calls).stCycMgr.u32LastFrame < 2147483647)
    (dir type cur : Nat) (htype : KnownType type)
    (hcur : ((machine entryFile).final (newIndex s) calls).stCycMgr.isFrameValid cur = true) :
    FindsNearest ((machine entryFile).final (newIndex s) calls).stCycMgr
        ((machine entryFile).final (newIndex s) calls).store.read dir type cur ↔
      FindsRight ((machine entryFile).final (newIndex s) calls).stCycMgr
        ((machine entryFile).final (newIndex s) calls).store.read dir type cur :=
  (filled_final s calls hok).finds_iff hsmall htype hcur

/-- Thirty I frames of ten bytes and one of the next cycle. -/
def wrappedFrames : Index IdxFile :=
  (machine entryFile).final (newIndex (loopAfter 299))
    ((List.range 31).map fun k => iFrameAt (10 * k))

/-- From frame 25 the frame behind it is found. -/
theorem getFBwardIPBFrameNum_iff_wrapped :
    FindsNearest wrappedFrames.stCycMgr wrappedFrames.store.read 1 FrameType.i.toNat 25 :=
  (getFBwardIPBFrameNum_iff (loopAfter 299) ((List.range 31).map fun k => iFrameAt (10 * k))
    (by decide +kernel) (by decide +kernel) 1 FrameType.i.toNat 25 (by decide)
    (by decide +kernel)).mpr (by decide +kernel)

/-- From the newest frame, 0, the search forward finds the write position, 1, which holds the
    frame of the cycle before. -/
theorem getFBwardIPBFrameNum_stale :
    wrappedFrames.stCycMgr.u32EndFrame = 1 ∧
      wrappedFrames.stCycMgr.nearest wrappedFrames.store.read 1 FrameType.i.toNat 0 = none ∧
      getFBwardIPBFrameNum wrappedFrames.stCycMgr wrappedFrames.store.read 1 FrameType.i.toNat 0 1 =
        some (.found 1) ∧
      ¬ FindsNearest wrappedFrames.stCycMgr wrappedFrames.store.read 1 FrameType.i.toNat 0 := by
  refine ⟨by decide +kernel, by decide +kernel, by decide +kernel, fun hfinds => ?_⟩
  have hfilled : Filled wrappedFrames := filled_final _ _ (by decide +kernel)
  have hright := (hfilled.finds_iff (by decide +kernel) (by decide) (by decide +kernel)).mp hfinds
  exact absurd hright (by decide +kernel)

end Tntsat.PvrIndex
