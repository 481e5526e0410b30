import Tntsat.Native.PvrFrmNum

/-!
# The lookup in a ring that is in order

The positions in the stream grow over the frames of this cycle, and over those of the last
cycle that are left behind them, all of which lie before the first frame of this one.  In
such a ring the bisection between the entries at the ends finds the frame at a position.

## Key results

- `entrySearch_spec`: what the bisection returns
- `getFrmNumByEntry_finds`: the lookup in a ring that is in order
- `Ordered.push`, `Ordered.wrap`: a frame that is saved leaves the ring in order
-/

namespace Tntsat.PvrIndex

/-! ## The bisection -/

/-- The frames from `lo` up to `hi` are stored at growing positions; `o` is the position of
    each frame that is stored. -/
structure Ascending (o : Nat → Option Nat) (lo hi : Nat) : Prop where
  stored : ∀ p, lo ≤ p → p < hi → ∃ x, o p = some x
  lt : ∀ p q x y, lo ≤ p → p < q → q < hi → o p = some x → o q = some y → x < y

/-- A read of frame `p` gives what is stored. -/
def ReadsAt (read : Nat → ReadRes) (o : Nat → Option Nat) (p : Nat) : Prop :=
  match o p with
  | some x => ∃ e, read p = .entry e ∧ e.u64GlobalOffset = x
  | none => read p = .atEnd

section Search

variable {read : Nat → ReadRes} {o : Nat → Option Nat} {c : CycMgr}

theorem ReadsAt.entry {p x : Nat} (h : ReadsAt read o p) (hx : o p = some x) :
    ∃ e, read p = .entry e ∧ e.u64GlobalOffset = x := by
  unfold ReadsAt at h
  rwa [hx] at h

theorem ReadsAt.atEnd {p : Nat} (h : ReadsAt read o p) (hx : o p = none) :
    read p = .atEnd := by
  unfold ReadsAt at h
  rwa [hx] at h

theorem Ascending.le {lo hi p q x y : Nat} (h : Ascending o lo hi) (hlo : lo ≤ p) (hpq : p ≤ q)
    (hhi : q < hi) (hp : o p = some x) (hq : o q = some y) : x ≤ y := by
  rcases Nat.lt_or_eq_of_le hpq with hlt | rfl
  · exact Nat.le_of_lt (h.lt p q x y hlo hlt hhi hp hq)
  · exact Nat.le_of_eq (Option.some.inj (hp.symm.trans hq))

theorem Ascending.mono {lo hi lo' hi' : Nat} (h : Ascending o lo hi) (hlo : lo ≤ lo')
    (hhi : hi' ≤ hi) : Ascending o lo' hi' where
  stored := fun p h1 h2 => h.stored p (Nat.le_trans hlo h1) (Nat.lt_of_lt_of_le h2 hhi)
  lt := fun p q x y h1 h2 h3 =>
    h.lt p q x y (Nat.le_trans hlo h1) h2 (Nat.lt_of_lt_of_le h3 hhi)

/-- The upper bound when `hi` is the first frame behind it; it is -1 when that is 0. -/
theorem s32_u32sub_one {hi : Nat} (h : hi < 2147483648) :
    s32 (u32sub hi 1 : Nat) = (hi : Int) - 1 := by
  unfold u32sub u32 s32
  rw [Int.bmod_eq_iff (by omega)]
  omega

theorem u32sub_one {n : Nat} (h0 : 0 < n) (h : n < 4294967296) : u32sub n 1 = n - 1 := by
  unfold u32sub u32
  omega

/-- What the loop returns between two bounds: the frame at the position, if that can be
    played, and nothing where no frame is at the position. -/
theorem entrySearch_spec (pos : Nat) {lo hi fuel : Nat} (h : Ascending o lo hi) (hle : lo ≤ hi)
    (hhi : hi < 2147483648) (hread : ∀ p, p < hi → ReadsAt read o p) (hfuel : hi - lo < fuel) :
    (∀ k, lo ≤ k → k < hi → o k = some pos →
      entrySearch read c pos fuel lo (u32sub hi 1) =
        some (if c.isFrameValid k then some (k : Int) else none)) ∧
    ((∀ k, lo ≤ k → k < hi → o k ≠ some pos) →
      entrySearch read c pos fuel lo (u32sub hi 1) = some none) := by
  induction fuel generalizing lo hi with
  | zero => omega
  | succ fuel ih =>
    unfold entrySearch
    rw [s32_u32sub_one hhi]
    rcases Nat.lt_or_eq_of_le hle with hlt | rfl
    · rw [s32_of_range (by omega) (by omega), if_pos (by omega)]
      -- the middle lies between the bounds
      obtain ⟨mid, hmid, hlo, hlt'⟩ : ∃ mid, u32 (lo + u32sub (u32sub hi 1) lo / 2) = mid ∧
          lo ≤ mid ∧ mid < hi := by
        refine ⟨_, rfl, ?_⟩
        unfold u32sub u32
        omega
      obtain ⟨x, hx⟩ := h.stored mid hlo hlt'
      obtain ⟨e, he, hpos⟩ := (hread mid hlt').entry hx
      simp only [hmid, he, hpos]
      split
      · -- the frame lies before the middle
        rename_i hbefore
        obtain ⟨hfound, hmissing⟩ := ih (h.mono (Nat.le_refl _) (Nat.le_of_lt hlt')) hlo
          (by omega) (fun p hp => hread p (by omega)) (by omega)
        constructor
        · intro k hk hk' hok
          refine hfound k hk ?_ hok
          by_contra hge
          have := h.le hlo (Nat.le_of_not_lt hge) hk' hx hok
          omega
        · exact fun hne => hmissing fun k hk hk' => hne k hk (by omega)
      · split
        · -- the frame lies behind the middle
          rename_i hbehind
          obtain ⟨hfound, hmissing⟩ := ih (h.mono (Nat.le_succ_of_le hlo) (Nat.le_refl _)) hlt'
            hhi hread (by omega)
          rw [u32_of_lt (by omega)]
          constructor
          · intro k hk hk' hok
            refine hfound k ?_ hk' hok
            by_contra hge
            have := h.le hk (by omega) hlt' hok hx
            omega
          · exact fun hne => hmissing fun k hk hk' => hne k (by omega) hk'
        · have hxpos : x = pos := by omega
          subst hxpos
          rw [s32_of_range (by omega) (by omega)]
          constructor
          · intro k hk hk' hok
            rcases Nat.lt_trichotomy k mid with hkm | rfl | hkm
            · exact absurd (h.lt k mid _ _ hk hkm hlt' hok hx) (Nat.lt_irrefl _)
            · rfl
            · exact absurd (h.lt mid k _ _ hlo hkm hk' hx hok) (Nat.lt_irrefl _)
          · exact fun hne => absurd hx (hne mid hlo hlt')
    · rw [s32_of_range (by omega) (by omega), if_neg (by omega)]
      exact ⟨fun k hk hk' => absurd hk' (Nat.not_lt.mpr hk), fun _ => rfl⟩

end Search

/-! ## The ring -/

/-- Where the frames of a ring lie: those of this cycle come first, at growing positions;
    the frames behind them are of earlier cycles, and those up to the last frame are in
    order as well. -/
structure Ordered (o : Nat → Option Nat) (S E L : Nat) : Prop where
  empty : E = 0 → ∀ p, o p = none
  new : Ascending o 0 E
  stale : ∀ p x y, 0 < E → E ≤ p → o p = some x → o 0 = some y → x < y
  old : E < L → Ascending o E (L + 1)
  le : E ≤ L
  start : S < E ∨ (E < S ∧ S ≤ L) ∨ (S = 0 ∧ E = 0 ∧ L = 0)

/-- A frame that can be played.  `u32EndFrame` is where the next frame goes. -/
def CycMgr.InRange (c : CycMgr) (k : Nat) : Prop := c.isFrameValid k = true ∧ k ≠ c.u32EndFrame

section Lookup

variable {read : Nat → ReadRes} {o : Nat → Option Nat} {c : CycMgr}

theorem readLastEntry_stored {num : Nat} {e : IndexEntry} (h : read num = .entry e) :
    readLastEntry read num = some (num, e) := by
  unfold readLastEntry
  rw [h]

theorem readLastEntry_atEnd {num : Nat} {e : IndexEntry} (h0 : 0 < num) (hlt : num < 4294967296)
    (h : read num = .atEnd) (he : read (num - 1) = .entry e) :
    readLastEntry read num = some (num - 1, e) := by
  unfold readLastEntry
  rw [h, u32sub_one h0 hlt]
  simp only [he]

/-- The end frame is either not there or of an earlier cycle, so the frame before it is
    taken. -/
theorem readEndEntry_before {num : Nat} {startEntry e : IndexEntry} (h0 : 0 < num)
    (hlt : num < 4294967296) (he : read (num - 1) = .entry e)
    (h : read num = .atEnd ∨ ∃ e', read num = .entry e' ∧
      e'.u64GlobalOffset < startEntry.u64GlobalOffset) :
    readEndEntry read startEntry num = some (num - 1, e) := by
  unfold readEndEntry
  rw [u32sub_one h0 hlt]
  simp only [he]
  obtain h | ⟨e', h, hbefore⟩ := h
  · rw [h]
  · rw [h]
    simp only
    rw [if_pos hbefore]

/-- The lookup of a position is right: it gives the frame that can be played and lies at the
    position, and fails where there is none. -/
def CycMgr.Finds (c : CycMgr) (o : Nat → Option Nat) (pos : Nat) (ret : Option (Option Int)) :
    Prop :=
  (∀ k, c.InRange k → o k = some pos → ret = some (some (k : Int))) ∧
    ((∀ k, c.InRange k → o k ≠ some pos) → ret = some none)

variable {fuel : Nat}

/-- The loop is right when every frame that could be meant lies between its bounds. -/
theorem searchFrom_finds (pos fuel : Nat) {lo hi mid x : Nat} (h : Ascending o lo hi)
    (hle : lo ≤ hi) (hhi : hi < 2147483648) (hread : ∀ p, p < hi → ReadsAt read o p) (hfuel : hi - lo < fuel)
    (hmid : o mid = some x) (hmid' : mid < hi)
    (hin : ∀ k, c.InRange k → o k = some pos → lo ≤ k ∧ k < hi)
    (hvalid : ∀ k, lo ≤ k → k < hi → c.isFrameValid k = true → c.InRange k) :
    c.Finds o pos (searchFrom read c pos fuel mid lo (u32sub hi 1)) := by
  obtain ⟨e, he, -⟩ := (hread mid hmid').entry hmid
  obtain ⟨hfound, hmissing⟩ := entrySearch_spec (c := c) pos h hle hhi hread hfuel
  unfold searchFrom
  simp only [he]
  constructor
  · intro k hk hok
    obtain ⟨hlo, hlt⟩ := hin k hk hok
    rw [hfound k hlo hlt hok, if_pos hk.1]
  · intro hne
    by_cases hex : ∃ k, lo ≤ k ∧ k < hi ∧ o k = some pos
    · obtain ⟨k, hlo, hlt, hok⟩ := hex
      rw [hfound k hlo hlt hok, if_neg fun hk => hne k (hvalid k hlo hlt hk) hok]
    · exact hmissing fun k hlo hlt hok => hex ⟨k, hlo, hlt, hok⟩

/-- The lookup in a ring that is not wrapped. -/
theorem getFrmNumByEntry_straight (e : IndexEntry)
    (h : Ordered o c.u32StartFrame c.u32EndFrame c.u32LastFrame)
    (hSE : c.u32StartFrame < c.u32EndFrame) (hread : ∀ p, p ≤ c.u32LastFrame → ReadsAt read o p)
    (hL : c.u32LastFrame < 2147483647) (hfuel : c.u32LastFrame + 2 ≤ fuel) :
    c.Finds o e.u64GlobalOffset (getFrmNumByEntry read c e fuel) := by
  have hle := h.le
  have hrange : ∀ k, c.InRange k ↔ c.u32StartFrame ≤ k ∧ k < c.u32EndFrame := by
    intro k
    simp only [CycMgr.InRange, CycMgr.isFrameValid, if_pos hSE, decide_eq_true_eq]
    omega
  generalize hS : c.u32StartFrame = S at *
  generalize hE : c.u32EndFrame = E at *
  generalize hLast : c.u32LastFrame = L at *
  obtain ⟨xS, hxS⟩ := h.new.stored S (Nat.zero_le _) hSE
  obtain ⟨x0, hx0⟩ := h.new.stored 0 (Nat.le_refl _) (by omega)
  obtain ⟨xB, hxB⟩ := h.new.stored (E - 1) (Nat.zero_le _) (by omega)
  have h0S := h.new.le (Nat.le_refl _) (Nat.zero_le S) hSE hx0 hxS
  obtain ⟨eS, heS, hposS⟩ := (hread S (by omega)).entry hxS
  obtain ⟨e0, he0, hpos0⟩ := (hread 0 (by omega)).entry hx0
  obtain ⟨eB, heB, hposB⟩ := (hread (E - 1) (by omega)).entry hxB
  have hend : readEndEntry read eS E = some (E - 1, eB) := by
    refine readEndEntry_before (by omega) (by omega) heB ?_
    cases hoE : o E with
    | none => exact .inl ((hread E hle).atEnd hoE)
    | some x =>
      obtain ⟨e', he', hpos'⟩ := (hread E hle).entry hoE
      have := h.stale E x x0 (by omega) (Nat.le_refl _) hoE hx0
      exact .inr ⟨e', he', by omega⟩
  -- the last frame is of an earlier cycle, or not there and the one before it is the newest
  obtain ⟨last, eL, hlast, hold⟩ : ∃ last eL, readLastEntry read L = some (last, eL) ∧
      (eL.u64GlobalOffset < x0 ∨ last = E - 1 ∧ eL = eB) := by
    cases hoL : o L with
    | none =>
      have hEL : L = E := by
        by_contra hne
        obtain ⟨x, hx⟩ := (h.old (by omega)).stored L hle (by omega)
        exact nomatch hoL.symm.trans hx
      refine ⟨L - 1, eB, readLastEntry_atEnd (by omega) (by omega) ((hread L (Nat.le_refl _)).atEnd
        hoL) (by rw [hEL]; exact heB), .inr ⟨by omega, rfl⟩⟩
    | some x =>
      obtain ⟨e', he', hpos'⟩ := (hread L (Nat.le_refl _)).entry hoL
      have := h.stale L x x0 (by omega) hle hoL hx0
      exact ⟨L, e', readLastEntry_stored he', .inl (by omega)⟩
  unfold getFrmNumByEntry
  simp only [hS, hE, hLast, heS, he0, hlast, hend]
  rw [hposS, hpos0, hposB]
  have hbefore : E - 1 = u32sub E 1 := (u32sub_one (by omega) (by omega)).symm
  -- the loop over the frames from `lo` on
  have hloop : ∀ lo mid, lo ≤ S → mid < E →
      c.Finds o e.u64GlobalOffset (searchFrom read c e.u64GlobalOffset fuel mid lo (E - 1)) := by
    intro lo mid hlo hmid
    obtain ⟨x, hx⟩ := h.new.stored mid (Nat.zero_le _) hmid
    rw [hbefore]
    refine searchFrom_finds _ _ (h.new.mono (Nat.zero_le _) (Nat.le_refl _)) (by omega) (by omega)
      (fun p hp => hread p (by omega)) (by omega) hx hmid (fun k hk _ => ?_) fun k _ hlt hk => ?_
    · have := (hrange k).mp hk
      omega
    · exact ⟨hk, by rw [hE]; exact Nat.ne_of_lt hlt⟩
  split
  · split
    · rename_i hcond
      obtain hold | ⟨rfl, rfl⟩ := hold
      · omega
      · exact hloop S _ (Nat.le_refl _) (by unfold u32sub u32; omega)
    · split
      · exact hloop 0 _ (Nat.zero_le _) (by omega)
      · rename_i hnot
        refine ⟨fun k hk hok => absurd ?_ hnot, fun _ => rfl⟩
        have hk' := (hrange k).mp hk
        obtain rfl : k = E - 1 := by omega
        have := Option.some.inj (hok.symm.trans hxB)
        have := h.new.le (Nat.le_refl _) (Nat.zero_le (E - 1)) (by omega) hx0 hxB
        omega
  · exact hloop S _ (Nat.le_refl _) (by omega)

/-- The lookup in a wrapped ring. -/
theorem getFrmNumByEntry_wrapped (e : IndexEntry)
    (h : Ordered o c.u32StartFrame c.u32EndFrame c.u32LastFrame)
    (hES : c.u32EndFrame < c.u32StartFrame) (hSL : c.u32StartFrame ≤ c.u32LastFrame)
    (hread : ∀ p, p ≤ c.u32LastFrame → ReadsAt read o p)
    (hL : c.u32LastFrame < 2147483647) (hfuel : c.u32LastFrame + 2 ≤ fuel) :
    c.Finds o e.u64GlobalOffset (getFrmNumByEntry read c e fuel) := by
  have hrange : ∀ k, c.InRange k ↔ c.u32StartFrame ≤ k ∧ k ≤ c.u32LastFrame ∨
      k < c.u32EndFrame := by
    intro k
    simp only [CycMgr.InRange, CycMgr.isFrameValid, if_neg (Nat.lt_asymm hES),
      decide_eq_true_eq]
    omega
  generalize hS : c.u32StartFrame = S at *
  generalize hE : c.u32EndFrame = E at *
  generalize hLast : c.u32LastFrame = L at *
  have hold := h.old (by omega)
  obtain ⟨xE, hxE⟩ := hold.stored E (Nat.le_refl _) (by omega)
  have hE0 : 0 < E := Nat.pos_of_ne_zero fun h0 => nomatch (h.empty h0 E).symm.trans hxE
  obtain ⟨xS, hxS⟩ := hold.stored S (Nat.le_of_lt hES) (by omega)
  obtain ⟨xL, hxL⟩ := hold.stored L (by omega) (by omega)
  obtain ⟨x0, hx0⟩ := h.new.stored 0 (Nat.le_refl _) hE0
  obtain ⟨xB, hxB⟩ := h.new.stored (E - 1) (Nat.zero_le _) (by omega)
  obtain ⟨eS, heS, hposS⟩ := (hread S (by omega)).entry hxS
  obtain ⟨eL, heL, hposL⟩ := (hread L (by omega)).entry hxL
  obtain ⟨e0, he0, hpos0⟩ := (hread 0 (by omega)).entry hx0
  obtain ⟨eB, heB, hposB⟩ := (hread (E - 1) (by omega)).entry hxB
  have hEltS := hold.lt E S xE xS (Nat.le_refl _) hES (by omega) hxE hxS
  have hLlt0 := h.stale L xL x0 hE0 (by omega) hxL hx0
  have hend : readEndEntry read eS E = some (E - 1, eB) := by
    obtain ⟨e', he', hpos'⟩ := (hread E (by omega)).entry hxE
    exact readEndEntry_before hE0 (by omega) heB (.inr ⟨e', he', by omega⟩)
  unfold getFrmNumByEntry
  simp only [hS, hE, hLast, heS, he0, readLastEntry_stored heL, hend]
  rw [hposS, hpos0, hposB, hposL, if_pos (by omega)]
  split
  · -- the frames of the last cycle that are left
    rename_i hcond
    obtain ⟨x, hx⟩ : ∃ x, o (u32sub L S / 2) = some x := by
      have hmid : u32sub L S / 2 ≤ L := by
        unfold u32sub u32
        omega
      rcases Nat.lt_or_ge (u32sub L S / 2) E with hlt | hge
      · exact h.new.stored _ (Nat.zero_le _) hlt
      · exact hold.stored _ hge (by omega)
    have hloop := searchFrom_finds (c := c) e.u64GlobalOffset fuel
      (hold.mono (Nat.le_of_lt hES) (Nat.le_refl _)) (by omega) (by omega)
      (fun p hp => hread p (by omega)) (by omega) hx (by unfold u32sub u32; omega)
      (fun k hk hok => ?_) fun k hlo hlt hk => ?_
    · rwa [u32sub_one (by omega) (by omega), Nat.add_sub_cancel] at hloop
    · -- a frame of this cycle lies behind all of those
      rcases (hrange k).mp hk with hin | hnew
      · omega
      · have := h.new.le (Nat.le_refl _) (Nat.zero_le k) hnew hx0 hok
        omega
    · exact ⟨hk, by omega⟩
  · rename_i hnot
    split
    · -- the frames of this cycle
      rename_i hcond
      obtain ⟨x, hx⟩ := h.new.stored ((E - 1) / 2) (Nat.zero_le _) (by omega)
      have hloop := searchFrom_finds (c := c) e.u64GlobalOffset fuel h.new (Nat.zero_le _)
        (by omega) (fun p hp => hread p (by omega)) (by omega) hx (by omega)
        (fun k hk hok => ?_) fun k hlo hlt hk => ?_
      · rwa [u32sub_one hE0 (by omega)] at hloop
      · rcases (hrange k).mp hk with hin | hnew
        · have := h.stale k _ x0 hE0 (by omega) hok hx0
          omega
        · omega
      · exact ⟨hk, by omega⟩
    · rename_i hnot'
      refine ⟨fun k hk hok => ?_, fun _ => rfl⟩
      rcases (hrange k).mp hk with hin | hnew
      · have := hold.le (Nat.le_of_lt hES) hin.1 (by omega) hxS hok
        have := hold.le (by omega) hin.2 (by omega) hok hxL
        omega
      · have := h.new.le (Nat.le_refl _) (Nat.zero_le k) hnew hx0 hok
        have := h.new.le (Nat.zero_le k) (by omega) (by omega) hok hxB
        omega

/-- The lookup in a ring that is in order. -/
theorem getFrmNumByEntry_finds (e : IndexEntry)
    (h : Ordered o c.u32StartFrame c.u32EndFrame c.u32LastFrame)
    (hread : ∀ p, p ≤ c.u32LastFrame → ReadsAt read o p)
    (hL : c.u32LastFrame < 2147483647) (hfuel : c.u32LastFrame + 2 ≤ fuel) :
    c.Finds o e.u64GlobalOffset (getFrmNumByEntry read c e fuel) := by
  obtain hSE | ⟨hES, hSL⟩ | ⟨hS, hE, hLast⟩ := h.start
  · exact getFrmNumByEntry_straight e h hSE hread hL hfuel
  · exact getFrmNumByEntry_wrapped e h hES hSL hread hL hfuel
  · -- nothing is stored
    have hstart : read 0 = .atEnd := (hread 0 (Nat.zero_le _)).atEnd (h.empty hE 0)
    refine ⟨fun k _ hok => (nomatch (h.empty hE k).symm.trans hok), fun _ => ?_⟩
    unfold getFrmNumByEntry
    rw [hS]
    simp only [hstart]

end Lookup

/-! ## The ring moves -/

section Moves

variable {o : Nat → Option Nat} {S E L S' pos : Nat}

theorem Ascending.congr {o' : Nat → Option Nat} {lo hi : Nat} (h : Ascending o lo hi)
    (heq : ∀ p, lo ≤ p → p < hi → o' p = o p) : Ascending o' lo hi where
  stored := by
    intro p hlo hhi
    rw [heq p hlo hhi]
    exact h.stored p hlo hhi
  lt := by
    intro p q x y hlo hpq hhi hp hq
    rw [heq p hlo (by omega)] at hp
    rw [heq q (by omega) hhi] at hq
    exact h.lt p q x y hlo hpq hhi hp hq

/-- The next frame is stored behind those of this cycle. -/
theorem Ordered.push (h : Ordered o S E L) (hnew : ∀ p x, o p = some x → x < pos)
    (hS : S' < E + 1 ∨ (E + 1 < S' ∧ S' ≤ L)) :
    Ordered (Function.update o E (some pos)) S' (E + 1) (if L < E + 1 then E + 1 else L) where
  empty := by omega
  new := by
    constructor
    -- the front now ends with the new entry
    · intro p _ hp
      by_cases hpE : p = E
      · exact ⟨pos, by rw [hpE, Function.update_self]⟩
      · rw [Function.update_of_ne hpE]
        exact h.new.stored p (Nat.zero_le _) (by omega)
    -- which lies behind all that were there
    · intro p q x y _ hpq hq hp hq'
      rw [Function.update_of_ne (by omega)] at hp
      by_cases hqE : q = E
      · rw [hqE, Function.update_self] at hq'
        exact Option.some.inj hq' ▸ hnew p x hp
      · rw [Function.update_of_ne hqE] at hq'
        exact h.new.lt p q x y (Nat.zero_le _) hpq (by omega) hp hq'
  stale := by
    -- what is left of the old cycle is behind the new entry's place
    intro p x y _ hEp hp h0
    rw [Function.update_of_ne (by omega)] at hp
    by_cases hE : 0 = E
    · rw [← hE, Function.update_self] at h0
      exact Option.some.inj h0 ▸ hnew p x hp
    · rw [Function.update_of_ne hE] at h0
      exact h.stale p x y (by omega) (by omega) hp h0
  old := by
    intro hlt
    split at hlt
    · omega
    · rw [if_neg (by assumption)]
      exact ((h.old (by omega)).mono (Nat.le_succ _) (Nat.le_refl _)).congr fun p hp _ =>
        Function.update_of_ne (by omega) ..
  le := by split <;> omega
  start := by
    have hle := h.le
    split <;> omega

/-- The next frame is the first of a new cycle. -/
theorem Ordered.wrap (h : Ordered o S E L) (hnew : ∀ p x, o p = some x → x < pos)
    (hS : 1 < S') (hS' : S' ≤ E - 1) :
    Ordered (Function.update o 0 (some pos)) S' 1 (E - 1) where
  empty := nofun
  new := by
    constructor
    · intro p _ hp
      obtain rfl : p = 0 := by omega
      exact ⟨pos, Function.update_self ..⟩
    · intro p q x y _ hpq hq
      omega
  stale := by
    intro p x y _ hp hx h0
    rw [Function.update_of_ne (by omega)] at hx
    rw [Function.update_self] at h0
    exact Option.some.inj h0 ▸ hnew p x hx
  old := by
    intro hlt
    exact (h.new.mono (Nat.zero_le _) (by omega)).congr fun p hp _ =>
      Function.update_of_ne (by omega) ..
  le := by omega
  start := .inr (.inl ⟨hS, hS'⟩)

end Moves

end Tntsat.PvrIndex
