import Mathlib.Algebra.Group.Nat.Defs
import Mathlib.Data.List.Nodup
import Tntsat.Spec.LxcIpcCounts

/-!
# The media memory of the IPC buffers

A buffer owns the memory that it needs and the memory that is parked in `release_mem` until
the server is done with it.  A descriptor that is not needed any more keeps the size and the
address of what it stood for.

## Key results

- `memory_owned`: every allocation is released once, at the last detach at the latest, and
  only what is owned and not parked is handed out, as long as no request rounds to the
  size of a descriptor that is not needed, nothing is parked at the last detach and a free
  entry is left when the server is done
- `stale_descriptor`: a request that rounds to the size of such a descriptor gets memory that
  has been released
- `parked_lost`: what is parked at the last detach is not released
-/

namespace Tntsat.LxcIpc

/-! ## What is owned -/

/-- Who has the memory at an address. -/
abbrev Live := Nat → Option Key

/-- An address that `mt_drv_mmz_release` gives back. -/
def ValidAddr (a : Nat) : Prop := a ≠ mmbAddrInvalid ∧ a ≠ 0

instance (a : Nat) : Decidable (ValidAddr a) := inferInstanceAs (Decidable (_ ∧ _))

/-- The memory behind an allocation or a release of a slot. -/
def Live.next (k : Key) (live : Live) : MmzEvent → Live
  | .alloc a => Function.update live a (some k)
  | .release a => Function.update live a none

/-- A slot releases only what it has. -/
def Live.Releases (k : Key) : Live → List MmzEvent → Prop
  | _, [] => True
  | live, .alloc a :: mmz => Releases k (live.next k (.alloc a)) mmz
  | live, .release a :: mmz => live a = some k ∧ Releases k (live.next k (.release a)) mmz

/-- The slot that a call works on. -/
def Input.key? : Input → Option Key
  | .onBuffer k _ => some k
  | .detach e => e.key?
  | _ => none

/-- The memory behind a call. -/
def Live.after (live : Live) (i : Input) (out : Outcome) : Live :=
  match i.key? with
  | some k => out.mmz.foldl (Live.next k) live
  | none => live

/-- The driver beside what is known of the run and who has the memory. -/
def owned : Machine ((Device × Watch) × Live) Input Outcome where
  step s i :=
    (((served.step s.1 i).1, s.2.after i (served.step s.1 i).2), (served.step s.1 i).2)

/-- The calls are well formed, and the media memory hands out what nobody has. -/
def MemoryFormed (s : (Device × Watch) × Live) (i : Input) : Prop :=
  WellFormed s.1 i ∧
    match i with
    | .onBuffer _ (.resize _ _ inAddr outAddr) =>
      (ValidAddr inAddr ∧ s.2 inAddr = none) ∧ (ValidAddr outAddr ∧ s.2 outAddr = none) ∧
        inAddr ≠ outAddr
    | _ => True

/-- What is parked in `release_mem`. -/
def parked (release_mem : List MmzBuffer) : List Nat :=
  (release_mem.filter (·.size ≠ 0)).map MmzBuffer.startPhyAddr

/-- The addresses that a call hands out. -/
def handedOut (i : Input) (out : Outcome) : List Nat :=
  match i, out.ret with
  | .onBuffer _ (.resize ..), .ok user => [user.in_phys_addr, user.out_phys_addr]
  | .onBuffer _ .acceptReturn, .ok user => [user.in_phys_addr, user.out_phys_addr]
  | _, _ => []

/-- What is expected of a call: it releases what its slot has, it hands out what its slot
    has and no buffer has parked, and when the last end detaches its slot has nothing left. -/
structure MemoryOk (s : (Device × Watch) × Live) (i : Input) : Prop where
  releases : ∀ k ∈ i.key?, s.2.Releases k (owned.step s i).2.mmz
  hands : ∀ k ∈ i.key?, ∀ a ∈ handedOut i (owned.step s i).2, a ≠ 0 →
    (owned.step s i).1.2 a = some k ∧
      ∀ k' buf, (owned.step s i).1.1.1.at k' = some buf → a ∉ parked buf.release_mem
  last : ∀ e k, i = .detach e → e.key? = some k → (owned.step s i).1.1.1.at k = none →
    ∀ a, (owned.step s i).1.2 a ≠ some k

/-- A request that is not taken for the size of a descriptor that is not needed. -/
def Fresh (need : Bool) (m : MmzBuffer) (size : Nat) : Prop :=
  size ≠ 0 → roundSize size ≠ 0 ∧ (need = false → m.size ≠ roundSize size)

instance (need : Bool) (m : MmzBuffer) (size : Nat) : Decidable (Fresh need m size) :=
  inferInstanceAs (Decidable (_ → _ ∧ _))

/-- The condition on a buffer before a call: no request rounds to nothing or to the size of a
    descriptor that is not needed, a free entry ends the loop of `LXC_IPC_DONE`, and
    nothing is parked when the last end detaches. -/
def BufferFit (i : Input) (buf : Buffer) : Prop :=
  match i with
  | .onBuffer _ (.resize in_size out_size _ _) =>
    Fresh buf.in_buf_need buf.in_sMBuf in_size ∧ Fresh buf.out_buf_need buf.out_sMBuf out_size
  | .onBuffer _ .done => ∃ m ∈ buf.release_mem, m.size = 0
  | .detach _ => buf.buf_cnt ≤ 1 → parked buf.release_mem = []
  | _ => True

instance (buf : Buffer) : (i : Input) → Decidable (BufferFit i buf)
  | .onBuffer _ (.resize _ _ _ _) => inferInstanceAs (Decidable (_ ∧ _))
  | .onBuffer _ .done => inferInstanceAs (Decidable (∃ m ∈ buf.release_mem, _))
  | .detach _ => inferInstanceAs (Decidable (_ → _))
  | .onBuffer _ (.call _) => inferInstanceAs (Decidable True)
  | .onBuffer _ .callReturn => inferInstanceAs (Decidable True)
  | .onBuffer _ .accept => inferInstanceAs (Decidable True)
  | .onBuffer _ .acceptWake => inferInstanceAs (Decidable True)
  | .onBuffer _ .acceptReturn => inferInstanceAs (Decidable True)
  | .attachServer _ => inferInstanceAs (Decidable True)
  | .attachClient _ _ => inferInstanceAs (Decidable True)
  | .listen _ => inferInstanceAs (Decidable True)
  | .listenWake _ => inferInstanceAs (Decidable True)
  | .listenReturn _ => inferInstanceAs (Decidable True)

/-- The condition holds of the buffer that the call works on. -/
def MemoryFit (s : (Device × Watch) × Live) (i : Input) : Prop :=
  ∀ k ∈ i.key?, ∀ buf ∈ s.1.1.at k, BufferFit i buf

instance (s : (Device × Watch) × Live) (i : Input) : Decidable (MemoryFit s i) :=
  inferInstanceAs (Decidable (∀ k ∈ i.key?, ∀ buf ∈ s.1.1.at k, BufferFit i buf))

instance (s : (Device × Watch) × Live) : (i : Input) → Decidable (MemoryFormed s i)
  | .onBuffer _ (.resize _ _ _ _) => inferInstanceAs (Decidable (_ ∧ _))
  | .onBuffer _ .done => inferInstanceAs (Decidable (_ ∧ True))
  | .onBuffer _ (.call _) => inferInstanceAs (Decidable (_ ∧ True))
  | .onBuffer _ .callReturn => inferInstanceAs (Decidable (_ ∧ True))
  | .onBuffer _ .accept => inferInstanceAs (Decidable (_ ∧ True))
  | .onBuffer _ .acceptWake => inferInstanceAs (Decidable (_ ∧ True))
  | .onBuffer _ .acceptReturn => inferInstanceAs (Decidable (_ ∧ True))
  | .detach _ => inferInstanceAs (Decidable (_ ∧ True))
  | .attachServer _ => inferInstanceAs (Decidable (_ ∧ True))
  | .attachClient _ _ => inferInstanceAs (Decidable (_ ∧ True))
  | .listen _ => inferInstanceAs (Decidable (_ ∧ True))
  | .listenWake _ => inferInstanceAs (Decidable (_ ∧ True))
  | .listenReturn _ => inferInstanceAs (Decidable (_ ∧ True))

/-! ## Allocations and releases -/

theorem live_allocs (k : Key) (l : List Nat) (live : Live) (a : Nat) :
    (l.map MmzEvent.alloc).foldl (Live.next k) live a = if a ∈ l then some k else live a := by
  induction l generalizing live with
  | nil => simp
  | cons b l ih =>
    rw [List.map_cons, List.foldl_cons, ih, Live.next, Function.update_apply]
    by_cases hl : a ∈ l
    · simp [hl]
    · by_cases hb : a = b <;> simp [hl, hb]

theorem releases_allocs (k : Key) (l : List Nat) (live : Live) :
    live.Releases k (l.map MmzEvent.alloc) := by
  induction l generalizing live with
  | nil => trivial
  | cons b l ih => exact ih _

theorem live_releases (k : Key) (l : List Nat) (live : Live) (a : Nat) :
    (l.map MmzEvent.release).foldl (Live.next k) live a = if a ∈ l then none else live a := by
  induction l generalizing live with
  | nil => simp
  | cons b l ih =>
    rw [List.map_cons, List.foldl_cons, ih, Live.next, Function.update_apply]
    by_cases hl : a ∈ l
    · simp [hl]
    · by_cases hb : a = b <;> simp [hl, hb]

theorem releases_releases {k : Key} {l : List Nat} {live : Live} (hl : l.Nodup)
    (hlive : ∀ a ∈ l, live a = some k) : live.Releases k (l.map MmzEvent.release) := by
  induction l generalizing live with
  | nil => trivial
  | cons b l ih =>
    rw [List.nodup_cons] at hl
    refine ⟨hlive b List.mem_cons_self, ih hl.2 fun a ha => ?_⟩
    have hne : a ≠ b := fun heq => hl.1 (heq ▸ ha)
    rw [Live.next, Function.update_of_ne hne]
    exact hlive a (List.mem_cons_of_mem _ ha)

/-! ## `release_mem` -/

/-- The memory of a descriptor that is needed. -/
def needed (need : Bool) (m : MmzBuffer) : List Nat := if need then [m.startPhyAddr] else []

/-- The memory of a buffer. -/
def ownedBy (buf : Buffer) : List Nat :=
  needed buf.in_buf_need buf.in_sMBuf ++ needed buf.out_buf_need buf.out_sMBuf ++
    parked buf.release_mem

/-- Nothing is parked behind a free entry. -/
def Packed : List MmzBuffer → Prop
  | [] => True
  | m :: release_mem => (m.size = 0 → parked release_mem = []) ∧ Packed release_mem

theorem parked_cons (m : MmzBuffer) (release_mem : List MmzBuffer) :
    parked (m :: release_mem) =
      if m.size = 0 then parked release_mem else m.startPhyAddr :: parked release_mem := by
  rw [parked, List.filter_cons]
  by_cases h : m.size = 0 <;> simp [h, parked]

theorem lazyRelease_spec {l l' : List MmzBuffer} {p : MmzBuffer} (hp : p.size ≠ 0)
    (hl : Packed l) (h : lazyRelease l p = some l') :
    (parked l').Perm (p.startPhyAddr :: parked l) ∧ Packed l' := by
  induction l generalizing l' with
  | nil => exact nomatch h
  | cons m l ih =>
    rw [lazyRelease] at h
    split at h
    · rename_i hm
      cases h
      rw [parked_cons, parked_cons, if_neg hp, if_pos hm]
      exact ⟨.refl _, fun hzero => absurd hzero hp, hl.2⟩
    · rename_i hm
      obtain ⟨rest, hrest, rfl⟩ := Option.map_eq_some_iff.mp h
      obtain ⟨hperm, hpacked⟩ := ih hl.2 hrest
      rw [parked_cons, parked_cons, if_neg hm, if_neg hm]
      exact ⟨(hperm.cons _).trans (.swap ..), fun hzero => absurd hzero hm, hpacked⟩

theorem mmzRelease_valid {m : MmzBuffer} (h : ValidAddr m.startPhyAddr) :
    mmzRelease m =
      ({ startPhyAddr := mmbAddrInvalid, size := 0 }, [.release m.startPhyAddr]) := if_pos h

theorem releaseAll_spec {l : List MmzBuffer} (hl : Packed l) (hvalid : ∀ a ∈ parked l, ValidAddr a) :
    (releaseAll l).2 = (parked l).map MmzEvent.release ∧ parked (releaseAll l).1 = [] ∧
      Packed (releaseAll l).1 := by
  induction l with
  | nil => exact ⟨rfl, rfl, trivial⟩
  | cons m l ih =>
    rw [releaseAll]
    by_cases hm : m.size = 0
    · have hnone := hl.1 hm
      rw [if_pos hm, parked_cons, if_pos hm, hnone]
      exact ⟨rfl, rfl, hl⟩
    · rw [parked_cons, if_neg hm] at hvalid
      obtain ⟨hmmz, hparked, hpacked⟩ := ih hl.2 fun a ha => hvalid a (List.mem_cons_of_mem _ ha)
      have hm' := hvalid m.startPhyAddr List.mem_cons_self
      rw [if_neg hm, mmzRelease_valid hm', parked_cons m, if_neg hm]
      dsimp only
      rw [hmmz, parked_cons, if_pos rfl]
      exact ⟨rfl, hparked, fun _ => hparked, hpacked⟩

/-! ## The calls on a buffer -/

/-- What holds of a buffer: it owns nothing twice, and what is needed or parked can be
    released. -/
structure BufferOk (buf : Buffer) : Prop where
  nodup : (ownedBy buf).Nodup
  valid : ∀ a ∈ ownedBy buf, ValidAddr a
  in_size : buf.in_buf_need = true → buf.in_sMBuf.size ≠ 0
  out_size : buf.out_buf_need = true → buf.out_sMBuf.size ≠ 0
  packed : Packed buf.release_mem

/-- One of the two buffers of a request: it gets new memory or keeps what it has, and nothing
    is lost. -/
theorem resizeBuf_spec {need need' : Bool} {m m' : MmzBuffer} {l l' : List MmzBuffer}
    {size a : Nat} {mmz : List MmzEvent} (hfresh : Fresh need m size)
    (hsize : need = true → m.size ≠ 0) (hl : Packed l)
    (h : resizeBuf need m l size a = some (need', m', l', mmz)) :
    ∃ allocs, mmz = allocs.map MmzEvent.alloc ∧ (allocs = [] ∨ allocs = [a]) ∧
      (needed need' m' ++ parked l').Perm (allocs ++ (needed need m ++ parked l)) ∧
      (need' = true → m'.size ≠ 0) ∧ Packed l' := by
  -- what `lazyRelease` does when the descriptor is needed
  have hlazy : ∀ l', (if need then lazyRelease l m else some l) = some l' →
      (parked l').Perm (needed need m ++ parked l) ∧ Packed l' := by
    intro l' hl'
    cases need with
    | false =>
      cases hl'
      exact ⟨.refl _, hl⟩
    | true => exact lazyRelease_spec (hsize rfl) hl hl'
  rw [resizeBuf] at h
  split at h
  · obtain ⟨l₁, hl₁, heq⟩ := Option.map_eq_some_iff.mp h
    cases heq
    obtain ⟨hperm, hpacked⟩ := hlazy _ hl₁
    exact ⟨[], rfl, .inl rfl, hperm, nofun, hpacked⟩
  · rename_i hnz
    split at h
    · obtain ⟨l₁, hl₁, heq⟩ := Option.map_eq_some_iff.mp h
      cases heq
      obtain ⟨hperm, hpacked⟩ := hlazy _ hl₁
      refine ⟨[a], rfl, .inr rfl, ?_, fun _ hzero => ?_, hpacked⟩
      · exact hperm.cons a
      · dsimp only at hzero
        exact (hfresh hnz).1 hzero
    · rename_i hsame
      cases h
      cases need with
      | false => exact absurd (Decidable.not_not.mp hsame) ((hfresh hnz).2 rfl)
      | true => exact ⟨[], rfl, .inl rfl, .refl _, hsize, hl⟩

/-- What a slot has before and behind a call: it gets what is allocated, or it gives back
    what is released. -/
inductive Moves (before : List Nat) (mmz : List MmzEvent) (behind : List Nat) : Prop
  | allocs (l : List Nat) (hl : l.Nodup) (hmmz : mmz = l.map MmzEvent.alloc)
      (hperm : behind.Perm (l ++ before))
  | releases (l : List Nat) (hmmz : mmz = l.map MmzEvent.release)
      (hperm : before.Perm (l ++ behind))

/-- A call that leaves the media memory alone. -/
theorem Moves.none (l : List Nat) : Moves l [] l :=
  .allocs [] List.nodup_nil rfl (.refl _)

/-- The addresses that a call can allocate. -/
def BufferCall.addrs : BufferCall → List Nat
  | .resize _ _ inAddr outAddr => [inAddr, outAddr]
  | _ => []

theorem resize_spec {buf : Buffer} {in_size out_size : Nat} (k : Key) (inAddr outAddr : Nat)
    (h : BufferOk buf) (hin : Fresh buf.in_buf_need buf.in_sMBuf in_size)
    (hout : Fresh buf.out_buf_need buf.out_sMBuf out_size) :
    let r := resize { k.user with in_size, out_size } inAddr outAddr buf
    ∃ allocs, r.2.mmz = allocs.map MmzEvent.alloc ∧ allocs.Sublist [inAddr, outAddr] ∧
      (ownedBy r.1).Perm (allocs ++ ownedBy buf) ∧
      (r.1.in_buf_need = true → r.1.in_sMBuf.size ≠ 0) ∧
      (r.1.out_buf_need = true → r.1.out_sMBuf.size ≠ 0) ∧ Packed r.1.release_mem := by
  simp only [resize]
  -- the buffer of the input first, then that of the output
  cases hfirst : resizeBuf buf.in_buf_need buf.in_sMBuf buf.release_mem in_size inAddr with
  | none => exact ⟨[], rfl, List.nil_sublist _, .refl _, h.in_size, h.out_size, h.packed⟩
  | some r =>
    obtain ⟨in_need, in_m, l₁, mmz₁⟩ := r
    obtain ⟨allocs₁, rfl, hone₁, hperm₁, hsize₁, hpacked₁⟩ :=
      resizeBuf_spec hin h.in_size h.packed hfirst
    have hperm : (needed in_need in_m ++ needed buf.out_buf_need buf.out_sMBuf ++ parked l₁).Perm
        (allocs₁ ++ ownedBy buf) := by
      rw [List.perm_iff_count] at hperm₁ ⊢
      intro a
      have hcount := hperm₁ a
      simp only [ownedBy, List.count_append] at hcount ⊢
      omega
    have hsub : allocs₁.Sublist [inAddr, outAddr] := by
      rcases hone₁ with rfl | rfl
      · exact List.nil_sublist _
      · exact .cons_cons _ (List.nil_sublist _)
    dsimp only
    cases hsecond : resizeBuf buf.out_buf_need buf.out_sMBuf l₁ out_size outAddr with
    | none => exact ⟨allocs₁, rfl, hsub, hperm, hsize₁, h.out_size, hpacked₁⟩
    | some r =>
      obtain ⟨out_need, out_m, l₂, mmz₂⟩ := r
      obtain ⟨allocs₂, rfl, hone₂, hperm₂, hsize₂, hpacked₂⟩ :=
        resizeBuf_spec hout h.out_size hpacked₁ hsecond
      refine ⟨allocs₁ ++ allocs₂, (List.map_append ..).symm, ?_, ?_, hsize₁, hsize₂, hpacked₂⟩
      · rcases hone₁ with rfl | rfl <;> rcases hone₂ with rfl | rfl <;> simp
      · rw [List.perm_iff_count] at hperm hperm₂ ⊢
        intro a
        have hcount := hperm a
        have hcount₂ := hperm₂ a
        simp only [ownedBy, List.count_append] at hcount hcount₂ ⊢
        omega

/-- What a call on a buffer does to the memory of its slot. -/
theorem run_moves {k : Key} {c : BufferCall} {buf : Buffer} (h : BufferOk buf)
    (hfit : BufferFit (.onBuffer k c) buf) (haddrs : c.addrs.Nodup) :
    Moves (ownedBy buf) (c.run k buf).2.mmz (ownedBy (c.run k buf).1) ∧
      (∀ a, .alloc a ∈ (c.run k buf).2.mmz → a ∈ c.addrs) ∧
      ((c.run k buf).1.in_buf_need = true → (c.run k buf).1.in_sMBuf.size ≠ 0) ∧
      ((c.run k buf).1.out_buf_need = true → (c.run k buf).1.out_sMBuf.size ≠ 0) ∧
      Packed (c.run k buf).1.release_mem := by
  -- only a resize allocates, and only `done` releases
  cases c with
  | resize in_size out_size inAddr outAddr =>
    obtain ⟨allocs, hmmz, hsub, hperm, hsizes⟩ :=
      resize_spec k inAddr outAddr h hfit.1 hfit.2
    refine ⟨.allocs allocs (haddrs.sublist hsub) hmmz hperm, fun a ha => ?_, hsizes⟩
    rw [BufferCall.run, hmmz] at ha
    exact hsub.subset (by simpa using ha)
  | done =>
    have hvalid : ∀ a ∈ parked buf.release_mem, ValidAddr a :=
      fun a ha => h.valid a (List.mem_append_right _ ha)
    obtain ⟨hmmz, hparked, hpacked⟩ := releaseAll_spec h.packed hvalid
    refine ⟨.releases (parked buf.release_mem) hmmz ?_, ?_, h.in_size, h.out_size, hpacked⟩
    · simp only [BufferCall.run, LxcIpc.done, ownedBy, hparked, List.append_nil]
      exact List.perm_append_comm
    · intro a ha
      rw [BufferCall.run, LxcIpc.done] at ha
      dsimp only at ha
      rw [hmmz] at ha
      simp at ha
  | _ => exact ⟨Moves.none _, fun _ hnil => absurd hnil List.not_mem_nil, h.in_size, h.out_size, h.packed⟩

/-- What the last detach gives back: the memory that is needed. -/
theorem freeBuffer_eq {buf : Buffer} (h : BufferOk buf) :
    freeBuffer buf =
      (needed buf.in_buf_need buf.in_sMBuf ++ needed buf.out_buf_need buf.out_sMBuf).map
        MmzEvent.release := by
  -- a descriptor that is needed gives back its memory
  have hone : ∀ {need : Bool} {m : MmzBuffer}, (∀ a ∈ needed need m, ValidAddr a) →
      (if need then (mmzRelease m).2 else []) = (needed need m).map MmzEvent.release := by
    intro need m hvalid
    cases need with
    | false => rfl
    | true =>
      have hm : ValidAddr m.startPhyAddr := hvalid _ (List.mem_singleton.mpr rfl)
      rw [if_pos rfl, mmzRelease_valid hm]
      rfl
  have hin := hone fun a ha => h.valid a (List.mem_append_left _ (List.mem_append_left _ ha))
  have hout := hone fun a ha => h.valid a (List.mem_append_left _ (List.mem_append_right _ ha))
  rw [freeBuffer, List.map_append, hin, hout]

theorem freeBuffer_moves {buf : Buffer} (h : BufferOk buf)
    (hparked : parked buf.release_mem = []) : Moves (ownedBy buf) (freeBuffer buf) [] := by
  refine .releases (ownedBy buf) ?_ (by simp)
  rw [freeBuffer_eq h, ownedBy, hparked, List.append_nil]

/-- Who has the memory behind a call on a slot. -/
theorem Moves.live {before behind : List Nat} {mmz : List MmzEvent} {k : Key} {live : Live}
    (h : Moves before mmz behind) (hlive : ∀ a, live a = some k ↔ a ∈ before)
    (hnodup : before.Nodup) (hvalid : ∀ a ∈ before, ValidAddr a)
    (hfresh : ∀ a, .alloc a ∈ mmz → live a = Option.none ∧ ValidAddr a) :
    live.Releases k mmz ∧ behind.Nodup ∧ (∀ a ∈ behind, ValidAddr a) ∧
      (∀ a, mmz.foldl (Live.next k) live a = some k ↔ a ∈ behind) ∧
      ∀ k' ≠ k, ∀ a, mmz.foldl (Live.next k) live a = some k' ↔ live a = some k' := by
  cases h with
  | allocs l hl hmmz hperm =>
    subst hmmz
    have hfree : ∀ a ∈ l, live a = Option.none ∧ ValidAddr a :=
      fun a ha => hfresh a (List.mem_map_of_mem ha)
    -- what is allocated was free, so it is new to this buffer
    refine ⟨releases_allocs k l live, ?_, ?_, fun a => ?_, fun k' hk a => ?_⟩
    · refine hperm.nodup_iff.mpr (hl.append hnodup fun a ha hb => ?_)
      have hnone := (hfree a ha).1
      rw [(hlive a).mpr hb] at hnone
      exact nomatch hnone
    · intro a ha
      rcases List.mem_append.mp (hperm.subset ha) with ha | ha
      · exact (hfree a ha).2
      · exact hvalid a ha
    · rw [live_allocs, hperm.mem_iff, List.mem_append]
      split
      · rename_i ha
        simp [ha]
      · rename_i ha
        simp [ha, hlive]
    · rw [live_allocs]
      split
      · rename_i ha
        simp [(hfree a ha).1, Ne.symm hk]
      · rfl
  | releases l hmmz hperm =>
    subst hmmz
    have hnodup' := hperm.nodup_iff.mp hnodup
    -- what is released was this buffer's, and is in it no more
    have hl : l.Nodup := hnodup'.of_append_left
    have hhave : ∀ a ∈ l, live a = some k :=
      fun a ha => (hlive a).mpr (hperm.mem_iff.mpr (List.mem_append_left _ ha))
    refine ⟨releases_releases hl hhave, hnodup'.of_append_right, ?_, fun a => ?_, fun k' hk a => ?_⟩
    · exact fun a ha => hvalid a (hperm.mem_iff.mpr (List.mem_append_right _ ha))
    · rw [live_releases]
      split
      · rename_i ha
        have hnot : a ∉ behind := fun hb => List.disjoint_of_nodup_append hnodup' ha hb
        simp [hnot]
      · rename_i ha
        rw [hlive, hperm.mem_iff, List.mem_append, or_iff_right ha]
    · rw [live_releases]
      split
      · rename_i ha
        simp [hhave a ha, Ne.symm hk]
      · rfl

/-! ## Steps -/

/-- The memory of a slot. -/
def memoryOf (buf : Option Buffer) : List Nat := buf.elim [] ownedBy

/-- Every slot has the memory of its buffer. -/
structure Owns (dev : Device) (w : Watch) (live : Live) : Prop where
  counted : Counted dev w
  buffers : ∀ k buf, dev.at k = some buf → BufferOk buf
  live : ∀ k a, live a = some k ↔ a ∈ memoryOf (dev.at k)

/-- A call that keeps the memory of every slot. -/
theorem Owns.same {dev dev' : Device} {w w' : Watch} {live : Live} (h : Owns dev w live)
    (hcounted : Counted dev' w') (hbuffers : ∀ k buf, dev'.at k = some buf → BufferOk buf)
    (hmemory : ∀ k, memoryOf (dev'.at k) = memoryOf (dev.at k)) : Owns dev' w' live :=
  ⟨hcounted, hbuffers, fun k a => by rw [h.live, hmemory]⟩

theorem Owns.quiet {dev dev' : Device} {w w' : Watch} {live : Live} {name : Name}
    (h : Owns dev w live) (hcounted : Counted dev' w') (hd : Quiet dev dev' name) :
    Owns dev' w' live :=
  h.same hcounted (fun k buf hat => h.buffers k buf (hd.at_eq k ▸ hat)) fun k => by rw [hd.at_eq]

/-- A call on a slot that keeps what the buffer owns. -/
theorem Owns.touch {dev dev' : Device} {w w' : Watch} {live : Live} {k : Key}
    (h : Owns dev w live) (hcounted : Counted dev' w') (hd : Elsewhere dev dev' k)
    (hmemory : memoryOf (dev'.at k) = memoryOf (dev.at k))
    (hok : ∀ buf, dev'.at k = some buf → BufferOk buf) : Owns dev' w' live := by
  refine h.same hcounted (fun k' buf hat => ?_) fun k' => ?_
  · by_cases hk : k' = k
    · subst hk
      exact hok buf hat
    · exact h.buffers k' buf (hd.at_ne hk ▸ hat)
  · by_cases hk : k' = k
    · subst hk
      exact hmemory
    · rw [hd.at_ne hk]

/-- A call on a slot whose buffer is there. -/
theorem Owns.moves {dev dev' : Device} {w w' : Watch} {live : Live} {k : Key} {buf : Buffer}
    {mmz : List MmzEvent} (h : Owns dev w live) (hcounted : Counted dev' w')
    (hat : dev.at k = some buf) (hd : Elsewhere dev dev' k)
    (hmoves : Moves (ownedBy buf) mmz (memoryOf (dev'.at k)))
    (hfresh : ∀ a, .alloc a ∈ mmz → live a = none ∧ ValidAddr a)
    (hok : ∀ buf', dev'.at k = some buf' → (ownedBy buf').Nodup →
      (∀ a ∈ ownedBy buf', ValidAddr a) → BufferOk buf') :
    live.Releases k mmz ∧ Owns dev' w' (mmz.foldl (Live.next k) live) := by
  have hbuf := h.buffers k buf hat
  have hlive : ∀ a, live a = some k ↔ a ∈ ownedBy buf := by
    intro a
    rw [h.live, hat]
    rfl
  obtain ⟨hreleases, hnodup, hvalid, hself, hother⟩ :=
    hmoves.live hlive hbuf.nodup hbuf.valid hfresh
  refine ⟨hreleases, hcounted, fun k' buf' hat' => ?_, fun k' a => ?_⟩
  -- the buffer of the call, and all others
  · by_cases hk : k' = k
    · subst hk
      rw [hat'] at hnodup hvalid
      exact hok buf' hat' hnodup hvalid
    · exact h.buffers k' buf' (hd.at_ne hk ▸ hat')
  · by_cases hk : k' = k
    · subst hk
      exact hself a
    · rw [hother k' hk, hd.at_ne hk]
      exact h.live k' a

theorem sizes_needed {buf : Buffer} (user : User) {a : Nat}
    (ha : a ∈ [(sizes buf user).in_phys_addr, (sizes buf user).out_phys_addr]) (hzero : a ≠ 0) :
    a ∈ needed buf.in_buf_need buf.in_sMBuf ++ needed buf.out_buf_need buf.out_sMBuf := by
  rw [List.mem_append]
  simp only [sizes, List.mem_cons, List.not_mem_nil, or_false] at ha
  rcases ha with rfl | rfl
  · left
    cases hneed : buf.in_buf_need <;> simp_all [needed]
  · right
    cases hneed : buf.out_buf_need <;> simp_all [needed]

/-- A request that succeeds returns the sizes and addresses of the buffer behind it. -/
theorem resize_ret (user : User) (inAddr outAddr : Nat) (buf : Buffer) :
    (resize user inAddr outAddr buf).2.ret = .error .enomem ∨
      (resize user inAddr outAddr buf).2.ret =
        .ok (sizes (resize user inAddr outAddr buf).1 user) := by
  rw [resize]
  split
  · exact .inl rfl
  · dsimp only
    split
    · exact .inl rfl
    · exact .inr rfl

/-- What a request or a server gets is needed by the buffer. -/
theorem handedOut_needed {k : Key} {c : BufferCall} {buf : Buffer} {a : Nat}
    (ha : a ∈ handedOut (.onBuffer k c) (c.run k buf).2) (hzero : a ≠ 0) :
    a ∈ needed (c.run k buf).1.in_buf_need (c.run k buf).1.in_sMBuf ++
      needed (c.run k buf).1.out_buf_need (c.run k buf).1.out_sMBuf := by
  cases c with
  | resize in_size out_size inAddr outAddr =>
    rcases resize_ret { k.user with in_size, out_size } inAddr outAddr buf with hret | hret
    · simp only [handedOut, BufferCall.run, hret, List.not_mem_nil] at ha
    · simp only [handedOut, BufferCall.run, hret] at ha
      exact sizes_needed _ ha hzero
  | acceptReturn => exact sizes_needed k.user ha hzero
  | _ => cases ha

/-- What is needed is not parked, neither in this buffer nor in another. -/
theorem Owns.not_parked {dev : Device} {w : Watch} {live : Live} {k k' : Key} {buf buf' : Buffer}
    {a : Nat} (h : Owns dev w live) (hat : dev.at k = some buf)
    (ha : a ∈ needed buf.in_buf_need buf.in_sMBuf ++ needed buf.out_buf_need buf.out_sMBuf)
    (hat' : dev.at k' = some buf') : live a = some k ∧ a ∉ parked buf'.release_mem := by
  have hlive : live a = some k := by
    rw [h.live, hat]
    exact List.mem_append_left _ ha
  refine ⟨hlive, fun hparked => ?_⟩
  have hother : live a = some k' := by
    rw [h.live, hat']
    exact List.mem_append_right _ hparked
  rw [hlive] at hother
  cases hother
  rw [hat] at hat'
  cases hat'
  exact List.disjoint_of_nodup_append (h.buffers k buf hat).nodup ha hparked

theorem ownedBy_fresh : BufferOk { buf_cnt := 1 } := by
  have hnone : ownedBy { buf_cnt := 1 } = [] := by decide
  refine ⟨?_, ?_, nofun, nofun, ?_⟩
  · rw [hnone]
    exact List.nodup_nil
  · rw [hnone]
    exact fun _ => nofun
  · simp [Packed, lxcIpcBufferResizeMax, List.replicate, parked]

/-- A call on a buffer. -/
theorem Owns.onBuffer {dev : Device} {w : Watch} {live : Live} {k : Key} {c : BufferCall}
    (h : Owns dev w live) (hi : MemoryFormed ((dev, w), live) (.onBuffer k c))
    (hc : MemoryFit ((dev, w), live) (.onBuffer k c))
    (hcounted : Counted (serve dev (.onBuffer k c)).1 w) :
    MemoryOk ((dev, w), live) (.onBuffer k c) ∧
      Owns (serve dev (.onBuffer k c)).1 w
        ((serve dev (.onBuffer k c)).2.mmz.foldl (Live.next k) live) := by
  obtain ⟨⟨e, he, hkey⟩, haddrs⟩ := hi
  obtain ⟨buf, hd, hout⟩ := serve_onBuffer h.counted he hkey c
  have hbuf := h.buffers k buf hd.before
  have hfit : BufferFit (.onBuffer k c) buf := hc k rfl buf hd.before
  -- the media memory hands out what nobody has
  have hfresh : c.addrs.Nodup ∧ ∀ a ∈ c.addrs, live a = none ∧ ValidAddr a := by
    cases c with
    | resize in_size out_size inAddr outAddr =>
      obtain ⟨hin, hout, hne⟩ := haddrs
      refine ⟨by simp [BufferCall.addrs, hne], fun a ha => ?_⟩
      rcases List.mem_pair.mp ha with rfl | rfl
      · exact ⟨hin.2, hin.1⟩
      · exact ⟨hout.2, hout.1⟩
    | _ => exact ⟨List.nodup_nil, fun _ => nofun⟩
  obtain ⟨hmoves, halloc, hsizes⟩ := run_moves hbuf hfit hfresh.1
  have hmemory : memoryOf ((serve dev (.onBuffer k c)).1.at k) = ownedBy (c.run k buf).1 := by
    rw [hd.after]
    rfl
  obtain ⟨hreleases, howns⟩ := h.moves hcounted hd.before hd.elsewhere (hmemory ▸ hmoves)
    (fun a ha => hfresh.2 a (halloc a ha)) fun buf' hat hnodup hvalid => by
      rw [hd.after] at hat
      cases hat
      exact ⟨hnodup, hvalid, hsizes.1, hsizes.2.1, hsizes.2.2⟩
  rw [hout]
  refine ⟨⟨?_, ?_, nofun⟩, howns⟩
  · rintro _ ⟨⟩
    change live.Releases k (serve dev (.onBuffer k c)).2.mmz
    rw [hout]
    exact hreleases
  · rintro _ ⟨⟩ a ha hzero
    change a ∈ handedOut (.onBuffer k c) (serve dev (.onBuffer k c)).2 at ha
    rw [hout] at ha
    have hneeded := handedOut_needed ha hzero
    change (serve dev (.onBuffer k c)).2.mmz.foldl (Live.next k) live a = some k ∧
      ∀ k' buf', (serve dev (.onBuffer k c)).1.at k' = some buf' → a ∉ parked buf'.release_mem
    rw [hout]
    exact ⟨(howns.not_parked hd.after hneeded hd.after).1,
      fun k' buf' hat' => (howns.not_parked hd.after hneeded hat').2⟩

theorem not_alloc_detach (buf : Buffer) (a : Nat) : .alloc a ∉ (detachBuffer (some buf)).2 := by
  -- a descriptor is released or nothing happens
  have hone : ∀ m, .alloc a ∉ (mmzRelease m).2 := by
    intro m
    rw [mmzRelease]
    split <;> simp
  simp only [detachBuffer]
  split
  · rw [freeBuffer, List.mem_append, not_or]
    refine ⟨?_, ?_⟩
    · split
      · exact hone _
      · exact List.not_mem_nil
    · split
      · exact hone _
      · exact List.not_mem_nil
  · exact List.not_mem_nil

/-- An end that detaches. -/
theorem Owns.detach {dev : Device} {w : Watch} {live : Live} {e : End} {k : Key}
    (h : Owns dev w live) (he : e ∈ w.ends) (hkey : e.key? = some k)
    (hc : MemoryFit ((dev, w), live) (.detach e))
    (hcounted : Counted (serve dev (.detach e)).1 { w with ends := w.ends.erase e }) :
    MemoryOk ((dev, w), live) (.detach e) ∧
      Owns (serve dev (.detach e)).1 { w with ends := w.ends.erase e }
        ((serve dev (.detach e)).2.mmz.foldl (Live.next k) live) := by
  have hw : Joins { w with ends := w.ends.erase e } w e := joins_erase he rfl rfl
  obtain ⟨buf, hd, hmmz⟩ := serve_detach h.counted he hkey hw
  have hbuf := h.buffers k buf hd.before
  have hfit : BufferFit (.detach e) buf := hc k hkey buf hd.before
  -- the last end to go takes the buffer with it
  have hmoves : Moves (ownedBy buf) (detachBuffer (some buf)).2
      (memoryOf ((serve dev (.detach e)).1.at k)) := by
    rw [hd.after]
    simp only [detachBuffer]
    split
    · rename_i hlast
      have hok : BufferOk { buf with connected := -1, buf_cnt := buf.buf_cnt - 1 } :=
        ⟨hbuf.nodup, hbuf.valid, hbuf.in_size, hbuf.out_size, hbuf.packed⟩
      have hfree := freeBuffer_moves hok (hfit (by omega))
      exact hfree
    · exact Moves.none _
  obtain ⟨hreleases, howns⟩ := h.moves hcounted hd.before hd.elsewhere hmoves
    (fun a ha => absurd ha (not_alloc_detach buf a)) fun buf' hat hnodup hvalid => by
      rw [hd.after, detachBuffer_fst] at hat
      split at hat
      · cases hat
      · cases hat
        exact ⟨hnodup, hvalid, hbuf.in_size, hbuf.out_size, hbuf.packed⟩
  rw [← hmmz] at hreleases howns
  refine ⟨⟨?_, ?_, ?_⟩, howns⟩
  · intro k' hk'
    rw [show k' = k from Option.some.inj (hk'.symm.trans hkey)]
    exact hreleases
  · intro _ _ a hnil
    cases hnil
  · rintro _ k' ⟨⟩ hk' hnone a
    cases Option.some.inj (hk'.symm.trans hkey)
    change (serve dev (.detach e)).1.at k = none at hnone
    change Live.after live (.detach e) (serve dev (.detach e)).2 a ≠ some k
    rw [Live.after, Input.key?, hkey]
    dsimp only
    rw [Ne, howns.live, hnone]
    exact List.not_mem_nil

/-- One call: what is expected of it, and what holds behind it. -/
theorem owns_step {s : (Device × Watch) × Live} {i : Input} (h : Owns s.1.1 s.1.2 s.2)
    (hi : MemoryFormed s i) (hc : MemoryFit s i) :
    MemoryOk s i ∧
      Owns (owned.step s i).1.1.1 (owned.step s i).1.1.2 (owned.step s i).1.2 := by
  obtain ⟨⟨dev, w⟩, live⟩ := s
  change Owns dev w live at h
  change MemoryOk ((dev, w), live) i ∧
    Owns (serve dev i).1 (w.next i (serve dev i).2) (live.after i (serve dev i).2)
  have hcounted : Counted (serve dev i).1 (w.next i (serve dev i).2) :=
    counted_step (s := (dev, w)) h.counted hi.1
  -- a call without a slot does not touch the memory
  have hok : i.key? = none → Owns (serve dev i).1 (w.next i (serve dev i).2) live →
      MemoryOk ((dev, w), live) i ∧
        Owns (serve dev i).1 (w.next i (serve dev i).2) (live.after i (serve dev i).2) := by
    intro hkey hnext
    refine ⟨⟨?_, ?_, ?_⟩, ?_⟩
    · rw [hkey]
      exact fun _ => nofun
    · rw [hkey]
      exact fun _ => nofun
    · rintro e k rfl hk
      rw [Input.key?, hk] at hkey
      exact nomatch hkey
    · rw [Live.after, hkey]
      exact hnext
  cases i with
  | attachServer name => exact hok rfl (h.quiet hcounted (serve_attachServer h.counted name).1)
  | attachClient name pid =>
    rcases serve_attachClient h.counted name pid with ⟨k, -, -, -, hd⟩ | ⟨-, hd⟩
    · refine hok rfl (h.touch hcounted hd.elsewhere ?_ fun buf hat => ?_)
      · rw [hd.buffer, hd.free]
        decide
      · rw [hd.buffer] at hat
        cases hat
        exact ownedBy_fresh
    · refine hok rfl (h.touch hcounted hd.elsewhere (by rw [hd.same]) fun buf hat => ?_)
      exact h.buffers _ buf (hd.same 0 ▸ hat)
  | detach e =>
    cases hkey : e.key? with
    | none =>
      cases e with
      | server name =>
        have he : End.server name ∈ w.ends := List.count_pos_iff.mp (Nat.zero_lt_of_lt hi.1)
        have hw : Joins { w with ends := w.ends.erase (.server name) } w (.server name) :=
          joins_erase he rfl rfl
        exact hok rfl (h.quiet hcounted (serve_detachServer h.counted hw).1)
      | client k => exact nomatch hkey
      | accepted k => exact nomatch hkey
    | some k =>
      have he : e ∈ w.ends := by
        rcases end_key hkey with rfl | rfl <;> exact hi.1
      obtain ⟨hstep, hnext⟩ := h.detach he hkey hc hcounted
      refine ⟨hstep, ?_⟩
      rw [Live.after, Input.key?, hkey]
      exact hnext
  | onBuffer k c => exact h.onBuffer hi hc hcounted
  | listen name =>
    refine hok rfl (h.same hcounted (fun k buf hat => ?_) fun k => ?_)
    · rw [(serve_listen dev name).1] at hat
      exact h.buffers k buf hat
    · rw [(serve_listen dev name).1]
  | listenWake name => exact hok rfl (h.quiet hcounted (serve_listenWake h.counted hi.1.2).1)
  | listenReturn name =>
    rcases serve_listenReturn h.counted name with ⟨k, buf, -, -, hd⟩ | ⟨-, hsame, -⟩
    · have hbuf := h.buffers k buf hd.before
      refine hok rfl (h.touch hcounted hd.elsewhere ?_ fun buf' hat => ?_)
      · rw [hd.after, hd.before]
        rfl
      · rw [hd.after] at hat
        cases hat
        exact ⟨hbuf.nodup, hbuf.valid, hbuf.in_size, hbuf.out_size, hbuf.packed⟩
    · refine hok rfl (h.same hcounted (fun k buf hat => ?_) fun k => ?_)
      · rw [hsame] at hat
        exact h.buffers k buf hat
      · rw [hsame]

/-! ## Runs -/

theorem owns_init : Owns {} {} fun _ => none := by
  refine ⟨counted_init, fun k buf hat => ?_, fun k a => ?_⟩
  · exact nomatch hat
  · have hnone : memoryOf (Device.at {} k) = [] := rfl
    simp [hnone]

/-- In any order of the calls of servers and clients, what a request allocates is released
    once, at the last detach of its buffer at the latest, and no request and no server gets
    the address of memory that is released or parked, as long as no request rounds to
    nothing or to the size of a descriptor that is not needed, nothing is parked when the
    last end detaches, and a free entry of `release_mem` is left when the server is done. -/
theorem memory_owned (is : List Input)
    (hwf : owned.Always MemoryFormed (({}, {}), fun _ => none) is)
    (hc : owned.Always MemoryFit (({}, {}), fun _ => none) is) :
    owned.Always MemoryOk (({}, {}), fun _ => none) is :=
  (Machine.always_of_invariant (I := fun s => Owns s.1.1 s.1.2 s.2)
    (fun _ _ h hi => owns_step h hi.1 hi.2) owns_init (hwf.and _ hc)).1

/-- `memory_owned` on a buffer that is made larger while the server works. -/
theorem memory_owned_larger :
    owned.Always MemoryOk (({}, {}), fun _ => none)
      [.attachServer [1], .attachClient [1] 7, .listen [1], .listenWake [1], .listenReturn [1],
        .onBuffer ⟨[1], 7, 0⟩ (.resize 100 5000 4096 8192),
        .onBuffer ⟨[1], 7, 0⟩ (.call 3),
        .onBuffer ⟨[1], 7, 0⟩ .acceptWake,
        .onBuffer ⟨[1], 7, 0⟩ .acceptReturn,
        .onBuffer ⟨[1], 7, 0⟩ (.resize 9000 5000 16384 65536),
        .onBuffer ⟨[1], 7, 0⟩ .done,
        .onBuffer ⟨[1], 7, 0⟩ .callReturn,
        .detach (.client ⟨[1], 7, 0⟩), .detach (.accepted ⟨[1], 7, 0⟩)] :=
  memory_owned _ (by decide +kernel) (by decide +kernel)

/-- A request for nothing and then for as much as before gets memory that has been released. -/
theorem stale_descriptor :
    ¬ ∀ is, owned.Always MemoryFormed (({}, {}), fun _ => none) is →
      owned.Always MemoryOk (({}, {}), fun _ => none) is := by
  intro h
  obtain ⟨-, -, -, -, hagain, -⟩ := h
    [.attachClient [1] 7,
      .onBuffer ⟨[1], 7, 0⟩ (.resize 100 0 4096 8192),
      .onBuffer ⟨[1], 7, 0⟩ (.resize 0 0 8192 12288),
      .onBuffer ⟨[1], 7, 0⟩ .done,
      .onBuffer ⟨[1], 7, 0⟩ (.resize 100 0 8192 12288)]
    (by decide +kernel)
  obtain ⟨hlive, -⟩ := hagain.hands ⟨[1], 7, 0⟩ rfl 4096 (by decide +kernel) (by decide)
  revert hlive
  decide +kernel

/-- What is parked when the last end detaches stays allocated. -/
theorem parked_lost {dev : Device} {w : Watch} {live : Live} {e : End} {k : Key} {buf : Buffer}
    {a : Nat} (h : Owns dev w live) (he : e ∈ w.ends) (hkey : e.key? = some k)
    (hat : dev.at k = some buf) (hlast : buf.buf_cnt ≤ 1) (ha : a ∈ parked buf.release_mem) :
    (serve dev (.detach e)).1.at k = none ∧
      (serve dev (.detach e)).2.mmz.foldl (Live.next k) live a = some k := by
  have hw : Joins { w with ends := w.ends.erase e } w e := joins_erase he rfl rfl
  obtain ⟨buf', hd, hmmz⟩ := serve_detach h.counted he hkey hw
  have hsame : buf' = buf := Option.some.inj (hd.before.symm.trans hat)
  subst hsame
  have hbuf := h.buffers k buf' hat
  have hok : BufferOk { buf' with connected := -1, buf_cnt := buf'.buf_cnt - 1 } :=
    ⟨hbuf.nodup, hbuf.valid, hbuf.in_size, hbuf.out_size, hbuf.packed⟩
  have hfree : (detachBuffer (some buf')).2 =
      (needed buf'.in_buf_need buf'.in_sMBuf ++ needed buf'.out_buf_need buf'.out_sMBuf).map
        MmzEvent.release := by
    simp only [detachBuffer]
    rw [if_pos (by omega)]
    exact freeBuffer_eq hok
  have hnot := fun hneeded => List.disjoint_of_nodup_append hbuf.nodup hneeded ha
  refine ⟨?_, ?_⟩
  · rw [hd.after, detachBuffer_fst, if_pos (by omega)]
  · rw [hmmz, hfree, live_releases, if_neg hnot, h.live, hat]
    exact List.mem_append_right _ ha

end Tntsat.LxcIpc
