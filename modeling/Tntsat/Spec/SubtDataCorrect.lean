import Mathlib.Algebra.Group.Nat.Defs
import Mathlib.Data.List.Basic
import Tntsat.Native.SubtData

/-!
# What the replay cache replays

The cacheable packets since the last replay or reset are pending, and a replay is meant to
parse the last three of them again.  It gives the parser the length of the whole packet
where the first call gave that of the payload, so it is right only when it parses nothing.

## Key results

- `redo_ok_iff`: when a replay does what it is meant to, in every state of every run
- `one_packet`: a single packet is not replayed, since the first node the replay looks at
  is the one behind it
- `three_packets`: three packets are replayed, with other lengths
-/

namespace Tntsat.SubtData

/-! ## What is pending -/

/-- The inputs and parser calls so far. -/
abbrev History := List (Input × List ParseCall)

/-- A packet that `Cache_Put` takes. -/
def cacheable (call : ParseCall) : Bool :=
  subtPesPacketMin ≤ call.u32Len + 6 && call.u32Len + 6 ≤ subtPesPacketLen

/-- The pending calls behind one more input. -/
def pend (calls : List ParseCall) : Input × List ParseCall → List ParseCall
  | (.inject _, out) => calls ++ out.filter cacheable
  | (.redo, _) => []
  | (.reset, _) => []

/-- The first calls for the packets that are pending. -/
def pending (h : History) : List ParseCall := h.foldl pend []

/-- The most recent three, oldest first. -/
def lastThree {α : Type*} (l : List α) : List α := l.drop (l.length - cacheNodeNumMax)

/-- A replay parses the most recent pending packets, with the calls of the first time. -/
def RedoOk (s : DataRecv × History) : Prop :=
  (machine.step s.1 .redo).2 = lastThree (pending s.2)

instance (s : DataRecv × History) : Decidable (RedoOk s) := inferInstanceAs (Decidable (_ = _))

/-- There is nothing to replay, and nothing is replayed. -/
def NothingCached (s : DataRecv × History) : Prop :=
  pending s.2 = [] ∧ (s.1.astCacheNode s.1.pstCacheNode).u32DataSize = 0

theorem pending_snoc (h : History) (io : Input × List ParseCall) :
    pending (h ++ [io]) = pend (pending h) io := by
  rw [pending, List.foldl_append]
  rfl

/-! ## The first time -/

/-- The data that is injected is taken as a whole, or it is not taken. -/
theorem receive_cases {r : DataRecv} (pu8Data : List UInt8) (hempty : r.u32PESWritenLen = 0) :
    receive r pu8Data = { r with au8PesBuffer := pu8Data, u32PESWritenLen := pu8Data.length } ∨
      receive r pu8Data = r := by
  rw [receive, if_pos hempty]
  split
  · split
    · exact .inl rfl
    · exact .inr rfl
  · exact .inr rfl

/-- A packet that is injected: its first call, and what becomes of the cache. -/
structure FirstTime (r r' : DataRecv) (call : ParseCall) : Prop where
  length : call.pu8DataSrc.length = call.u32Len + 6
  pageID : call.u16PageID = r.u16PageID
  ancillaryID : call.u16AncillaryID = r.u16AncillaryID
  cached : r' = { cachePut r call.pu8DataSrc (call.u32Len + 6) with au8PesBuffer := r'.au8PesBuffer }

/-- Caching does not look behind the end of the packet. -/
theorem cachePut_take (r : DataRecv) (pu8Data : List UInt8) (n : Nat) :
    cachePut r (pu8Data.take n) n = cachePut r pu8Data n := by
  simp [cachePut, List.take_take]

/-- Longer packets are not cached, whether the length is looked at once or twice. -/
theorem cachePut_bound (r : DataRecv) (pu8Data : List UInt8) (n : Nat) :
    (if n ≤ subtPesPacketLen then cachePut r pu8Data n else r) = cachePut r pu8Data n := by
  split
  · rfl
  · rename_i hlong
    rw [cachePut, if_pos (.inr (Nat.lt_of_not_le hlong))]

/-- Caching does not touch the buffer of the packet that comes in. -/
theorem cachePut_with (r : DataRecv) (u32PESWritenLen : Nat) (au8PesBuffer pu8Data : List UInt8)
    (n : Nat) :
    cachePut { r with u32PESWritenLen, au8PesBuffer } pu8Data n =
      { cachePut r pu8Data n with u32PESWritenLen, au8PesBuffer } := by
  simp only [cachePut]
  split <;> rfl

theorem cachePut_same (r : DataRecv) (pu8Data : List UInt8) (n : Nat) :
    (cachePut r pu8Data n).u16PageID = r.u16PageID ∧
      (cachePut r pu8Data n).u16AncillaryID = r.u16AncillaryID ∧
      (cachePut r pu8Data n).u32PESWritenLen = r.u32PESWritenLen := by
  rw [cachePut]
  split <;> exact ⟨rfl, rfl, rfl⟩

/-- An injection makes one call or none. -/
theorem inject_cases {r : DataRecv} (pu8Data : List UInt8) (hempty : r.u32PESWritenLen = 0) :
    (∃ call, (inject r pu8Data).2 = [call] ∧ FirstTime r (inject r pu8Data).1 call) ∨
      (inject r pu8Data).2 = [] ∧
        (inject r pu8Data).1 = { r with au8PesBuffer := (inject r pu8Data).1.au8PesBuffer } := by
  rw [inject]
  split
  · exact .inr ⟨rfl, rfl⟩
  · rcases receive_cases pu8Data hempty with heq | heq
    · rw [heq]
      dsimp only
      rw [cachePut_bound, cachePut_with]
      split
      · -- a whole packet
        rename_i hwhole
        obtain ⟨hpage, hancillary, hlen⟩ :=
          cachePut_same r pu8Data (pesPayloadLength pu8Data + 6)
        left
        refine ⟨_, rfl, ⟨?_, hpage, hancillary, ?_⟩⟩
        · simp [hwhole.2]
        · simp only [cachePut_take]
          rw [← hempty, ← hlen]
      · right
        rw [hempty]
        exact ⟨rfl, rfl⟩
    · rw [heq, if_neg (by omega), hempty]
      exact .inr ⟨rfl, rfl⟩

/-! ## When a replay is right -/

/-- The nodes hold as much data as their sizes say. -/
def Sized (r : DataRecv) : Prop :=
  ∀ k, (r.astCacheNode k).u32DataSize ≠ 0 →
    (r.astCacheNode k).au8Data.length = (r.astCacheNode k).u32DataSize

/-- What holds behind every call. -/
structure Inv (r : DataRecv) (h : History) : Prop where
  empty : r.u32PESWritenLen = 0
  sizes : Sized r
  first : ∀ call ∈ pending h, call.pu8DataSrc.length = call.u32Len + 6

theorem cachePut_sized {r : DataRecv} {pu8Data : List UInt8} {n : Nat} (h : Sized r)
    (hlen : pu8Data.length = n) : Sized (cachePut r pu8Data n) := by
  intro k
  rw [cachePut]
  split
  · exact h k
  · by_cases hk : k = r.pstCacheNode
    · simp [hk, ← hlen]
    · simpa [hk] using h k

theorem cacheGet_sized {r : DataRecv} (h : Sized r) : Sized (cacheGet r).1 := by
  intro k
  by_cases hk : k = r.pstCacheNode
  · simp [cacheGet, hk]
  · simpa [cacheGet, hk] using h k

/-- A replay leaves the nodes in order, and gives every packet with its whole length. -/
theorem redoLoop_spec (turns : Nat) {r : DataRecv} (h : Sized r) :
    Sized (redoLoop turns r).1 ∧
      (redoLoop turns r).1.u32PESWritenLen = r.u32PESWritenLen ∧
      ∀ call ∈ (redoLoop turns r).2, call.pu8DataSrc.length = call.u32Len := by
  induction turns generalizing r with
  | zero => exact ⟨h, rfl, nofun⟩
  | succ turns ih =>
    rw [redoLoop]
    have hget := cacheGet_sized h
    by_cases hzero : (r.astCacheNode r.pstCacheNode).u32DataSize = 0
    · simp only [cacheGet, hzero, if_true] at hget ⊢
      exact ⟨hget, by simp⟩
    · obtain ⟨hsized, hlen, hcalls⟩ := ih hget
      simp only [cacheGet, hzero, if_false] at hsized hlen hcalls ⊢
      refine ⟨hsized, hlen, ?_⟩
      intro call hcall
      rcases List.mem_cons.mp hcall with rfl | hcall
      · simp [h _ hzero]
      · exact hcalls call hcall

theorem step_inv (s : DataRecv × History) (i : Input) (hI : Inv s.1 s.2) :
    Inv (machine.traced.step s i).1.1 (machine.traced.step s i).1.2 := by
  obtain ⟨r, h⟩ := s
  cases i with
  | redo =>
    obtain ⟨hsized, hlen, -⟩ := redoLoop_spec (cacheNodeNumMax + 1) (r := r) hI.sizes
    exact
      { empty := hlen.trans hI.empty
        sizes := hsized
        first := by
          rw [Machine.traced, pending_snoc]
          exact nofun }
  | reset =>
    exact
      { empty := rfl
        sizes := fun k hk => absurd rfl hk
        first := by
          rw [Machine.traced, pending_snoc]
          exact nofun }
  | inject pu8Data =>
    have hstep : (machine.traced.step (r, h) (.inject pu8Data)).1 =
        ((inject r pu8Data).1, h ++ [(.inject pu8Data, (inject r pu8Data).2)]) := rfl
    rw [hstep]
    -- either the first segment of a page is handed on and cached, or the cache is left alone
    rcases inject_cases pu8Data hI.empty with ⟨call, hout, hfirst⟩ | ⟨hout, hsame⟩
    · have hput := cachePut_same r call.pu8DataSrc (call.u32Len + 6)
      exact
        { empty := by
            rw [hfirst.cached]
            exact hput.2.2.trans hI.empty
          sizes := by
            rw [hfirst.cached]
            exact cachePut_sized hI.sizes hfirst.length
          first := by
            rw [pending_snoc, hout]
            intro c hc
            -- what was pending, and the new call
            rcases List.mem_append.mp hc with hc | hc
            · exact hI.first c hc
            · rw [List.mem_singleton.mp (List.mem_of_mem_filter hc)]
              exact hfirst.length }
    · exact
        { empty := by
            rw [hsame]
            exact hI.empty
          sizes := by
            rw [hsame]
            exact hI.sizes
          first := by
            rw [pending_snoc, hout]
            simpa [pend] using hI.first }

/-- In a state like these a replay is right just when there is nothing to replay. -/
theorem Inv.redoOk_iff {s : DataRecv × History} (hI : Inv s.1 s.2) :
    RedoOk s ↔ NothingCached s := by
  obtain ⟨-, -, hcalls⟩ := redoLoop_spec (cacheNodeNumMax + 1) (r := s.1) hI.sizes
  have hlast : lastThree (pending s.2) = [] ↔ pending s.2 = [] := by
    rw [lastThree, List.drop_eq_nil_iff, cacheNodeNumMax, ← List.length_eq_zero_iff]
    omega
  have hnone : (redo s.1).2 = [] ↔ (s.1.astCacheNode s.1.pstCacheNode).u32DataSize = 0 := by
    rw [redo, redoLoop]
    by_cases hzero : (s.1.astCacheNode s.1.pstCacheNode).u32DataSize = 0 <;> simp [cacheGet, hzero]
  constructor
  · intro hok
    -- a call that is made has another length than all first calls
    have hempty : (redo s.1).2 = [] := by
      rw [List.eq_nil_iff_forall_not_mem]
      intro call hcall
      have hlen := hcalls call hcall
      rw [show (redo s.1).2 = lastThree (pending s.2) from hok] at hcall
      have hfirst := hI.first call (List.mem_of_mem_drop hcall)
      omega
    exact ⟨hlast.mp (hok ▸ hempty), hnone.mp hempty⟩
  · rintro ⟨hpending, hzero⟩
    exact (hnone.mpr hzero).trans (hlast.mpr hpending).symm

/-! ## Runs -/

theorem create_inv (u16PageID u16AncillaryID : Nat) : Inv (create u16PageID u16AncillaryID) [] where
  empty := rfl
  sizes _ h := absurd rfl h
  first := nofun

/-- Every sequence of calls: in each state, a replay would do what it is meant to if and
    only if nothing is pending and the node it looks at first is empty. -/
theorem redo_ok_iff (u16PageID u16AncillaryID : Nat) (inputs : List Input) :
    machine.traced.Always (fun s _ => RedoOk s ↔ NothingCached s)
      (create u16PageID u16AncillaryID, []) inputs :=
  (Machine.always_of_invariant (I := fun s => Inv s.1 s.2) (P := fun _ _ => True)
    (fun s i hI _ => ⟨hI.redoOk_iff, step_inv s i hI⟩) (create_inv u16PageID u16AncillaryID)
    (Machine.always_true _ _ _)).1

/-- A packet with a payload of 20 bytes. -/
def smallPacket : List UInt8 := [0x00, 0x00, 0x01, 0xbd, 0x00, 0x14] ++ List.replicate 20 0xff

theorem one_packet :
    ¬ machine.traced.Always (fun s i => i = .redo → RedoOk s) (create 1 2, [])
      [.inject smallPacket, .redo] := by
  rintro ⟨-, hredo, -⟩
  exact absurd (hredo rfl) (by decide +kernel)

-- a replay hands out the last three packets again, joined
example :
    (machine.outputs (create 1 2)
        [.inject smallPacket, .inject smallPacket, .inject smallPacket, .redo]).map
      (List.map ParseCall.u32Len) = [[20], [20], [20], [26, 26, 26]] := by
  decide +kernel

end Tntsat.SubtData
