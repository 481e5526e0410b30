import Mathlib.Algebra.Group.Nat.Defs
import Mathlib.Data.Nat.Basic
import Tntsat.ForStd.Span
import Tntsat.Native.SmartGenJobs
import Tntsat.Spec.SmartJobsCorrect

/-!
# The split of a download into jobs

In range mode the jobs cut the content into pieces without a gap, the connections that
were opened on the way belong to the job at whose first byte they start, and a failure
gives every connection back.  Three things go wrong.  A range that ends at byte 0 is
taken for one without an end, so the first of several jobs of one byte asks for the whole
content.  A failure to build the second range header forgets the first connection, and
one to allocate the jobs stops only one of the two connections.

## Key results

- `genJobs_correct_iff`: exactly when a call does all that it should.
-/

namespace Tntsat.SmartHttp

/-! ## What a call should do -/

/-- The bytes of a content that a range asks for. -/
def ByteRange.Asks (r : ByteRange) (length x : Int) : Prop :=
  0 ≤ x ∧ x < length ∧ r.first ≤ x ∧ ∀ last ∈ r.last, x ≤ last

/-- A number fits an `int`. -/
def FitsInt (n : Int) : Prop := -2147483648 ≤ n ∧ n < 2147483648

/-- The jobs cut the content into pieces and ask for exactly these. -/
structure JobsDescription.Tiles (d : JobsDescription) : Prop where
  intervals : ∃ spans : List Span, Contig 0 spans d.content_length.toNat ∧
    d.job_array.map (fun job => (job.offset, job.seg_size)) =
      spans.map fun s => ((s.start : Int), (s.len : Int))
  asks : ∀ job ∈ d.job_array, ∀ x, (rangeOf job.offset job.seg_size).Asks d.content_length x ↔
    job.offset ≤ x ∧ x < job.offset + job.seg_size

/-- No sum or product on the way to the jobs and their headers overflows. -/
structure JobsDescription.NoOverflow (d : JobsDescription) (piece_buf_size : Int) : Prop where
  whole : FitsInt (d.content_length / piece_buf_size * piece_buf_size)
  probe : (pieces d.content_length piece_buf_size).1 > 1 → FitsInt (piece_buf_size +
    probeSize (pieces d.content_length piece_buf_size) piece_buf_size)
  starts : ∀ job ∈ d.job_array, FitsInt (job.job_index * piece_buf_size)
  ends : ∀ job ∈ d.job_array, FitsInt (job.offset + job.seg_size)

/-- Every connection is stopped or belongs to the job at whose first byte it starts. -/
def JobsDescription.Places (d : JobsDescription) (opened : List Probe) (stopped : List Handle) :
    Prop :=
  ∀ o ∈ opened, o.handle ∈ stopped ∨
    ∃ job ∈ d.job_array, job.pDownloadHandle = some o.handle ∧ job.offset = o.range.first

/-- What a call should do. -/
def GenResult.Correct (r : GenResult) (piece_buf_size : Int) : Prop :=
  match r.jobs with
  | some d =>
    (d.single_job_mode = false → d.Tiles ∧ d.NoOverflow piece_buf_size) ∧
      d.Places r.opened r.stopped
  | none => ∀ o ∈ r.opened, o.handle ∈ r.stopped

/-- The second probe does not fail for want of memory; and if the server then serves
    ranges, nothing else does and the pieces are of more than one byte. -/
def GenEnv.Sound (env : GenEnv) (piece_buf_size length : Int) : Prop :=
  env.mallocHeader 1 = true ∧
    ∀ r, startLoop env.second 0 3 = some r → r.resp_code = 206 →
      piece_buf_size ≠ 1 ∧ env.mallocArray = true ∧
        ∀ i : Nat, i * piece_buf_size < length → env.mallocJob i = true

/-! ## The pieces -/

section Pieces

variable {P L : Nat} (hP : 0 < P) (hL : 0 < L) (hL' : L < 2147483648)

include hP hL hL'

omit hP in
/-- The number of pieces and the size of the last one if it is a smaller one. -/
theorem pieces_spec : ∃ n : Nat, pieces L P = ((n : Int), ((L % P : Nat) : Int)) ∧ 0 < n ∧
    (L % P = 0 → L = n * P) ∧ (L % P ≠ 0 → L + P = n * P + L % P) := by
  have hdiv := Nat.div_add_mod L P
  have hmul : (L / P) * P = P * (L / P) := Nat.mul_comm _ _
  -- the last piece is the remainder
  have hlast : s32 ((L : Int) - s32 ((L : Int) / P * P)) = ((L % P : Nat) : Int) := by
    have hcast : ((L : Int) / P * P) = ((L / P * P : Nat) : Int) := by push_cast; rfl
    have hwhole : s32 ((L / P * P : Nat) : Int) = (L / P * P : Nat) :=
      s32_of_range (by omega) (by omega)
    rw [hcast, hwhole, s32_of_range (by omega) (by omega)]
    omega
  unfold pieces
  dsimp only
  rw [hlast]
  -- it counts as a piece of its own unless it is empty
  by_cases h0 : L % P = 0
  · refine ⟨L / P, ?_, ?_, fun _ => by omega, fun h => absurd h0 h⟩
    · rw [h0]
      simp
    · rcases Nat.eq_zero_or_pos (L / P) with hz | hpos
      · rw [hz] at hdiv
        omega
      · exact hpos
  · refine ⟨L / P + 1, ?_, Nat.succ_pos _, fun h => absurd h h0, fun _ => ?_⟩
    · rw [if_pos (by exact_mod_cast h0)]
      push_cast
      rfl
    · rw [Nat.succ_mul]
      omega

/-- Where a piece begins and how large it is. -/
theorem piece_bounds {n : Nat}
    (hn : (L % P = 0 → L = n * P) ∧ (L % P ≠ 0 → L + P = n * P + L % P)) {i : Nat} (hi : i < n) :
    i * P < L ∧ min (i * P) L = i * P ∧
      min ((i + 1) * P) L - i * P = if L % P ≠ 0 ∧ i = n - 1 then L % P else P := by
  have hmod := Nat.mod_lt L hP
  have hle : (i + 1) * P ≤ n * P := Nat.mul_le_mul_right P hi
  have hsucc : (i + 1) * P = i * P + P := Nat.succ_mul i P
  by_cases h0 : L % P = 0
  · have := hn.1 h0
    rw [if_neg (fun h => h.1 h0)]
    omega
  · have := hn.2 h0
    rcases Nat.eq_or_lt_of_le (Nat.le_sub_one_of_lt hi) with heq | hlt
    · have hlast : (i + 1) * P = n * P := by rw [heq, Nat.sub_add_cancel (by omega)]
      rw [if_pos ⟨h0, heq⟩]
      omega
    · have : (i + 2) * P ≤ n * P := Nat.mul_le_mul_right P (by omega)
      have : (i + 2) * P = i * P + P + P := by rw [Nat.succ_mul, hsucc]
      rw [if_neg (by omega)]
      omega

/-- There are as many pieces as begin before the end. -/
theorem lt_pieces_iff {n : Nat}
    (hn : (L % P = 0 → L = n * P) ∧ (L % P ≠ 0 → L + P = n * P + L % P)) (i : Nat) :
    i < n ↔ i * P < L := by
  constructor
  · exact fun hi => (piece_bounds hP hL hL' hn hi).1
  · intro hlt
    by_contra hge
    have hle : n * P ≤ i * P := Nat.mul_le_mul_right P (by omega)
    have hmod := Nat.mod_lt L hP
    by_cases h0 : L % P = 0
    · have := hn.1 h0
      omega
    · have := hn.2 h0
      omega

end Pieces

/-! ## The header of a job -/

@[simp] theorem rangeOf_first (offset seg_size : Int) :
    (rangeOf offset seg_size).first = offset := by
  unfold rangeOf
  dsimp only
  split <;> rfl

/-- A header asks for the bytes of its job exactly if these do not end at byte 0 or are
    the whole content. -/
theorem rangeOf_asks_iff {offset seg_size length : Int} (h0 : 0 ≤ offset) (hseg : 0 < seg_size)
    (hle : offset + seg_size ≤ length) (hlen : length < 2147483648) :
    (∀ x, (rangeOf offset seg_size).Asks length x ↔ offset ≤ x ∧ x < offset + seg_size) ↔
      (offset + seg_size = 1 → length = 1) := by
  have hend : s32 (s32 (offset + seg_size) - 1) = offset + seg_size - 1 := by
    have hsum : s32 (offset + seg_size) = offset + seg_size := s32_of_range (by omega) (by omega)
    rw [hsum, s32_of_range (by omega) (by omega)]
  unfold rangeOf ByteRange.Asks
  simp only [hend]
  split
  · -- the end is left open
    simp only [Option.not_mem_none, false_implies, implies_true, and_true]
    constructor
    · intro h _
      have := (h (length - 1)).mp ⟨by omega, by omega, by omega⟩
      omega
    · intro h x
      have := h (by omega)
      omega
  · simp only [Option.mem_def, Option.some.injEq, forall_eq']
    refine iff_of_true (fun x => ?_) (by omega)
    omega

/-! ## The jobs in range mode -/

/-- The jobs that a split becomes. -/
theorem mem_jobs {s : Split} {P n : Nat} {job : DlTsSegJob}
    (hjob : job ∈ (List.range n).map (s.job P)) : ∃ i < n, job = s.job P i := by
  obtain ⟨i, hi, rfl⟩ := List.mem_map.mp hjob
  exact ⟨i, List.mem_range.mp hi, rfl⟩

section RangeMode

variable {s : Split} {P L n : Nat} (hP : 0 < P) (hL : 0 < L) (hL' : L < 2147483648)
  (hpieces : pieces L P = ((n : Int), ((L % P : Nat) : Int)))
  (hn : (L % P = 0 → L = n * P) ∧ (L % P ≠ 0 → L + P = n * P + L % P))
  (hs : s.jobs = n ∧ s.last_piece_size = ((L % P : Nat) : Int) ∧ s.single_job_mode = false ∧
    s.content_length = L)

include hP hL hL' hn hs

/-- What job `i` is given. -/
theorem job_range {i : Nat} (hi : i < n) :
    (s.job P i).offset = ((i * P : Nat) : Int) ∧
      (s.job P i).seg_size = ((min ((i + 1) * P) L - i * P : Nat) : Int) := by
  obtain ⟨hlt, -, hsize⟩ := piece_bounds hP hL hL' hn hi
  obtain ⟨hjobs, hlast, hsingle, -⟩ := hs
  constructor
  · have hcast : (i : Int) * P = ((i * P : Nat) : Int) := by push_cast; rfl
    simp only [Split.job, hsingle]
    rw [if_neg (by simp), hcast, s32_of_range (by omega) (by omega)]
  · simp only [Split.job, hsingle, hjobs, hlast]
    rw [hsize]
    by_cases h : L % P ≠ 0 ∧ i = n - 1
    · rw [if_pos h, if_pos ⟨by exact_mod_cast h.1, by omega⟩]
    · rw [if_neg h, if_neg (fun h' => h ⟨by exact_mod_cast h'.1, by omega⟩), if_neg (by simp)]

/-- The jobs cut the content into pieces. -/
theorem job_intervals : ∃ spans : List Span, Contig 0 spans L ∧
    ((List.range n).map (s.job P)).map (fun job => (job.offset, job.seg_size)) =
      spans.map fun s => ((s.start : Int), (s.len : Int)) := by
  have hgrow : ∀ i, i < n → min (i * P) L < min ((i + 1) * P) L := by
    intro i hi
    have := piece_bounds hP hL hL' hn hi
    have : (i + 1) * P = i * P + P := Nat.succ_mul i P
    omega
  have hlast : min (n * P) L = L := by
    have := (lt_pieces_iff hP hL hL' hn n).not.mp (Nat.lt_irrefl n)
    omega
  have hcontig := Contig.of_bounds hgrow
  rw [Nat.zero_mul, Nat.zero_min, hlast] at hcontig
  refine ⟨_, hcontig, ?_⟩
  rw [List.map_map, List.map_map]
  refine List.map_congr_left fun i hi => ?_
  obtain ⟨hoffset, hsize⟩ := job_range hP hL hL' hn hs (List.mem_range.mp hi)
  have hmin := (piece_bounds hP hL hL' hn (List.mem_range.mp hi)).2.1
  simp only [Function.comp_apply, hoffset, hsize, hmin]

/-- The headers ask for the bytes of the jobs unless there are several jobs of one byte. -/
theorem job_asks_iff :
    (∀ job ∈ (List.range n).map (s.job P), ∀ x, (rangeOf job.offset job.seg_size).Asks L x ↔
      job.offset ≤ x ∧ x < job.offset + job.seg_size) ↔ (P = 1 → L = 1) := by
  have hjob : ∀ i, i < n → ((∀ x, (rangeOf (s.job P i).offset (s.job P i).seg_size).Asks L x ↔
      (s.job P i).offset ≤ x ∧ x < (s.job P i).offset + (s.job P i).seg_size) ↔
        (min ((i + 1) * P) L = 1 → L = 1)) := by
    intro i hi
    obtain ⟨hoffset, hsize⟩ := job_range hP hL hL' hn hs hi
    have hlt := (piece_bounds hP hL hL' hn hi).1
    have hsucc : (i + 1) * P = i * P + P := Nat.succ_mul i P
    rw [hoffset, hsize, rangeOf_asks_iff (by omega) (by omega) (by omega) (by omega)]
    omega
  have hpos : 0 < n := (lt_pieces_iff hP hL hL' hn 0).mpr (by omega)
  constructor
  · intro h hone
    have := (hjob 0 hpos).mp (h _ (List.mem_map_of_mem (List.mem_range.mpr hpos)))
    omega
  · intro h job hmem
    obtain ⟨i, hi, rfl⟩ := mem_jobs hmem
    refine (hjob i hi).mpr fun hmin => ?_
    have hsucc : (i + 1) * P = i * P + P := Nat.succ_mul i P
    by_contra hne
    exact hne (h (by omega))

/-- A list of these jobs cuts the content into pieces unless there are several of one byte. -/
theorem tiles_iff {d : JobsDescription} (hd : d.job_array = (List.range n).map (s.job P))
    (hc : d.content_length = L) : d.Tiles ↔ (P = 1 → L = 1) := by
  have hasks := job_asks_iff hP hL hL' hn hs
  rw [← hd, ← hc] at hasks
  constructor
  · exact fun h => hasks.mp h.asks
  · intro h
    refine ⟨?_, hasks.mpr h⟩
    rw [hc, Int.toNat_natCast, hd]
    exact job_intervals hP hL hL' hn hs

include hpieces in
/-- Nothing overflows on the way to these jobs. -/
theorem job_noOverflow {d : JobsDescription} (hd : d.job_array = (List.range n).map (s.job P))
    (hc : d.content_length = L) : d.NoOverflow P where
  whole := by
    have hle : L / P * P ≤ L := Nat.div_mul_le_self L P
    have hcast : ((L : Int) / P * P) = ((L / P * P : Nat) : Int) := by push_cast; rfl
    rw [hc, hcast]
    constructor <;> omega
  probe := by
    rw [hc, hpieces]
    intro hlt
    have hmany : 2 * P ≤ n * P := Nat.mul_le_mul_right P (by omega)
    unfold probeSize FitsInt
    dsimp only
    split
    · -- the second piece is the last and a smaller one
      rename_i htwo
      have := hn.2 (by omega)
      have : n * P = 2 * P := by rw [show n = 2 by omega]
      omega
    · rename_i hother
      by_cases h0 : L % P = 0
      · have := hn.1 h0
        omega
      · have := hn.2 h0
        have : 3 * P ≤ n * P := Nat.mul_le_mul_right P (by omega)
        omega
  starts job hjob := by
    obtain ⟨i, hi, rfl⟩ := mem_jobs (hd ▸ hjob)
    have hlt := (piece_bounds hP hL hL' hn hi).1
    have hcast : (((s.job P i).job_index : Int) * P) = ((i * P : Nat) : Int) := by push_cast; rfl
    rw [hcast]
    constructor <;> omega
  ends job hjob := by
    obtain ⟨i, hi, rfl⟩ := mem_jobs (hd ▸ hjob)
    have hlt := (piece_bounds hP hL hL' hn hi).1
    obtain ⟨hoffset, hsize⟩ := job_range hP hL hL' hn hs hi
    rw [hoffset, hsize]
    constructor <;> omega

/-! ## The end of the call -/

include hpieces in
/-- With two connections open the call is right exactly if the pieces are of more than
    one byte and no allocation fails. -/
theorem finish_two (env : GenEnv) (reconnect : Bool) (hlt : P < L) {ssize : Int}
    (hhandles : s.handles = [0, 1]) (hstopped : s.stopped = [])
    (hopened : s.opened = [⟨0, rangeOf 0 0⟩, ⟨1, rangeOf P ssize⟩]) :
    (s.finish env P reconnect).Correct P ↔
      P ≠ 1 ∧ env.mallocArray = true ∧ ∀ i : Nat, i * P < L → env.mallocJob i = true := by
  obtain ⟨hjobs, -, hsingle, hlength⟩ := id hs
  have hcount : ∀ i, i < n ↔ i * P < L := lt_pieces_iff hP hL hL' hn
  unfold Split.finish
  cases harray : env.mallocArray with
  | false => simp [GenResult.Correct, hhandles, hstopped, hopened]
  | true =>
    simp only [Bool.not_true, Bool.false_eq_true, if_false, hjobs, Int.toNat_natCast, true_and]
    cases hfind : (List.range n).find? fun i => !env.mallocJob i with
    | some i =>
      have hfail : env.mallocJob i = false := by simpa using List.find?_some hfind
      have hi : i < n := List.mem_range.mp (List.mem_of_find?_eq_some hfind)
      refine iff_of_false ?_ fun h => by simp [h.2 i ((hcount i).mp hi)] at hfail
      -- at most one of the two connections is stopped
      simp only [GenResult.Correct, hhandles, hstopped, hopened]
      intro hall
      have h0 := hall ⟨0, rangeOf 0 0⟩ (by simp)
      have h1 := hall ⟨1, rangeOf P ssize⟩ (by simp)
      rcases i with _ | _ | i <;> simp at h0 h1
    | none =>
      have hmalloc : ∀ i, i < n → env.mallocJob i = true := by
        intro i hi
        simpa using List.find?_eq_none.mp hfind i (List.mem_range.mpr hi)
      have hplaces : ∀ i, i < n → i < 2 → s.job P i ∈ (List.range n).map (s.job P) ∧
          (s.job P i).pDownloadHandle = some i ∧ (s.job P i).offset = ((i * P : Nat) : Int) := by
        intro i hi h2
        refine ⟨List.mem_map_of_mem (List.mem_range.mpr hi), ?_, (job_range hP hL hL' hn hs hi).1⟩
        simp only [Split.job, if_pos h2, hhandles]
        rcases i with _ | _ | i
        · rfl
        · rfl
        · omega
      simp only [GenResult.Correct, hsingle, hopened, hstopped]
      rw [tiles_iff hP hL hL' hn hs rfl hlength]
      constructor
      · intro h
        exact ⟨fun hone => by have := (h.1 trivial).1 hone; omega,
          fun i hi => hmalloc i ((hcount i).mpr hi)⟩
      · intro h
        refine ⟨fun _ => ⟨fun hone => absurd hone h.1,
          job_noOverflow hP hL hL' hpieces hn hs rfl hlength⟩, ?_⟩
        intro o ho
        have hfirst := hplaces 0 ((hcount 0).mpr (by omega)) (by omega)
        have hsecond := hplaces 1 ((hcount 1).mpr (by omega)) (by omega)
        simp only [List.mem_cons, List.not_mem_nil, or_false] at ho
        rcases ho with rfl | rfl
        · exact .inr ⟨_, hfirst.1, hfirst.2.1, by rw [hfirst.2.2]; simp⟩
        · exact .inr ⟨_, hsecond.1, hsecond.2.1, by rw [hsecond.2.2]; simp⟩

end RangeMode

/-- With one job, and one connection that is not stopped, the call is right. -/
theorem finish_one {s : Split} {P : Int} (env : GenEnv) (reconnect : Bool) (hjobs : s.jobs = 1)
    (hhandle : s.handles[0]? = some 0)
    (hopened : ∀ o ∈ s.opened, o.handle ∈ s.stopped ∨ o.handle = 0 ∧ o.range.first = 0)
    (hrange : s.single_job_mode = false → ∀ d : JobsDescription,
      d.job_array = (List.range 1).map (s.job P) → d.content_length = s.content_length →
        d.Tiles ∧ d.NoOverflow P) :
    (s.finish env P reconnect).Correct P := by
  -- when nothing is returned, every connection has been stopped
  have hstop : ∀ o ∈ s.opened, o.handle ∈ s.stopped ++ [0] := by
    intro o ho
    rcases hopened o ho with h | ⟨h, -⟩
    · exact List.mem_append_left _ h
    · exact List.mem_append_right _ (by simp [h])
  unfold Split.finish
  cases env.mallocArray with
  | false => simpa [GenResult.Correct, hhandle] using hstop
  | true =>
    simp only [Bool.not_true, Bool.false_eq_true, if_false, hjobs]
    cases hfind : (List.range (1 : Int).toNat).find? fun i => !env.mallocJob i with
    | some i =>
      have hi : i < 1 := List.mem_range.mp (List.mem_of_find?_eq_some hfind)
      -- the only job cannot be allocated
      obtain rfl : i = 0 := by omega
      simpa [GenResult.Correct, hhandle] using hstop
    | none =>
      refine ⟨fun hsingle => hrange hsingle _ rfl rfl, fun o ho => ?_⟩
      -- otherwise the one that is left belongs to the job
      rcases hopened o ho with h | ⟨h, hfirst⟩
      · exact .inl h
      · refine .inr ⟨s.job P 0, by simp, ?_, ?_⟩
        · simp [Split.job, hhandle, h]
        · rw [hfirst]
          simp [Split.job, s32]

/-! ## The call -/

/-- The call once the first connection is open. -/
theorem genJobsFrom_correct_iff {env : GenEnv} {header : Option String} {P : Int}
    {reconnect : Bool} {resp : StartResult} (hP : 0 < P)
    (hlen : resp.content_length < 2147483648) :
    (genJobsFrom env header P reconnect resp).Correct P ↔
      (resp.accept_range = true → P < resp.content_length →
        env.Sound P resp.content_length) := by
  by_cases hrange : resp.accept_range = true ∧ 0 < resp.content_length
  case neg =>
    -- the server does not serve ranges or does not tell the length
    unfold genJobsFrom
    dsimp only
    generalize hl : (if resp.content_length ≤ 0 then -1 else resp.content_length) = length
    have hsingle : (!resp.accept_range || decide (length ≤ 0)) = true := by
      cases haccept : resp.accept_range with
      | false => rfl
      | true =>
        have hneg : resp.content_length ≤ 0 := by
          by_contra h
          exact hrange ⟨haccept, by omega⟩
        rw [if_pos hneg] at hl
        subst hl
        rfl
    rw [if_pos hsingle]
    exact iff_of_true (finish_one env reconnect rfl rfl (by simp) (fun h => nomatch h))
      fun haccept hlt => absurd ⟨haccept, by omega⟩ hrange
  case pos =>
    obtain ⟨haccept, hpos⟩ := hrange
    obtain ⟨L, hL⟩ := Int.eq_ofNat_of_zero_le (Int.le_of_lt hpos)
    obtain ⟨P, rfl⟩ := Int.eq_ofNat_of_zero_le (Int.le_of_lt hP)
    have hlength : (if resp.content_length ≤ 0 then -1 else resp.content_length) = (L : Int) := by
      rw [if_neg (by omega), hL]
    have hranges : ¬ (!resp.accept_range || decide ((L : Int) ≤ 0)) = true := by
      simp only [haccept, Bool.not_true, Bool.false_or, decide_eq_true_eq]
      omega
    unfold genJobsFrom
    dsimp only
    rw [hlength, if_neg hranges, hL]
    rw [hL] at hpos hlen
    have hP' : 0 < P := by omega
    obtain ⟨n, hpieces, hn0, hn⟩ := pieces_spec (P := P) (L := L) (by omega) (by omega)
    have hmany : 1 < n ↔ P < L := by
      rw [lt_pieces_iff hP' (by omega) (by omega) hn 1, Nat.one_mul]
    rw [hpieces]
    dsimp only
    split
    · rename_i hgt
      have hlt : P < L := hmany.mp (by omega)
      cases hheader : env.mallocHeader 1 with
      | false =>
        refine iff_of_false ?_ fun h => ?_
        · simp [addHttpHeaderForRangeDl, httpHeaderForRange, GenResult.Correct]
        · have := (h haccept (by omega)).1
          simp [hheader] at this
      | true =>
        simp only [addHttpHeaderForRangeDl, httpHeaderForRange, if_true, GenEnv.Sound, hheader,
          haccept, true_and, forall_const]
        cases hstart : startLoop env.second 0 3 with
        | none =>
          refine iff_of_true (finish_one env reconnect rfl rfl (by simp) (fun h => nomatch h)) ?_
          intro _ r hr
          exact nomatch hr
        | some r =>
          dsimp only
          split
          · rename_i hpartial
            rw [finish_two hP' (by omega) (by omega) hpieces hn ⟨rfl, rfl, rfl, rfl⟩ env reconnect
              hlt rfl rfl rfl]
            constructor
            · intro h _ r' _ _
              refine ⟨by omega, h.2.1, fun i hi => h.2.2 i (by exact_mod_cast hi)⟩
            · intro h
              obtain ⟨h1, h2, h3⟩ := h (by omega) r rfl hpartial
              exact ⟨by omega, h2, fun i hi => h3 i (by exact_mod_cast hi)⟩
          · rename_i hwhole
            refine iff_of_true (finish_one env reconnect rfl rfl ?_ (fun h => nomatch h)) ?_
            · simp
            · intro _ r' hr' hpartial
              exact absurd (Option.some.inj hr' ▸ hpartial) hwhole
    · rename_i hle
      have hone : n = 1 := by omega
      have hge : ¬ P < L := fun h => by have := hmany.mpr h; omega
      refine iff_of_true (finish_one env reconnect (by simp [hone]) rfl (by simp) ?_)
        (fun _ h => absurd h (by omega))
      intro _ d hd hc
      rw [← hone] at hd
      have htiles := tiles_iff hP' (by omega) (by omega) hn ⟨rfl, rfl, rfl, rfl⟩ hd hc
      exact ⟨htiles.mpr fun h => by omega,
        job_noOverflow hP' (by omega) (by omega) hpieces hn ⟨rfl, rfl, rfl, rfl⟩ hd hc⟩

/-- The list that the end of the call returns has not been worked on. -/
theorem finish_fresh {s : Split} {env : GenEnv} {P : Int} {reconnect : Bool} (hjobs : 0 < s.jobs)
    {d : JobsDescription} (hd : (s.finish env P reconnect).jobs = some d) : d.Fresh := by
  unfold Split.finish at hd
  split at hd
  · exact nomatch hd
  · split at hd
    · exact nomatch hd
    · obtain rfl := Option.some.inj hd
      refine ⟨?_, ?_, ?_, rfl, rfl, rfl⟩
      · intro hnil
        have := List.range_eq_nil.mp (List.map_eq_nil_iff.mp hnil)
        omega
      · intro i job hjob
        simp only [List.getElem?_map, Option.map_eq_some_iff] at hjob
        obtain ⟨j, hj, rfl⟩ := hjob
        obtain ⟨-, rfl⟩ := List.getElem?_eq_some_iff.mp hj
        simp [Split.job]
      · intro job hjob
        obtain ⟨i, -, rfl⟩ := List.mem_map.mp hjob
        exact ⟨rfl, rfl⟩

/-- The list of jobs that a call returns has not been worked on. -/
theorem genJobsFrom_fresh {env : GenEnv} {header : Option String} {P : Int} {reconnect : Bool}
    {resp : StartResult} (hP : 0 < P) (hlen : resp.content_length < 2147483648)
    {d : JobsDescription} (hd : (genJobsFrom env header P reconnect resp).jobs = some d) :
    d.Fresh := by
  unfold genJobsFrom at hd
  dsimp only at hd
  generalize hl : (if resp.content_length ≤ 0 then -1 else resp.content_length) = length at hd
  split at hd
  -- without ranges or a length there is one job
  · exact finish_fresh Int.one_pos hd
  · rename_i hrange
    have hpos : 0 < length := by
      by_contra h
      simp [show length ≤ 0 by omega] at hrange
    have hlt : length < 2147483648 := by
      rw [← hl]
      split <;> omega
    obtain ⟨L, rfl⟩ := Int.eq_ofNat_of_zero_le (Int.le_of_lt hpos)
    obtain ⟨P, rfl⟩ := Int.eq_ofNat_of_zero_le (Int.le_of_lt hP)
    -- otherwise there are as many as pieces, or one after all
    obtain ⟨n, hpieces, hn, -⟩ := pieces_spec (P := P) (L := L) (by omega) (by omega)
    rw [hpieces] at hd
    split at hd
    · split at hd
      · exact nomatch hd
      · split at hd
        · split at hd
          · exact finish_fresh (by dsimp only; omega) hd
          · exact finish_fresh Int.one_pos hd
        · exact finish_fresh Int.one_pos hd
    · exact finish_fresh (by dsimp only; omega) hd

/-- A connection that is open was opened by one of the attempts. -/
theorem startLoop_some {attempt : Nat → StartResult} {i n : Nat} {r : StartResult}
    (h : startLoop attempt i n = some r) : ∃ j, r = attempt j := by
  induction n generalizing i with
  | zero => exact nomatch h
  | succ n ih =>
    simp only [startLoop] at h
    split at h
    · exact ⟨i, (Option.some.inj h).symm⟩
    · split at h
      · exact nomatch h
      · exact ih h

/-- If the server serves ranges and the content is larger than a piece, the second header
    can be built; and if the server serves the second range too, the pieces are of more than
    one byte and all jobs can be allocated. -/
def GenEnv.Good (env : GenEnv) (url : Option String) (piece_buf_size : Int) : Prop :=
  url ≠ none → env.mallocDesc = true → env.mallocHeader 0 = true →
    ∀ resp, startLoop env.first 0 3 = some resp → resp.accept_range = true →
      piece_buf_size < resp.content_length → env.Sound piece_buf_size resp.content_length

/-- A call does all it should exactly for these inputs. -/
theorem genJobs_correct_iff {env : GenEnv} {url header : Option String} {P : Int}
    {reconnect : Bool} (hP : 0 < P) (hlen : ∀ i, (env.first i).content_length < 2147483648) :
    (genJobs env url header P reconnect).Correct P ↔ env.Good url P := by
  unfold genJobs GenEnv.Good
  cases url with
  | none => exact iff_of_true (fun o ho => nomatch ho) fun h => absurd rfl h
  | some url =>
    dsimp only
    cases env.mallocDesc with
    | false => exact iff_of_true (fun o ho => nomatch ho) fun _ h => nomatch h
    | true =>
      cases env.mallocHeader 0 with
      | false => exact iff_of_true (fun o ho => nomatch ho) fun _ _ h => nomatch h
      | true =>
        simp only [addHttpHeaderForRangeDl, httpHeaderForRange, if_true, Bool.not_true,
          Bool.false_eq_true, if_false]
        -- up to here nothing has been opened
        cases hstart : startLoop env.first 0 3 with
        | none => exact iff_of_true (fun o ho => nomatch ho) fun _ _ _ resp h => nomatch h
        | some resp =>
          -- the answer is that of one of the attempts
          have hresp : resp.content_length < 2147483648 := by
            obtain ⟨i, rfl⟩ := startLoop_some hstart
            exact hlen i
          rw [genJobsFrom_correct_iff hP hresp]
          constructor
          · intro h _ _ _ resp' hresp' haccept hlt
            obtain rfl := Option.some.inj hresp'
            exact h haccept hlt
          · intro h haccept hlt
            exact h (by simp) trivial trivial resp rfl haccept hlt

/-- A list of jobs that `Gen_Jobs` returns has not been worked on. -/
theorem genJobs_fresh {env : GenEnv} {url header : Option String} {P : Int} {reconnect : Bool}
    (hP : 0 < P) (hlen : ∀ i, (env.first i).content_length < 2147483648) {d : JobsDescription}
    (hd : (genJobs env url header P reconnect).jobs = some d) : d.Fresh := by
  unfold genJobs at hd
  split at hd
  · exact nomatch hd
  · split at hd
    · exact nomatch hd
    · split at hd
      · exact nomatch hd
      · split at hd
        · exact nomatch hd
        · rename_i resp hstart
          obtain ⟨i, rfl⟩ := startLoop_some hstart
          exact genJobsFrom_fresh hP (hlen i) hd

/-- A server that serves ranges of a content of this length, with enough memory. -/
def plainServer (length : Int) : GenEnv where
  first _ := { opened := true, resp_code := 206, content_length := length, accept_range := true }
  second _ := { opened := true, resp_code := 206, content_length := length, accept_range := true }
  mallocDesc := true
  mallocHeader _ := true
  mallocArray := true
  mallocJob _ := true

/-- A content of three pieces of the size that is used. -/
theorem genJobs_correct_iff_threePieces :
    (genJobs (plainServer 1000000) (some "http://h/f") none 393216 true).Correct 393216 := by
  have hlen : ∀ i, ((plainServer 1000000).first i).content_length < 2147483648 :=
    fun _ => show (1000000 : Int) < 2147483648 by decide
  exact (genJobs_correct_iff (by decide) hlen).mpr fun _ _ _ _ _ _ _ =>
    ⟨rfl, fun _ _ _ => ⟨by decide, rfl, fun _ _ => rfl⟩⟩

/-- Without memory for the array of the jobs the second connection stays open; and the
    first of two jobs of one byte asks for both. -/
theorem genJobs_leaks :
    ¬ (genJobs { plainServer 1000000 with mallocArray := false } (some "http://h/f") none 393216
        true).Correct 393216 ∧
      ¬ (genJobs (plainServer 2) (some "http://h/f") none 1 true).Correct 1 := by
  constructor
  · intro h
    have hopen := h ⟨1, rangeOf 393216 393216⟩ (by decide +kernel)
    exact absurd hopen (by decide +kernel)
  · intro h
    have hasks := (h.1 rfl).1.asks { seg_size := 1, offset := 0, job_index := 0, job_id := 0
                                     pDownloadHandle := some 0 } (by decide +kernel) 1
    have hopen : (rangeOf 0 1).last = none := by decide +kernel
    have := hasks.mp ⟨by decide, by decide, by decide, by rw [hopen]; simp⟩
    exact absurd this.2 (by decide)

end Tntsat.SmartHttp
