import Tntsat.Native.CcFifo

/-!
# Room in the caption byte FIFO

`Unread f held` says which bytes wait in the ring: the two positions tell at most 4095 of them
apart. A put of bytes that have room appends to them (`Unread.put`), and a get takes all or none
(`Unread.get`). The writer never looks at the reader's position, so a put without room succeeds
as well.

## Key results

- `Unread.put`, `Unread.get`: what the two calls do to the waiting bytes
- `kept_iff_room`: nothing is lost, reordered or wrongly accepted in exactly the runs in which
  every put has room
-/

namespace Tntsat.CcFifo

/-- The bytes that wait in the ring. -/
structure Unread (f : CcFifoInserter) (held : List UInt8) : Prop where
  read_lt : f.fifo_read_p < ccFifoTotalLength
  held_lt : held.length < ccFifoTotalLength
  write : f.fifo_write_p = (f.fifo_read_p + held.length) % ccFifoTotalLength
  contents : f.fifo_buff.readRing 0 ccFifoTotalLength f.fifo_read_p held.length = held

/-- The number of bytes that the positions tell. -/
def unread (f : CcFifoInserter) : Nat :=
  (f.fifo_write_p + ccFifoTotalLength - f.fifo_read_p) % ccFifoTotalLength

theorem Unread.unread_eq {f : CcFifoInserter} {held : List UInt8} (h : Unread f held) :
    unread f = held.length := by
  have hread := h.read_lt
  have hheld := h.held_lt
  have hwrap := wrap_eq (show f.fifo_read_p + held.length < ccFifoTotalLength + ccFifoTotalLength by omega)
  rw [unread, h.write, hwrap]
  split
  · rw [show f.fifo_read_p + held.length + ccFifoTotalLength - f.fifo_read_p =
      held.length + ccFifoTotalLength by omega, Nat.add_mod_right, Nat.mod_eq_of_lt hheld]
  · rw [show f.fifo_read_p + held.length - ccFifoTotalLength + ccFifoTotalLength - f.fifo_read_p =
      held.length by omega, Nat.mod_eq_of_lt hheld]

theorem Unread.init (fifo_buff : Memory UInt8) :
    Unread { fifo_read_p := 0, fifo_write_p := 0, fifo_buff := fifo_buff } [] :=
  ⟨Nat.zero_lt_succ _, Nat.zero_lt_succ _, rfl, rfl⟩

/-- Putting a chunk always succeeds. -/
theorem ccFifoPut_chunk (f : CcFifoInserter) (cc_data : Chunk) :
    ccFifoPut true (some f) cc_data.bytes =
      (some
        { f with
          fifo_buff := f.fifo_buff.writeRing 0 ccFifoTotalLength f.fifo_write_p cc_data.bytes
          fifo_write_p := u32 (f.fifo_write_p + cc_data.bytes.length) % ccFifoTotalLength },
        true) := by
  have hpos := cc_data.length_pos
  have hle := cc_data.length_le
  unfold ccFifoPut
  rw [if_neg Bool.noConfusion, if_neg (by omega), if_neg (by omega)]

/-- Bytes that have room are appended to the waiting ones. -/
theorem Unread.put {f : CcFifoInserter} {held : List UInt8} (h : Unread f held) (cc_data : Chunk)
    (hroom : held.length + cc_data.bytes.length < ccFifoTotalLength) :
    ∃ f', ccFifoPut true (some f) cc_data.bytes = (some f', true) ∧
      Unread f' (held ++ cc_data.bytes) := by
  have hlt : f.fifo_write_p < ccFifoTotalLength := by
    rw [h.write]
    exact Nat.mod_lt _ (by decide)
  have hsmall : ccFifoTotalLength = 4096 := rfl
  refine ⟨_, ccFifoPut_chunk f cc_data, h.read_lt, by simpa using hroom, ?_, ?_⟩
  · dsimp only
    rw [u32_of_lt (by omega), h.write, Nat.mod_add_mod, List.length_append, Nat.add_assoc]
  · dsimp only
    rw [List.length_append, h.write, Memory.readRing_writeRing _ _ h.read_lt (Nat.le_of_lt hroom), h.contents]

/-- A get takes all the waiting bytes or none. -/
theorem Unread.get {f : CcFifoInserter} {held : List UInt8} (h : Unread f held) :
    ∃ f' data rest, ccFifoGet (some f) = (some f', true, data) ∧ held = data ++ rest ∧
      Unread f' rest := by
  have hread := h.read_lt
  have hheld := h.held_lt
  have hwrap := wrap_eq (show f.fifo_read_p + held.length < ccFifoTotalLength + ccFifoTotalLength by omega)
  rw [← h.write] at hwrap
  have hnone : ∃ data rest, (some f, true, ([] : List UInt8)) = (some f, true, data) ∧
      held = data ++ rest ∧ Unread f rest := ⟨[], held, rfl, rfl, h⟩
  have hempty : ∀ rp, rp < ccFifoTotalLength → f.fifo_write_p = rp →
      Unread { f with fifo_read_p := rp } [] := by
    intro rp hrp hwrite
    exact ⟨hrp, by decide, by rw [hwrite]; exact (Nat.mod_eq_of_lt hrp).symm, rfl⟩
  unfold ccFifoGet
  dsimp only
  by_cases hsame : f.fifo_read_p = f.fifo_write_p
  · rw [if_pos hsame]
    exact ⟨f, hnone⟩
  rw [if_neg hsame]
  by_cases hahead : f.fifo_write_p > f.fifo_read_p
  · -- the waiting bytes lie before the end
    have hin : f.fifo_read_p + held.length < ccFifoTotalLength := by
      by_contra hout
      rw [if_neg hout] at hwrap
      omega
    rw [if_pos hin] at hwrap
    have hlen : f.fifo_write_p - f.fifo_read_p = held.length := by omega
    have hread1 := f.fifo_buff.readRing_eq_read 0 (Nat.le_of_lt hin)
    rw [h.contents, Nat.zero_add] at hread1
    rw [if_pos hahead, hlen, ← hread1]
    by_cases hsix : held.length ≥ 6
    · rw [if_pos hsix]
      exact ⟨_, held, [], rfl, (List.append_nil _).symm, hempty _ hin hwrap⟩
    · rw [if_neg hsix]
      exact ⟨f, hnone⟩
  · -- they go on at the start
    have hout : ¬ f.fifo_read_p + held.length < ccFifoTotalLength := by
      intro hin
      rw [if_pos hin] at hwrap
      omega
    rw [if_neg hout] at hwrap
    have hread2 := f.fifo_buff.readRing_eq_read_append 0 (Nat.le_of_lt hread)
      (Nat.le_of_not_lt hout) (Nat.le_of_lt hheld)
    have hrest : held.length - (ccFifoTotalLength - f.fifo_read_p) = f.fifo_write_p := by omega
    rw [h.contents, Nat.zero_add, hrest] at hread2
    rw [if_neg hahead, ← hread2]
    by_cases hsix : ccFifoTotalLength - f.fifo_read_p + f.fifo_write_p ≥ 6
    · rw [if_pos hsix]
      exact ⟨_, held, [], rfl, (List.append_nil _).symm, hempty _ (by omega) rfl⟩
    · rw [if_neg hsix]
      exact ⟨f, hnone⟩

/-! ## Runs -/

/-- The calls so far with what they reported, oldest first. -/
abbrev History := List (Call × Reply)

/-- The bytes of a successful put. -/
def acceptedBy : Call × Reply → List UInt8
  | (.put cc_data, .put true) => cc_data.bytes
  | _ => []

/-- The bytes that a get has returned. -/
def returnedBy : Call × Reply → List UInt8
  | (.get, .got data) => data
  | _ => []

def accepted (h : History) : List UInt8 := h.flatMap acceptedBy

def returned (h : History) : List UInt8 := h.flatMap returnedBy

@[simp] theorem accepted_append (h h' : History) : accepted (h ++ h') = accepted h ++ accepted h' :=
  List.flatMap_append

@[simp] theorem returned_append (h h' : History) : returned (h ++ h') = returned h ++ returned h' :=
  List.flatMap_append

/-- What is asked of a call: what all gets together have returned begins what the successful puts
have given, and a put is refused where the waiting bytes leave no room for it. -/
structure Kept (s : State × History) (c : Call) : Prop where
  ordered : returned (machine.traced.step s c).1.2 <+: accepted (machine.traced.step s c).1.2
  refused : ∀ cc_data, c = .put cc_data →
    ccFifoTotalLength ≤
      (accepted s.2).length - (returned s.2).length + cc_data.bytes.length →
    (machine.step s.1 c).2 = .put false

/-- Every put has room: with it, fewer bytes wait than the FIFO has. -/
def Room : State → Call → Prop
  | some f, .put cc_data => unread f + cc_data.bytes.length < ccFifoTotalLength
  | _, _ => True

/-- The invariant of runs whose puts have room. -/
def Waiting (s : State × History) : Prop :=
  ∃ f held, s.1 = some f ∧ Unread f held ∧ accepted s.2 = returned s.2 ++ held

theorem Waiting.init (fifo_buff : Memory UInt8) : Waiting (ccFifoInit fifo_buff, []) :=
  ⟨_, [], rfl, Unread.init fifo_buff, rfl⟩

/-- A call with room keeps what is asked, and the invariant. -/
theorem Waiting.step {s : State × History} (h : Waiting s) (c : Call) (hroom : Room s.1 c) :
    Kept s c ∧ Waiting (machine.traced.step s c).1 := by
  obtain ⟨f, held, hf, hun, hacc⟩ := h
  obtain ⟨s, hist⟩ := s
  dsimp only at hf hacc hroom
  subst hf
  have hlen : (accepted hist).length = (returned hist).length + held.length := by
    rw [hacc, List.length_append]
  cases c with
  | put cc_data =>
    -- the room asked for is what is not yet read
    have hroom' : held.length + cc_data.bytes.length < ccFifoTotalLength := by
      rw [← hun.unread_eq]
      exact hroom
    obtain ⟨f', hput, hun'⟩ := hun.put cc_data hroom'
    have hstep : machine.traced.step (some f, hist) (.put cc_data) =
        ((some f', hist ++ [(.put cc_data, .put true)]), .put true) := by
      simp [Machine.traced, machine, hput]
    -- a put returns nothing and accepts all of its bytes
    have hret : returned (hist ++ [(.put cc_data, .put true)]) = returned hist := by
      simp [returned, returnedBy]
    have hall : accepted (hist ++ [(.put cc_data, .put true)]) =
        returned hist ++ (held ++ cc_data.bytes) := by
      rw [accepted_append, hacc, List.append_assoc]
      simp [accepted, acceptedBy]
    refine ⟨⟨?_, ?_⟩, f', held ++ cc_data.bytes, ?_, hun', ?_⟩
    · rw [hstep, hret, hall]
      exact List.prefix_append _ _
    · rintro d hd hfull
      cases hd
      dsimp only at hfull
      omega
    · rw [hstep]
    · rw [hstep, hret, hall]
  | get =>
    obtain ⟨f', data, rest, hget, hheld, hun'⟩ := hun.get
    have hstep : machine.traced.step (some f, hist) .get =
        ((some f', hist ++ [(.get, .got data)]), .got data) := by
      simp [Machine.traced, machine, hget]
    -- a get returns the front of what was held
    have hret : returned (hist ++ [(.get, .got data)]) = returned hist ++ data := by
      simp [returned, returnedBy]
    have hall : accepted (hist ++ [(.get, .got data)]) = returned hist ++ data ++ rest := by
      rw [accepted_append, hacc, hheld, ← List.append_assoc]
      simp [accepted, acceptedBy]
    refine ⟨⟨?_, fun _ hput => nomatch hput⟩, f', rest, ?_, hun', ?_⟩
    · rw [hstep, hret, hall]
      exact List.prefix_append _ _
    · rw [hstep]
    · rw [hstep, hret, hall]

/-- A put without room succeeds. -/
theorem Waiting.not_kept {s : State × History} (h : Waiting s) {c : Call}
    (hroom : ¬ Room s.1 c) : ¬ Kept s c := by
  obtain ⟨f, held, hf, hun, hacc⟩ := h
  obtain ⟨s, hist⟩ := s
  dsimp only at hf hacc hroom
  subst hf
  cases c with
  | get => exact absurd trivial hroom
  | put cc_data =>
    intro hkept
    have hfull : ccFifoTotalLength ≤ held.length + cc_data.bytes.length := by
      rw [← hun.unread_eq]
      exact Nat.le_of_not_lt hroom
    have hrefused := hkept.refused cc_data rfl
      (by dsimp only; rw [hacc, List.length_append]; omega)
    dsimp only [machine] at hrefused
    rw [ccFifoPut_chunk] at hrefused
    exact absurd (Reply.put.inj hrefused) Bool.noConfusion

/-- From `cc_fifo_init` on, what is asked holds of every call of a run in exactly the runs in which
every put has room. -/
theorem kept_iff_room (fifo_buff : Memory UInt8) (calls : List Call) :
    machine.traced.Always Kept (ccFifoInit fifo_buff, []) calls ↔
      machine.Always Room (ccFifoInit fifo_buff) calls := by
  refine Iff.trans ?_ (machine.traced_always (ccFifoInit fifo_buff) [] calls)
  apply Machine.always_iff_of_invariant (I := Waiting)
  · intro s c h
    exact ⟨fun hkept => by_contra fun hroom => h.not_kept hroom hkept,
      fun hroom => (h.step c hroom).1⟩
  · exact fun s c h hroom => (h.step c hroom).2
  · exact Waiting.init fifo_buff

/-- As many bytes as the FIFO has. -/
def fullChunk : Chunk where
  bytes := List.replicate ccFifoTotalLength 0x80
  length_pos := by rw [List.length_replicate]; decide
  length_le := Nat.le_of_eq List.length_replicate

/-- A block of zeros. -/
def zeros : Memory UInt8 := fun _ => 0

/-- They are put with success, and the FIFO looks empty afterwards. -/
theorem fullChunk_lost :
    machine.outputs (ccFifoInit zeros) [.put fullChunk, .get] = [.put true, .got []] ∧
      ¬ machine.traced.Always Kept (ccFifoInit zeros, []) [.put fullChunk] := by
  have hlen : fullChunk.bytes.length = ccFifoTotalLength := List.length_replicate
  constructor
  · rw [Machine.outputs_cons, Machine.outputs_cons, Machine.outputs_nil]
    dsimp only [machine, ccFifoInit]
    rw [ccFifoPut_chunk, hlen]
    rfl
  · intro h
    refine (Waiting.init _).not_kept (fun hroom => ?_) h.1
    dsimp only [Room, ccFifoInit] at hroom
    rw [(Unread.init zeros).unread_eq, hlen] at hroom
    exact absurd hroom (Nat.not_lt.mpr (Nat.le_add_left _ _))

end Tntsat.CcFifo
