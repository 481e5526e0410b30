import Tntsat.Native.PvrIndexSeek

/-!
# The frame of an entry

`PVR_Index_GetFrmNumByEntry` of `msp/api/pvr/mt_pvr_index.c`: the number of the frame with
the position of an entry in the stream.  The part of the ring that the position can be in
is found from the entries at its ends, and the frame in this part by bisection.

What `PVR_Index_GetFrameByNum` returns is in a `ReadRes`; an entry that could not be read
is all 0, as the variables are before.  `IdxFile` is a file of entries without the caches.
-/

namespace Tntsat.PvrIndex

open PvrIdxCache (IdxErr sizeofEntry)

/-! ## The lookup -/

section Lookup

variable (read : Nat → ReadRes)

/-- The entry of frame `num`, or of the one before where the file ends. -/
def readLastEntry (num : Nat) : Option (Nat × IndexEntry) :=
  match read num with
  | .entry e => some (num, e)
  | .atEnd | .short =>
    match read (u32sub num 1) with
    | .entry e => some (u32sub num 1, e)
    | _ => none
  | .fails => none

/-- The entry of frame `num`, or of the one before where the file ends or the entry lies
    before the start frame. -/
def readEndEntry (startEntry : IndexEntry) (num : Nat) : Option (Nat × IndexEntry) :=
  let before :=
    match read (u32sub num 1) with
    | .entry e => some (u32sub num 1, e)
    | _ => none
  match read num with
  | .entry e => if e.u64GlobalOffset < startEntry.u64GlobalOffset then before else some (num, e)
  | .atEnd | .short => before
  | .fails => if 0 < startEntry.u64GlobalOffset then before else none

/-- The loop that looks for the position between two frames; `none` when it is still
    running after `fuel` rounds, `some none` when it fails. -/
def entrySearch (c : CycMgr) (pos : Nat) : Nat → Nat → Nat → Option (Option Int)
  | 0, _, _ => none
  | fuel + 1, start, «end» =>
    if s32 start ≤ s32 «end» then
      let mid := u32 (start + u32sub «end» start / 2)
      match read mid with
      | .entry e =>
        if pos < e.u64GlobalOffset then entrySearch c pos fuel start (u32sub mid 1)
        else if e.u64GlobalOffset < pos then entrySearch c pos fuel (u32 (mid + 1)) «end»
        else some (if c.isFrameValid mid then some (s32 mid) else none)
      | _ => some none
    else some none

/-- The loop, once the entry in the middle could be read. -/
def searchFrom (c : CycMgr) (pos fuel mid start «end» : Nat) : Option (Option Int) :=
  match read mid with
  | .entry _ => entrySearch read c pos fuel start «end»
  | _ => some none

/-- `PVR_Index_GetFrmNumByEntry`: `*ps32FrmNum` when it succeeds. -/
def getFrmNumByEntry (c : CycMgr) (pstIndexEntry : IndexEntry) (fuel : Nat) :
    Option (Option Int) :=
  let pos := pstIndexEntry.u64GlobalOffset
  match read c.u32StartFrame, read 0 with
  | .entry startEntry, .entry zeroEntry =>
    match readLastEntry read c.u32LastFrame, readEndEntry read startEntry c.u32EndFrame with
    | some (last, lastEntry), some («end», endEntry) =>
      if «end» ≤ c.u32StartFrame then
        -- the entry at the bound that moves is read once more
        if startEntry.u64GlobalOffset ≤ pos ∧ pos ≤ lastEntry.u64GlobalOffset then
          searchFrom read c pos fuel (u32sub last c.u32StartFrame / 2) c.u32StartFrame last
        else if pos ≤ endEntry.u64GlobalOffset ∧ zeroEntry.u64GlobalOffset ≤ pos then
          searchFrom read c pos fuel («end» / 2) 0 «end»
        else some none
      else searchFrom read c pos fuel («end» / 2) c.u32StartFrame «end»
    | _, _ => some none
  | _, _ => some none

end Lookup

/-! ## The file of entries -/

/-- The entry that is stored at a byte offset. -/
def IdxFile := Nat → Option IndexEntry

/-- `PVR_READ_INDEX` of entry `num`. -/
def IdxFile.read (file : IdxFile) (num : Nat) : ReadRes :=
  match file (u32 (num * sizeofEntry)) with
  | some e => .entry e
  | none => .atEnd

/-- `PVR_WRITE_INDEX` of entry `num`. -/
def IdxFile.write (file : IdxFile) (num : Nat) (e : IndexEntry) : IdxFile :=
  Function.update file (u32 (num * sizeofEntry)) (some e)

/-- The index over a file of entries that takes every write. -/
def entryFile : IdxStore IdxFile where
  cacheWriteIdx file e num direct := (file.write num e, none, direct)
  writeIndexFunc file e num := file.write num e
  flushIdxWriteCache file := file
  getEntryByNum file pEntry num :=
    match file.read num with
    | .entry e => (file, e, true)
    | _ => (file, pEntry, false)
  withOutcomes file _ := file

/-- `PVR_Index_GetFrmNumByEntry` on an index. -/
def Index.getFrmNumByEntry (s : Index IdxFile) (pstIndexEntry : IndexEntry) (fuel : Nat) :
    Option (Option Int) :=
  PvrIndex.getFrmNumByEntry s.store.read s.stCycMgr pstIndexEntry fuel

end Tntsat.PvrIndex
