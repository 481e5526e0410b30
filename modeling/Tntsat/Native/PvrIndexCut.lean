import Tntsat.Native.PvrIndex

/-!
# Cutting an event out of an index

`PVR_Index_CutEventPart` of `msp/api/pvr/mt_pvr_index.c`: it looks for two positions of
the stream in the entries of an index file and writes the entries between them, with
their offsets counted from the first position, to another file.

A file of entries is the entry found at each byte offset.  The header is kept apart from
it; of the header's fields those are here that the function reads or writes.  Reads,
writes and the allocation succeed.
-/

namespace Tntsat.PvrIndex

open PvrIdxCache (sizeofEntry)

/-- The header-zone of an index file, the fields that the function uses. -/
structure CutHeader where
  u32StartFrame : Nat := 0
  u32EndFrame : Nat := 0
  u32LastFrame : Nat := 0
  u32IsRewind : Bool := false
  shareFlagTsFile : Nat := 0
deriving DecidableEq

/-- An index file that is read. -/
structure CutSource where
  header : CutHeader
  /-- the entry at a byte offset -/
  entryAt : Nat → IndexEntry

/-- What is left in the index file that is written, and what is returned. -/
structure CutOut where
  ret : Int
  header : CutHeader
  /-- the entries behind the header-zone -/
  entries : List IndexEntry := []
deriving DecidableEq

/-- `PVR_READ` of entry `m`. -/
def CutSource.read (src : CutSource) (u32HeadInfoSize m : Nat) : IndexEntry :=
  src.entryAt (u32 (u32HeadInfoSize + m * sizeofEntry))

/-- The position in the stream of entry `m`. -/
def CutSource.offset (src : CutSource) (u32HeadInfoSize m : Nat) : Nat :=
  (src.read u32HeadInfoSize m).u64GlobalOffset

/-- The loops that look for a position of the stream between the entries `s` and `e`,
    from `m` on: both bounds at the end, or twice the entry that lies at the position.
    `none` when a loop is still running after `fuel` rounds. -/
def cutSearch (offset : Nat → Nat) (pos : Nat) : Nat → Nat → Nat → Nat → Option (Nat × Nat)
  | 0, _, _, _ => none
  | fuel + 1, s, e, m =>
    if offset m < pos then
      let tmpm := u32 (m + e) / 2
      if m = tmpm then some (m, e) else cutSearch offset pos fuel m e tmpm
    else if pos < offset m then
      let tmpm := u32 (s + m) / 2
      if m = tmpm then some (s, m) else cutSearch offset pos fuel s m tmpm
    else some (m, m)

/-- An entry with its offsets counted from `startpos`. -/
def IndexEntry.rebase (startpos : Nat) (e : IndexEntry) : IndexEntry :=
  { e with
    u64GlobalOffset := u64sub e.u64GlobalOffset startpos
    u64Offset := u64sub e.u64Offset startpos }

/-- The entries from `findstart` up to `findend`, read with one `PVR_READ`. -/
def CutSource.readRun (src : CutSource) (u32HeadInfoSize findstart findend : Nat) :
    List IndexEntry :=
  (List.range (findend - findstart)).map fun k =>
    src.entryAt (u32 (u32HeadInfoSize + findstart * sizeofEntry) + k * sizeofEntry)

/-- The entries between the positions that were found, and their header. -/
def writeCut (src : CutSource) (shareFlagTsFile u32HeadInfoSize startpos findstart findend : Nat) :
    CutOut :=
  let entries := (src.readRun u32HeadInfoSize findstart findend).map (·.rebase startpos)
  let u32EndFrame := u32sub entries.length 1
  { ret := u32EndFrame
    header := { src.header with
      u32StartFrame := 0
      u32EndFrame := u32EndFrame
      u32LastFrame := u32EndFrame
      u32IsRewind := false
      shareFlagTsFile := shareFlagTsFile }
    entries := entries }

/-- `PVR_Index_CutEventPart`; `shareFlagTsFile` is that of the header passed in. -/
def cutEventPart (src : CutSource) (shareFlagTsFile u32HeadInfoSize startpos endpos fuel : Nat) :
    Option CutOut :=
  if src.header.u32EndFrame < 5 then some { ret := -1, header := src.header }
  else
    let e := src.header.u32EndFrame - 1
    let m := u32 (0 + e) / 2
    match cutSearch (src.offset u32HeadInfoSize) startpos fuel 0 e m,
        cutSearch (src.offset u32HeadInfoSize) endpos fuel 0 e m with
    | some (_, findstart), some (findend, _) =>
      if findstart = 0xffffffff ∨ findend = 0xffffffff then
        some { ret := -1, header := src.header }
      else some (writeCut src shareFlagTsFile u32HeadInfoSize startpos findstart findend)
    | _, _ => none

end Tntsat.PvrIndex
