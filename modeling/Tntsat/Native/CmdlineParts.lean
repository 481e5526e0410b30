import Tntsat.ForStd.CInt
import Tntsat.ForStd.CText

/-!
# The partitions of an eMMC device on the command line

`parse_cmdline` of `common/api/flash/src/cmdline_parts.c` with what it calls, and
`find_flash_part` and `get_part_info` on the list it leaves.

The structures lie in a heap, with a numbering of its own for each of the two kinds of
blocks; the number of a block is its address, and 0 is `NULL`.  `malloc` always returns
a new block, and what it holds then is a parameter.  A function that reads or frees a
block that is not there has no result.  A text is the list of its characters; the
number of bytes of a string is bounded by the buffers it is copied to.
-/

namespace Tntsat.Cmdline

/-- `BDEVNAME_SIZE`. -/
def bdevnameSize : Nat := 32

/-- The bytes of `buf` in `parse_parts`. -/
def bufSize : Nat := bdevnameSize + 32 + 4

/-- `MAX_PARTS`. -/
def maxParts : Nat := 32

/-- `-EINVAL`. -/
def eInval : Int := -22

/-- `struct cmdline_subpart`. -/
structure CmdlineSubpart where
  name : List Char
  «from» : Nat
  size : Nat
  next_subpart : Nat
deriving DecidableEq

/-- `struct cmdline_parts`. -/
structure CmdlineParts where
  name : List Char := []
  end_addr : Nat := 0
  subpart : Nat := 0
  next_parts : Nat := 0
deriving DecidableEq

/-! ## The heap -/

/-- The blocks in use, how many `malloc` has returned, and the pointer to the first
    device. -/
structure Heap where
  subpart : Nat → Option CmdlineSubpart := fun _ => none
  parts : Nat → Option CmdlineParts := fun _ => none
  subparts : Nat := 0
  devices : Nat := 0
  head : Nat := 0

/-- A block takes a value, or is freed. -/
def Heap.setSubpart (h : Heap) (a : Nat) (x : Option CmdlineSubpart) : Heap :=
  { h with subpart := fun i => if i = a then x else h.subpart i }

def Heap.setParts (h : Heap) (a : Nat) (x : Option CmdlineParts) : Heap :=
  { h with parts := fun i => if i = a then x else h.parts i }

/-- Some fields of a block are written. -/
def Heap.modifySubpart (h : Heap) (a : Nat) (f : CmdlineSubpart → CmdlineSubpart) : Heap :=
  h.setSubpart a ((h.subpart a).map f)

def Heap.modifyParts (h : Heap) (a : Nat) (f : CmdlineParts → CmdlineParts) : Heap :=
  h.setParts a ((h.parts a).map f)

/-- Where the pointer to a partition is kept: `struct cmdline_subpart **`. -/
inductive SubpartLink
  | first (parts : Nat)
  | next (subpart : Nat)

/-- Where the pointer to a device is kept: `struct cmdline_parts **`. -/
inductive PartsLink
  | head
  | next (parts : Nat)

def Heap.storeSubpart (h : Heap) (link : SubpartLink) (a : Nat) : Heap :=
  match link with
  | .first p => h.modifyParts p fun x => { x with subpart := a }
  | .next q => h.modifySubpart q fun x => { x with next_subpart := a }

def Heap.loadSubpart (h : Heap) (link : SubpartLink) : Nat :=
  match link with
  | .first p => ((h.parts p).map (·.subpart)).getD 0
  | .next q => ((h.subpart q).map (·.next_subpart)).getD 0

def Heap.storeParts (h : Heap) (link : PartsLink) (a : Nat) : Heap :=
  match link with
  | .head => { h with head := a }
  | .next p => h.modifyParts p fun x => { x with next_parts := a }

def Heap.loadParts (h : Heap) (link : PartsLink) : Nat :=
  match link with
  | .head => h.head
  | .next p => ((h.parts p).map (·.next_parts)).getD 0

/-! ## One partition -/

/-- `memparse`. -/
def memparse (ptr : List Char) : Nat × List Char :=
  match strtoull ptr with
  | (ret, 'G' :: endptr) => (u64 (ret * 2 ^ 30), endptr)
  | (ret, 'g' :: endptr) => (u64 (ret * 2 ^ 30), endptr)
  | (ret, 'M' :: endptr) => (u64 (ret * 2 ^ 20), endptr)
  | (ret, 'm' :: endptr) => (u64 (ret * 2 ^ 20), endptr)
  | (ret, 'K' :: endptr) => (u64 (ret * 2 ^ 10), endptr)
  | (ret, 'k' :: endptr) => (u64 (ret * 2 ^ 10), endptr)
  | (ret, endptr) => (ret, endptr)

/-- The size of a partition: `-` is the rest of the device. -/
def parseSize (cmdline : List Char) : Nat × List Char :=
  match cmdline with
  | '-' :: cmdline => (2 ^ 64 - 1, cmdline)
  | _ => memparse cmdline

/-- Its address: without `@` it starts where the one before it ends. -/
def parseFrom (end_addr : Nat) (cmdline : List Char) : Nat × List Char :=
  match cmdline with
  | '@' :: cmdline => memparse cmdline
  | _ => (end_addr, cmdline)

/-- Its name, `none` when the bracket is not closed. -/
def parseName (cmdline : List Char) : Option (List Char) :=
  match cmdline with
  | '(' :: cmdline =>
    if ')' ∈ cmdline then some ((cmdline.takeWhile (· ≠ ')')).take (bdevnameSize - 1)) else none
  | _ => some []

/-- `parse_subpart`; `garbage` is what `malloc` leaves in each block. -/
def parseSubpart (garbage : Nat → CmdlineSubpart) (h : Heap) (parts : Nat) (subpart : SubpartLink)
    (cmdline : List Char) : Heap × Int :=
  let h := h.storeSubpart subpart 0
  let new_subpart := h.subparts + 1
  let h := { h.setSubpart new_subpart (some (garbage new_subpart)) with subparts := new_subpart }
  let (size, cmdline) := parseSize cmdline
  let h := h.modifySubpart new_subpart fun x => { x with size := size }
  -- the label `fail`: the new block is freed, and the pointer stays `NULL`
  if size = 0 then (h.setSubpart new_subpart none, eInval)
  else
    let (start, cmdline) := parseFrom (((h.parts parts).map (·.end_addr)).getD 0) cmdline
    let h := h.modifySubpart new_subpart fun x => { x with «from» := start }
    -- the next partition starts here unless it has an address of its own
    let h := h.modifyParts parts fun x => { x with end_addr := u64 (start + size) }
    match parseName cmdline with
    | none => (h.setSubpart new_subpart none, eInval)
    | some name =>
      let h := h.modifySubpart new_subpart fun x => { x with name := name }
      (h.storeSubpart subpart new_subpart, 0)

/-! ## Freeing -/

/-- `free_subpart`. -/
def freeSubpart : Nat → Heap → Nat → Option Heap
  | 0, _, _ => none
  | fuel + 1, h, parts =>
    match h.parts parts with
    | none => none
    | some p =>
      if p.subpart = 0 then some h
      else
        match h.subpart p.subpart with
        | none => none
        | some x =>
          let h := h.modifyParts parts fun p => { p with subpart := x.next_subpart }
          -- `next_subpart` is read before the block is freed
          freeSubpart fuel (h.setSubpart p.subpart none) parts

/-- `free_parts`. -/
def freeParts : Nat → Heap → Option Heap
  | 0, _ => none
  | fuel + 1, h =>
    if h.head = 0 then some h
    else
      match h.parts h.head with
      | none => none
      | some p =>
        match freeSubpart (h.subparts + 1) h h.head with
        | none => none
        | some h => freeParts fuel { h.setParts h.head none with head := p.next_parts }

/-! ## One device, and all of them -/

/-- The `while` loop of `parse_parts`; `cmdline` is what lies behind `next`. -/
def partsLoop (garbage : Nat → CmdlineSubpart) :
    Nat → Heap → Nat → SubpartLink → List Char → Int → Heap × Int
  | 0, h, _, _, _, ret => (h, ret)
  | fuel + 1, h, parts, next_subpart, cmdline, ret =>
    if cmdline = [] then (h, ret)
    else
      -- what does not fit into `buf` is cut off
      let buf := (cmdline.takeWhile (· ≠ ',')).take (bufSize - 1)
      let (h, ret) := parseSubpart garbage h parts next_subpart buf
      if ret ≠ 0 then (h, ret)
      else if ',' ∈ cmdline then
        partsLoop garbage fuel h parts (.next (h.loadSubpart next_subpart)) (behind ',' cmdline) ret
      else (h, ret)

/-- The label `fail` of `parse_parts`. -/
def failParts (h : Heap) (newparts : Nat) (ret : Int) : Option (Heap × Int) :=
  match freeSubpart (h.subparts + 1) h newparts with
  | none => none
  | some h => some (h.setParts newparts none, ret)

/-- `parse_parts`. -/
def parseParts (garbage : Nat → CmdlineSubpart) (h : Heap) (parts : PartsLink)
    (cmdline : List Char) : Option (Heap × Int) :=
  let h := h.storeParts parts 0
  let newparts := h.devices + 1
  let h := { h.setParts newparts (some {}) with devices := newparts }
  if ':' ∈ cmdline then
    let name := (cmdline.takeWhile (· ≠ ':')).take (bdevnameSize - 1)
    let h := h.modifyParts newparts fun x => { x with name := name, end_addr := 0 }
    let next := behind ':' cmdline
    let (h, ret) := partsLoop garbage (next.length + 1) h newparts (.first newparts) next eInval
    -- without a partition the loop leaves `-EINVAL`
    if ret ≠ 0 ∨ h.loadSubpart (.first newparts) = 0 then failParts h newparts ret
    else some (h.storeParts parts newparts, 0)
  else failParts h newparts eInval

/-- The `while` loop of `parse_cmdline`. -/
def cmdlineLoop (garbage : Nat → CmdlineSubpart) :
    Nat → Heap → PartsLink → List Char → Option (Heap × Int)
  | 0, _, _, _ => none
  | fuel + 1, h, next_parts, pbuf =>
    if pbuf = [] then some (h, 0)
    else
      match parseParts garbage h next_parts (pbuf.takeWhile (· ≠ ';')) with
      | none => none
      | some (h, ret) =>
        if ret ≠ 0 then some (h, ret)
        else if ';' ∈ pbuf then
          cmdlineLoop garbage fuel h (.next (h.loadParts next_parts)) (behind ';' pbuf)
        else some (h, 0)

/-- `parse_cmdline`: the heap it leaves, and its result. -/
def parseCmdline (garbage : Nat → CmdlineSubpart) (cmdline : List Char) : Option (Heap × Int) :=
  match cmdlineLoop garbage (cmdline.length + 1) {} .head cmdline with
  | none => none
  | some (h, ret) =>
    let fail := fun (ret : Int) => (freeParts (h.devices + 1) h).map fun h => (h, ret)
    if ret ≠ 0 then fail ret
    else if h.head = 0 then fail eInval
    else some (h, 0)

/-! ## Looking partitions up -/

/-- `strncmp` of strings finds no difference. -/
def strncmpEq (a b : List Char) (n : Nat) : Bool := a.take n = b.take n

/-- The first `while` loop of `find_flash_part`: the device of a name, `NULL` if there is none. -/
def findParts (h : Heap) (media_name : List Char) : Nat → Nat → Option Nat
  | 0, _ => none
  | fuel + 1, a =>
    if a = 0 then some 0
    else
      match h.parts a with
      | none => none
      | some p =>
        -- the first one of the name
        if strncmpEq p.name media_name bdevnameSize then some a
        else findParts h media_name fuel p.next_parts

/-- The second one: the partition of a name. -/
def findSubpart (h : Heap) (ptn_name : List Char) : Nat → Nat → Option (Option CmdlineSubpart)
  | 0, _ => none
  | fuel + 1, a =>
    if a = 0 then some none
    else
      match h.subpart a with
      | none => none
      | some x =>
        if strncmpEq x.name ptn_name bdevnameSize then some (some x)
        else findSubpart h ptn_name fuel x.next_subpart

/-- `find_flash_part` with no argument `NULL`: start and length of a partition. -/
def findFlashPart (h : Heap) (media_name ptn_name : List Char) : Option (Option (Nat × Nat)) :=
  match findParts h media_name (h.devices + 1) h.head with
  | none => none
  | some 0 => some none
  | some a =>
    match h.parts a with
    | none => none
    | some p =>
      (findSubpart h ptn_name (h.subparts + 1) p.subpart).map fun x =>
        x.map fun x => (x.from, x.size)

/-- The `while` loop of `get_part_info`: what it copies to `cmdline_partition`. -/
def copyParts (h : Heap) : Nat → Nat → Option (List (Nat × Nat))
  | 0, _ => some []
  | room + 1, part =>
    if part = 0 then some []
    else
      match h.subpart part with
      | none => none
      | some x => (copyParts h room x.next_subpart).map ((x.from, x.size) :: ·)

/-- `get_part_info`: start and size of a partition by its number. -/
def getPartInfo (h : Heap) (partnum : Nat) : Option (Option (Nat × Nat)) :=
  if h.head = 0 then some none
  else
    match h.parts h.head with
    | none => none
    | some p =>
      if p.subpart = 0 then some none
      else
        -- all of them are copied before the number is looked at
        (copyParts h maxParts p.subpart).map fun l =>
          if partnum = 0 ∨ partnum > l.length then none else l[partnum - 1]?

end Tntsat.Cmdline
