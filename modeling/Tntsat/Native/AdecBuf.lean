import Tntsat.ForStd.CInt
import Tntsat.ForStd.Machine
import Tntsat.ForStd.Ring
import Tntsat.ForStd.Span

/-!
# The audio ES buffer

`msp/drv/adec/buf/adec_buf_k.c`.  A write copies one packet into the ring of
`esBufSize` bytes at `dataPhy` and describes it in the next of `pktCnt`
descriptors.  The consumer is the audio processor: it takes the packets in order
and moves `esRd` behind each.

The descriptors are a memory of their own, with cells up to `pktCnt` (the driver
sets `pkt_cnt` to `ADEC_ES_HEADER_CNT`, the length of the array).  `audio_dma_memcpy`
is a copy; cache maintenance is not modelled.
-/

namespace Tntsat.AdecBuf

/-- `adec_es_pkt_t`. -/
structure AdecEsPkt where
  pts : Nat := 0
  valid : Nat := 0
  esRd : Nat := 0
  size : Nat := 0
  flag : Nat := 0
  esTs : Nat := 0
deriving DecidableEq

/-- `adec_es_buf_t`. -/
structure AdecEsBuf where
  pktRd : Nat
  pktWt : Nat
  pktCnt : Nat
  esPkt : Memory AdecEsPkt
  esRd : Nat
  esWt : Nat
  esBufSize : Nat
  dataPhy : Nat

/-- The buffer and the memory its data lies in. -/
structure State where
  esBuf : AdecEsBuf
  mem : Memory UInt8

/-- `adec_es_buf_clear`. -/
def adecEsBufClear (b : AdecEsBuf) : AdecEsBuf :=
  { b with esRd := 0, esWt := 0, pktRd := 0, pktWt := 0, esPkt := fun _ => {} }

/-- `check_es_pkt`: there are two free descriptors. -/
def checkEsPkt (b : AdecEsBuf) : Bool :=
  let remain :=
    if b.pktWt ≥ b.pktRd then u32sub b.pktCnt (b.pktWt - b.pktRd) else b.pktRd - b.pktWt
  1 < remain

/-- `esPkt[pktWt].flag = flag`. -/
def AdecEsBuf.setFlag (b : AdecEsBuf) (flag : Nat) : AdecEsBuf :=
  { b with esPkt := b.esPkt.set b.pktWt { b.esPkt b.pktWt with flag } }

@[simp] theorem AdecEsBuf.setFlag_esRd (b : AdecEsBuf) (flag : Nat) :
    (b.setFlag flag).esRd = b.esRd := rfl

@[simp] theorem AdecEsBuf.setFlag_esWt (b : AdecEsBuf) (flag : Nat) :
    (b.setFlag flag).esWt = b.esWt := rfl

@[simp] theorem AdecEsBuf.setFlag_esBufSize (b : AdecEsBuf) (flag : Nat) :
    (b.setFlag flag).esBufSize = b.esBufSize := rfl

/-- `check_es_buf`: find `size` contiguous bytes at `esWt`, or at the head of the
    buffer, where it moves `esWt` then. -/
def checkEsBuf (b : AdecEsBuf) (size : Nat) : AdecEsBuf × Bool :=
  if size = 0 then (b, false)
  else
    let rd := b.esRd
    let wt := b.esWt
    let b := b.setFlag 0
    let remain := if wt ≥ rd then u32sub b.esBufSize (wt - rd) else rd - wt
    if remain ≤ size then (b, false)
    else if wt ≥ rd then
      if u32sub b.esBufSize wt ≥ size then (b, true)
      else if rd > size then ({ b with esWt := 0 }.setFlag 1, true)
      else (b, false)
    else if rd - wt > size then (b, true)
    else (b, false)

/-- The copy in `adec_es_write`, in one piece or two, and `es_wt` behind it. -/
def copyEs (b : AdecEsBuf) (mem : Memory UInt8) (data : List UInt8) : Memory UInt8 × Nat :=
  if b.esWt ≥ b.esRd then
    let rightCp := u32sub b.esBufSize b.esWt
    if rightCp ≥ data.length then
      (mem.write (b.dataPhy + b.esWt) data, u32 (b.esWt + data.length))
    else
      ((mem.write (b.dataPhy + b.esWt) (data.take rightCp)).write b.dataPhy (data.drop rightCp),
        data.length - rightCp)
  else (mem.write (b.dataPhy + b.esWt) data, u32 (b.esWt + data.length))

/-- The descriptor `adec_es_write` fills, on top of what it held. -/
def describe (p : AdecEsPkt) (esWt size pts ptsValid : Nat) : AdecEsPkt :=
  { p with pts, valid := ptsValid, esRd := esWt, size, esTs := 1 }

/-- `adec_es_write` of the bytes `data` at address `src`; a size that is not
    positive is an empty `data`. -/
def adecEsWrite (s : State) (src : Nat) (data : List UInt8) (pts ptsValid : Nat) : State × Int :=
  if src = 0 ∨ data.length = 0 then (s, -1)
  else if s.esBuf.dataPhy = 0 then (s, -1)
  else if checkEsPkt s.esBuf then
    match checkEsBuf s.esBuf data.length with
    | (b, false) => ({ s with esBuf := b }, -1)
    | (b, true) =>
      let (mem, esWt) := copyEs b s.mem data
      let pkt := describe (b.esPkt b.pktWt) b.esWt data.length pts ptsValid
      ({ esBuf := { b with
          esWt := esWt % b.esBufSize
          esPkt := b.esPkt.set b.pktWt pkt
          pktWt := u32 (b.pktWt + 1) % b.pktCnt }
         mem }, data.length)
  else (s, -1)

/-- The consumer takes the oldest packet, if there is one. -/
def takePkt (b : AdecEsBuf) : AdecEsBuf × Option AdecEsPkt :=
  if b.pktRd = b.pktWt then (b, none)
  else
    let p := b.esPkt b.pktRd
    ({ b with
        esRd := (p.esRd + p.size) % b.esBufSize
        pktRd := (b.pktRd + 1) % b.pktCnt }, some p)

/-! ## Runs -/

/-- What happens to the buffer. -/
inductive Step
  | write (src : Nat) (data : List UInt8) (pts ptsValid : Nat)
  | take

/-- What a step returned. -/
inductive Event
  | written (ret : Int)
  | taken (p : Option AdecEsPkt)
deriving DecidableEq

/-- The buffer as a machine over writes and consumer steps. -/
def machine : Machine State Step Event where
  step s
    | .write src data pts ptsValid =>
      let (s', ret) := adecEsWrite s src data pts ptsValid
      (s', .written ret)
    | .take =>
      let (b, p) := takePkt s.esBuf
      ({ s with esBuf := b }, .taken p)

/-- The number of descriptors between `pktRd` and `pktWt`. -/
def AdecEsBuf.count (b : AdecEsBuf) : Nat := (b.pktWt + b.pktCnt - b.pktRd) % b.pktCnt

/-- The packets that were written and not taken, the oldest first. -/
def AdecEsBuf.unread (b : AdecEsBuf) : List AdecEsPkt :=
  b.esPkt.readRing 0 b.pktCnt b.pktRd b.count

/-- The region of a packet in the buffer. -/
def AdecEsPkt.span (p : AdecEsPkt) : Span := { start := p.esRd, len := p.size }

end Tntsat.AdecBuf
