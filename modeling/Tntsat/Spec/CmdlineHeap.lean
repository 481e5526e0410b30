import Mathlib.Algebra.GroupWithZero.Nat
import Tntsat.Native.CmdlineParts

/-!
# What the parser reads, and what it leaves in the heap

`readDevices` is the parser without its heap: the devices in front of the first one that
cannot be read.  The parser proper puts their partitions into consecutive blocks, each
linked to the next one; the link behind the last partition of a device is never
written, and holds what `malloc` has left there.

## Key results

- `parseSubpart_read`, `parseSubpart_fail`: one partition
- `partsLoop_spec`: the partitions of one device
- `parseParts_read`, `parseParts_fail`: one device
- `cmdlineLoop_spec`: all of them
-/

namespace Tntsat.Cmdline

/-! ## Reading -/

/-- A partition, without its link. -/
structure Part where
  name : List Char
  «from» : Nat
  size : Nat
deriving DecidableEq

/-- A partition in the heap. -/
def Part.node (x : Part) (next : Nat) : CmdlineSubpart :=
  { name := x.name, «from» := x.from, size := x.size, next_subpart := next }

/-- Where it ends. -/
def Part.end (x : Part) : Nat := u64 (x.from + x.size)

/-- Read one partition, behind one that ends at `e`. -/
def readPart (e : Nat) (buf : List Char) : Option Part :=
  let size := parseSize buf
  if size.1 = 0 then none
  else
    let start := parseFrom e size.2
    (parseName start.2).map fun name => { name := name, «from» := start.1, size := size.1 }

/-- The partitions in front of the first one that cannot be read, and whether there is none
    such. -/
def readParts : Nat → List (List Char) → List Part × Bool
  | _, [] => ([], true)
  | e, p :: ps =>
    match readPart e (p.take (bufSize - 1)) with
    | none => ([], false)
    | some x => (x :: (readParts x.end ps).1, (readParts x.end ps).2)

/-! ## Blocks -/

@[simp] theorem setSubpart_subpart (h : Heap) (a : Nat) (x : Option CmdlineSubpart) (i : Nat) :
    (h.setSubpart a x).subpart i = if i = a then x else h.subpart i := rfl

@[simp] theorem setSubpart_parts (h : Heap) (a : Nat) (x : Option CmdlineSubpart) :
    (h.setSubpart a x).parts = h.parts := rfl

@[simp] theorem setSubpart_head (h : Heap) (a : Nat) (x : Option CmdlineSubpart) :
    (h.setSubpart a x).head = h.head := rfl

@[simp] theorem setSubpart_subparts (h : Heap) (a : Nat) (x : Option CmdlineSubpart) :
    (h.setSubpart a x).subparts = h.subparts := rfl

@[simp] theorem setSubpart_devices (h : Heap) (a : Nat) (x : Option CmdlineSubpart) :
    (h.setSubpart a x).devices = h.devices := rfl

@[simp] theorem setParts_parts (h : Heap) (a : Nat) (x : Option CmdlineParts) (i : Nat) :
    (h.setParts a x).parts i = if i = a then x else h.parts i := rfl

@[simp] theorem setParts_subpart (h : Heap) (a : Nat) (x : Option CmdlineParts) :
    (h.setParts a x).subpart = h.subpart := rfl

@[simp] theorem setParts_head (h : Heap) (a : Nat) (x : Option CmdlineParts) :
    (h.setParts a x).head = h.head := rfl

@[simp] theorem setParts_subparts (h : Heap) (a : Nat) (x : Option CmdlineParts) :
    (h.setParts a x).subparts = h.subparts := rfl

@[simp] theorem setParts_devices (h : Heap) (a : Nat) (x : Option CmdlineParts) :
    (h.setParts a x).devices = h.devices := rfl

/-- A link of the device `p`, or of a partition in a block that is there. -/
def LinkOk (h : Heap) (p : Nat) : SubpartLink → Prop
  | .first q => q = p
  | .next q => q ≤ h.subparts ∧ ∃ x, h.subpart q = some x

/-- No block lies behind the last one that `malloc` has returned. -/
def Fresh (h : Heap) : Prop := ∀ i, h.subparts < i → h.subpart i = none

/-- What a step of the parser does to a device: it stores a pointer at a link and changes where
    the device ends; blocks that were there are otherwise as before. -/
structure Links (h h' : Heap) (p : Nat) (link : SubpartLink) (ptr : Nat) : Prop where
  subpart : ∀ i ≤ h.subparts, h'.subpart i = (h.storeSubpart link ptr).subpart i
  parts : ∀ q, q ≠ p → h'.parts q = h.parts q
  device : ∃ e, h'.parts p = ((h.storeSubpart link ptr).parts p).map fun x => { x with end_addr := e }
  head : h'.head = h.head
  devices : h'.devices = h.devices

variable {garbage : Nat → CmdlineSubpart} {h : Heap} {p : Nat} {link : SubpartLink}

variable (garbage) in
/-- A partition that is read goes to a new block, with the link that was there. -/
theorem parseSubpart_read {d : CmdlineParts} {buf : List Char} {x : Part} (hp : h.parts p = some d)
    (hfresh : Fresh h) (hlink : LinkOk h p link) (hread : readPart d.end_addr buf = some x) :
    ∃ h', parseSubpart garbage h p link buf = (h', 0) ∧ Links h h' p link (h.subparts + 1) ∧
      h'.subparts = h.subparts + 1 ∧ Fresh h' ∧
      h'.subpart (h.subparts + 1) = some (x.node (garbage (h.subparts + 1)).next_subpart) ∧
      (h'.parts p).map (·.end_addr) = some x.end := by
  rcases hsize : parseSize buf with ⟨size, rest⟩
  rcases hfrom : parseFrom d.end_addr rest with ⟨start, rest'⟩
  simp only [readPart, hsize, hfrom] at hread
  split at hread
  · cases hread
  · rename_i hne
    obtain ⟨name, hname, rfl⟩ := Option.map_eq_some_iff.mp hread
    have hlt := Nat.lt_succ_self h.subparts
    -- the link is one of the device, or one of the partition before
    cases link with
    | first q =>
      obtain rfl : q = p := hlink
      simp only [parseSubpart, hsize, hne, if_false, Heap.storeSubpart, Heap.modifyParts,
        Heap.modifySubpart, setSubpart_parts, setParts_parts, if_true, hp, Option.map_some,
        Option.getD_some, hfrom, hname, setParts_subparts]
      refine ⟨_, rfl, ⟨?_, ?_, ?_, rfl, rfl⟩, rfl, ?_, ?_, ?_⟩
      · intro i hi
        simp [Nat.ne_of_lt (Nat.lt_succ_of_le hi), Heap.storeSubpart, Heap.modifyParts]
      · intro q' hq
        simp [hq]
      · exact ⟨u64 (start + size), by simp [Heap.storeSubpart, Heap.modifyParts, hp]⟩
      · intro i hi
        simp only [setParts_subparts, setSubpart_subparts] at hi
        simp [Nat.ne_of_gt hi, hfresh i (by omega)]
      · simp [Part.node]
      · simp [Part.end]
    | next q =>
      have hq : q ≤ h.subparts := hlink.1
      have hqn : q ≠ h.subparts + 1 := by omega
      simp only [parseSubpart, hsize, hne, if_false, Heap.storeSubpart, Heap.modifyParts,
        Heap.modifySubpart, setSubpart_parts, hp, Option.map_some, Option.getD_some, hfrom, hname,
        setSubpart_subparts]
      refine ⟨_, rfl, ⟨?_, ?_, ?_, rfl, rfl⟩, rfl, ?_, ?_, ?_⟩
      · intro i hi
        simp only [setSubpart_subpart, Heap.storeSubpart, Heap.modifySubpart]
        have hin := Nat.ne_of_lt (Nat.lt_succ_of_le hi)
        by_cases hiq : i = q
        · subst hiq
          cases h.subpart i <;> simp [hin]
        · simp [hin, hiq]
      · intro q' hq
        simp [hq]
      · exact ⟨u64 (start + size), by simp [Heap.storeSubpart, Heap.modifySubpart, hp]⟩
      · intro i hi
        simp only [setParts_subparts, setSubpart_subparts] at hi
        have hiq : i ≠ q := by omega
        simp [Nat.ne_of_gt hi, hfresh i (by omega), hiq]
      · simp [Part.node, hqn.symm]
      · simp [Part.end]

variable (garbage) in
/-- A partition that cannot be read leaves `NULL` at its link. -/
theorem parseSubpart_fail {d : CmdlineParts} {buf : List Char} (hp : h.parts p = some d)
    (hfresh : Fresh h) (hlink : LinkOk h p link) (hread : readPart d.end_addr buf = none) :
    ∃ h', parseSubpart garbage h p link buf = (h', eInval) ∧ Links h h' p link 0 ∧
      h'.subparts = h.subparts + 1 ∧ (∀ i, h.subparts < i → h'.subpart i = none) := by
  rcases hsize : parseSize buf with ⟨size, rest⟩
  rcases hfrom : parseFrom d.end_addr rest with ⟨start, rest'⟩
  simp only [readPart, hsize, hfrom] at hread
  -- the new block is freed, and the device changes at most where it ends
  have hlinks : ∀ h' : Heap,
      (∀ i, h'.subpart i = if i = h.subparts + 1 then none else (h.storeSubpart link 0).subpart i) →
      (∀ q, q ≠ p → h'.parts q = (h.storeSubpart link 0).parts q) →
      (∃ e, h'.parts p = ((h.storeSubpart link 0).parts p).map fun x => { x with end_addr := e }) →
      h'.head = h.head → h'.devices = h.devices → h'.subparts = h.subparts + 1 →
      Links h h' p link 0 ∧ h'.subparts = h.subparts + 1 ∧
        ∀ i, h.subparts < i → h'.subpart i = none := by
    intro h' hsub hparts hdev hhead hdevices hsubparts
    refine ⟨⟨?_, ?_, hdev, hhead, hdevices⟩, hsubparts, ?_⟩
    · intro i hi
      rw [hsub, if_neg (by omega)]
    · intro q hq
      rw [hparts q hq]
      cases link with
      | first q' =>
        obtain rfl : q' = p := hlink
        simp [Heap.storeSubpart, Heap.modifyParts, hq]
      | next q' => rfl
    · intro i hi
      rw [hsub]
      split
      · rfl
      · cases link with
        | first q => exact hfresh i hi
        | next q =>
          have hq : q ≤ h.subparts := hlink.1
          have hiq : i ≠ q := by omega
          simp [Heap.storeSubpart, Heap.modifySubpart, hiq, hfresh i hi]
  have hmade : (h.storeSubpart link 0).subparts = h.subparts := by cases link <;> rfl
  have hhead : (h.storeSubpart link 0).head = h.head := by cases link <;> rfl
  have hdevices : (h.storeSubpart link 0).devices = h.devices := by cases link <;> rfl
  obtain ⟨d', hd', hend⟩ : ∃ d', (h.storeSubpart link 0).parts p = some d' ∧
      d'.end_addr = d.end_addr := by
    cases link with
    | first q =>
      obtain rfl : q = p := hlink
      exact ⟨{ d with subpart := 0 }, by simp [Heap.storeSubpart, Heap.modifyParts, hp], rfl⟩
    | next q => exact ⟨d, hp, rfl⟩
  revert hmade hhead hdevices hd' hlinks
  rw [parseSubpart]
  generalize h.storeSubpart link 0 = h₁
  intro hlinks hmade hhead hdevices hd'
  simp only [hsize, Heap.modifySubpart, Heap.modifyParts, setSubpart_parts, setSubpart_subpart,
    if_true, Option.map_some, hd', hend, Option.getD_some, hfrom]
  split
  · refine ⟨_, rfl, hlinks _ (fun i => ?_) (fun q hq => rfl) ⟨d'.end_addr, ?_⟩ hhead hdevices ?_⟩
    · by_cases hin : i = h₁.subparts + 1 <;> simp [hin, ← hmade]
    · simp [hd']
    · simp [hmade]
  · rename_i hne
    rw [if_neg hne, Option.map_eq_none_iff] at hread
    simp only [hread]
    refine ⟨_, rfl, hlinks _ (fun i => ?_) (fun q hq => ?_) ⟨u64 (start + size), ?_⟩ hhead hdevices
      ?_⟩
    · by_cases hin : i = h₁.subparts + 1 <;> simp [hin, ← hmade]
    · simp [hq]
    · simp [hd']
    · simp [hmade]

/-! ## The partitions of a device -/

/-- Partitions in consecutive blocks, each linked to the next one, the last one to `g`. -/
def Run (h : Heap) (g : Nat) : Nat → List Part → Prop
  | _, [] => True
  | a, x :: xs =>
    h.subpart a = some (x.node (if xs = [] then g else a + 1)) ∧ Run h g (a + 1) xs

/-- The link behind the last of some partitions from block `a` on: `NULL` if the next one could
    not be read, else what `malloc` has left there. -/
def lastLink (garbage : Nat → CmdlineSubpart) (a : Nat) (xs : List Part) (ok : Bool) : Nat :=
  if ok then (garbage (a + xs.length - 1)).next_subpart else 0

/-- To store what is there changes nothing. -/
theorem Links.refl {d : CmdlineParts} (hp : h.parts p = some d) (hlink : LinkOk h p link) :
    Links h h p link (h.loadSubpart link) := by
  cases link with
  | first q =>
    obtain rfl : q = p := hlink
    refine ⟨fun i _ => rfl, fun q _ => rfl, ⟨d.end_addr, ?_⟩, rfl, rfl⟩
    simp [Heap.storeSubpart, Heap.loadSubpart, Heap.modifyParts, hp]
  | next q =>
    obtain ⟨-, x, hx⟩ := hlink
    refine ⟨fun i _ => ?_, fun q _ => rfl, ⟨d.end_addr, ?_⟩, rfl, rfl⟩
    · by_cases hiq : i = q
      · subst hiq
        simp [Heap.storeSubpart, Heap.loadSubpart, Heap.modifySubpart, hx]
      · simp [Heap.storeSubpart, Heap.modifySubpart, hiq]
    · simp [Heap.storeSubpart, Heap.modifySubpart, hp]

/-- The pointer is stored. -/
theorem Links.load {h' : Heap} {d : CmdlineParts} {ptr : Nat} (hl : Links h h' p link ptr)
    (hp : h.parts p = some d) (hlink : LinkOk h p link) : h'.loadSubpart link = ptr := by
  cases link with
  | first q =>
    obtain rfl : q = p := hlink
    obtain ⟨e, he⟩ := hl.device
    simp [Heap.loadSubpart, he, Heap.storeSubpart, Heap.modifyParts, hp]
  | next q =>
    obtain ⟨hq, x, hx⟩ := hlink
    simp [Heap.loadSubpart, hl.subpart q hq, Heap.storeSubpart, Heap.modifySubpart, hx]

/-- Behind a new block, what happens at its link. -/
theorem Links.trans {h₁ h' : Heap} {ptr : Nat} (hl : Links h h₁ p link (h.subparts + 1))
    (hmade : h₁.subparts = h.subparts + 1) (hl' : Links h₁ h' p (.next (h.subparts + 1)) ptr) :
    Links h h' p link (h.subparts + 1) := by
  refine ⟨fun i hi => ?_, fun q hq => ?_, ?_, hl'.head.trans hl.head, hl'.devices.trans hl.devices⟩
  · have hne : i ≠ h.subparts + 1 := by omega
    rw [hl'.subpart i (by omega), ← hl.subpart i hi]
    simp [Heap.storeSubpart, Heap.modifySubpart, hne]
  · rw [hl'.parts q hq, hl.parts q hq]
  · obtain ⟨e, he⟩ := hl.device
    obtain ⟨e', he'⟩ := hl'.device
    refine ⟨e', ?_⟩
    rw [he']
    change (h₁.parts p).map _ = _
    rw [he, Option.map_map]
    rfl

theorem behind_of_notMem {sep : Char} {s : List Char} (h : sep ∉ s) : behind sep s = [] := by
  have hdrop : s.dropWhile (· ≠ sep) = [] := by
    apply List.dropWhile_eq_nil_iff.mpr
    intro c hc
    apply decide_eq_true
    rintro rfl
    exact h hc
  rw [behind, hdrop]
  rfl

theorem length_behind_lt {sep : Char} {s : List Char} (h : sep ∈ s) :
    (behind sep s).length < s.length := by
  have hle := (List.dropWhile_sublist (fun c => decide (c ≠ sep)) (l := s)).length_le
  have hpos := List.length_pos_of_mem h
  rw [behind, List.length_tail]
  omega

/-- One partition of the loop. -/
theorem partsLoop_cons {fuel : Nat} {cmdline : List Char} (ret : Int) (hne : cmdline ≠ []) :
    partsLoop garbage (fuel + 1) h p link cmdline ret =
      let r := parseSubpart garbage h p link ((cmdline.takeWhile (· ≠ ',')).take (bufSize - 1))
      if r.2 ≠ 0 then r
      else if ',' ∈ cmdline then
        partsLoop garbage fuel r.1 p (.next (r.1.loadSubpart link)) (behind ',' cmdline) r.2
      else r := by
  rw [partsLoop, if_neg hne]

/-- What the loop leaves when it reads some partitions, and whether it gets to the end. -/
structure Reads (garbage : Nat → CmdlineSubpart) (h h' : Heap) (p : Nat) (link : SubpartLink)
    (r : List Part × Bool) : Prop where
  links : Links h h' p link
    (if r.1 ≠ [] then h.subparts + 1 else if r.2 then h.loadSubpart link else 0)
  run : Run h' (lastLink garbage (h.subparts + 1) r.1 r.2) (h.subparts + 1) r.1
  behind : ∀ i, h.subparts + r.1.length < i → h'.subpart i = none
  le : h.subparts + r.1.length ≤ h'.subparts
  made : r.2 = true → h'.subparts = h.subparts + r.1.length

/-- Nothing is read. -/
theorem Reads.nil {d : CmdlineParts} (hp : h.parts p = some d) (hfresh : Fresh h)
    (hlink : LinkOk h p link) : Reads garbage h h p link ([], true) :=
  ⟨Links.refl hp hlink, trivial, hfresh, Nat.le_refl _, fun _ => rfl⟩

/-- One partition is read, and then others. -/
theorem Reads.cons {h₁ h' : Heap} {x : Part} {r : List Part × Bool}
    (hl : Links h h₁ p link (h.subparts + 1)) (hmade : h₁.subparts = h.subparts + 1)
    (hnew : h₁.subpart (h.subparts + 1) =
      some (x.node (garbage (h.subparts + 1)).next_subpart))
    (hr : Reads garbage h₁ h' p (.next (h.subparts + 1)) r) :
    Reads garbage h h' p link (x :: r.1, r.2) := by
  have hload : h₁.loadSubpart (.next (h.subparts + 1)) =
      (garbage (h.subparts + 1)).next_subpart := by
    simp [Heap.loadSubpart, hnew, Part.node]
  have hblock := hr.links.subpart (h.subparts + 1) (Nat.le_of_eq hmade.symm)
  have hrun := hr.run
  have hlen := hr.behind
  have hle := hr.le
  have hcount := hr.made
  rw [hmade] at hrun hlen hle hcount
  refine ⟨hl.trans hmade hr.links, ⟨?_, ?_⟩, ?_, ?_, ?_⟩
  · -- the link of the new block
    rw [hblock]
    simp only [Heap.storeSubpart, Heap.modifySubpart, setSubpart_subpart, if_true, hnew,
      Option.map_some, hload, hmade, lastLink]
    by_cases hnil : r.1 = []
    · simp [hnil, Part.node]
    · simp [hnil, Part.node]
  · by_cases hnil : r.1 = []
    · rw [hnil]
      trivial
    · have hlast : lastLink garbage (h.subparts + 1) (x :: r.1) r.2 =
          lastLink garbage (h.subparts + 1 + 1) r.1 r.2 := by
        rw [lastLink, lastLink, List.length_cons]
        congr 3
        omega
      rw [hlast]
      exact hrun
  · intro i hi
    apply hlen
    rw [List.length_cons] at hi
    omega
  · rw [List.length_cons]
    omega
  · intro hok
    rw [hcount hok, List.length_cons]
    omega

/-- The loop puts the partitions it can read behind the blocks that are there. -/
theorem partsLoop_spec {fuel : Nat} {cmdline : List Char} {d : CmdlineParts} (ret : Int)
    (hp : h.parts p = some d) (hfresh : Fresh h) (hlink : LinkOk h p link)
    (hfuel : cmdline.length < fuel) :
    ∃ h', partsLoop garbage fuel h p link cmdline ret =
        (h', if cmdline = [] then ret
          else if (readParts d.end_addr (pieces ',' cmdline)).2 then 0 else eInval) ∧
      Reads garbage h h' p link (readParts d.end_addr (pieces ',' cmdline)) := by
  induction fuel generalizing h link cmdline d ret with
  | zero => omega
  | succ fuel ih =>
    by_cases hnil : cmdline = []
    · subst hnil
      exact ⟨h, by simp [partsLoop], Reads.nil hp hfresh hlink⟩
    · rw [partsLoop_cons ret hnil, if_neg hnil, pieces_eq ',' hnil, readParts]
      cases hread : readPart d.end_addr ((cmdline.takeWhile (· ≠ ',')).take (bufSize - 1)) with
      | none =>
        -- the first partition cannot be read
        obtain ⟨h', heq, hl, hmade, hnone⟩ := parseSubpart_fail garbage hp hfresh hlink
          hread
        rw [heq]
        refine ⟨h', rfl, hl, trivial, hnone, ?_, fun h => nomatch h⟩
        rw [hmade]
        exact Nat.le_succ _
      | some x =>
        obtain ⟨h₁, heq, hl, hmade, hfresh₁, hnew, hend⟩ := parseSubpart_read garbage hp
          hfresh hlink hread
        obtain ⟨d₁, hd₁, hend₁⟩ := Option.map_eq_some_iff.mp hend
        have hlink₁ : LinkOk h₁ p (.next (h.subparts + 1)) := ⟨Nat.le_of_eq hmade.symm, _, hnew⟩
        rw [heq]
        dsimp only
        rw [if_neg (fun h => h rfl)]
        by_cases hcomma : ',' ∈ cmdline
        · have hlt := length_behind_lt hcomma
          have hrest : (behind ',' cmdline).length < fuel := by omega
          obtain ⟨h', heq', hr⟩ := ih 0 hd₁ hfresh₁ hlink₁ hrest
          rw [hend₁] at heq' hr
          rw [if_pos hcomma, hl.load hp hlink, heq']
          refine ⟨h', ?_, hr.cons hl hmade hnew⟩
          by_cases hb : behind ',' cmdline = []
          · simp [hb, pieces, readParts]
          · rw [if_neg hb]
        · -- the last partition
          rw [if_neg hcomma, behind_of_notMem hcomma]
          exact ⟨h₁, rfl, Reads.cons hl hmade hnew (Reads.nil hd₁ hfresh₁ hlink₁)⟩

/-! ## Freeing a device's partitions -/

theorem Run.congr {h h' : Heap} {g a : Nat} {xs : List Part} (hrun : Run h g a xs)
    (heq : ∀ i, a ≤ i → i < a + xs.length → h'.subpart i = h.subpart i) : Run h' g a xs := by
  induction xs generalizing a with
  | nil => trivial
  | cons x xs ih =>
    rw [List.length_cons] at heq
    refine ⟨?_, ih hrun.2 fun i hi hlt => heq i (by omega) (by omega)⟩
    rw [heq a (Nat.le_refl a) (by omega)]
    exact hrun.1

/-- Some consecutive blocks are freed, and the device points behind them. -/
def Heap.freed (h : Heap) (p a n g : Nat) : Heap :=
  { h with
    subpart := fun i => if a ≤ i ∧ i < a + n then none else h.subpart i
    parts := fun q =>
      if q = p then (h.parts p).map fun d => { d with subpart := g } else h.parts q }

/-- `free_subpart` frees the partitions of a run, and goes on behind it. -/
theorem freeSubpart_run {xs : List Part} {a g fuel : Nat} {d : CmdlineParts}
    (hp : h.parts p = some d) (hd : d.subpart = if xs = [] then g else a) (ha : a ≠ 0)
    (hrun : Run h g a xs) :
    freeSubpart (xs.length + fuel) h p = freeSubpart fuel (h.freed p a xs.length g) p := by
  induction xs generalizing h a d with
  | nil =>
    have hsame : h.freed p a 0 g = h := by
      have hsub : (fun i => if a ≤ i ∧ i < a + 0 then none else h.subpart i) = h.subpart := by
        funext i
        exact if_neg (by omega)
      have hparts : (fun q => if q = p then (h.parts p).map fun d => { d with subpart := g }
          else h.parts q) = h.parts := by
        funext q
        split
        · rename_i hq
          subst hq
          rw [hp, Option.map_some]
          rw [if_pos rfl] at hd
          rw [← hd]
        · rfl
      rw [Heap.freed, hsub, hparts]
    rw [List.length_nil, Nat.zero_add, hsame]
  | cons x xs ih =>
    rw [if_neg (List.cons_ne_nil x xs)] at hd
    have hstep : freeSubpart ((x :: xs).length + fuel) h p = freeSubpart (xs.length + fuel)
        ((h.modifyParts p fun p => { p with subpart := if xs = [] then g else a + 1 }).setSubpart a
          none) p := by
      rw [List.length_cons, Nat.add_right_comm, freeSubpart]
      simp only [hp, hd, ha, if_false, hrun.1]
      rfl
    rw [hstep, ih (a := a + 1) (d := { d with subpart := if xs = [] then g else a + 1 })]
    · -- the same blocks are freed
      congr 1
      have hsub : ∀ i, (if a + 1 ≤ i ∧ i < a + 1 + xs.length then none
          else if i = a then none else h.subpart i) =
            if a ≤ i ∧ i < a + (x :: xs).length then none else h.subpart i := by
        intro i
        rw [List.length_cons]
        by_cases hia : i = a
        · rw [if_neg (by omega), if_pos hia, if_pos (by omega)]
        · by_cases hin : a + 1 ≤ i ∧ i < a + 1 + xs.length
          · rw [if_pos hin, if_pos (by omega)]
          · rw [if_neg hin, if_neg hia, if_neg (by omega)]
      have hparts : ∀ q, (if q = p then (((h.modifyParts p fun p =>
          { p with subpart := if xs = [] then g else a + 1 }).parts p).map fun d =>
            { d with subpart := g }) else (h.modifyParts p fun p =>
          { p with subpart := if xs = [] then g else a + 1 }).parts q) =
            if q = p then (h.parts p).map fun d => { d with subpart := g } else h.parts q := by
        intro q
        by_cases hq : q = p
        · simp [hq, Heap.modifyParts, hp]
        · simp [hq, Heap.modifyParts]
      rw [Heap.freed, Heap.freed]
      congr 1
      · exact funext hsub
      · exact funext hparts
    · simp [Heap.modifyParts, hp]
    · rfl
    · exact Nat.succ_ne_zero a
    · apply hrun.2.congr
      intro i hi _
      rw [setSubpart_subpart, if_neg (by omega)]
      rfl

/-- A device whose list ends is freed without its partitions. -/
theorem freeSubpart_end {fuel : Nat} {d : CmdlineParts} (hp : h.parts p = some d)
    (hd : d.subpart = 0) : freeSubpart (fuel + 1) h p = some h := by
  rw [freeSubpart, hp]
  exact if_pos hd

/-! ## One device -/

/-- A device and its partitions. -/
structure Device where
  name : List Char
  parts : List Part
deriving DecidableEq

/-- Read one device. -/
def readDevice (s : List Char) : Option Device :=
  let r := readParts 0 (pieces ',' (behind ':' s))
  if ':' ∈ s ∧ r.2 = true ∧ r.1 ≠ [] then
    some { name := (s.takeWhile (· ≠ ':')).take (bdevnameSize - 1), parts := r.1 }
  else none

/-- No device lies behind the last one that `malloc` has returned. -/
def FreshParts (h : Heap) : Prop := ∀ q, h.devices < q → h.parts q = none

/-- A link that is there, and `NULL`. -/
def PartsLinkOk (h : Heap) : PartsLink → Prop
  | .head => h.head = 0
  | .next q => q ≤ h.devices ∧ ∃ x, h.parts q = some x ∧ x.next_parts = 0

/-- What a step of the parser does to the devices: it stores a pointer at a link; what was there
    is otherwise as before. -/
structure PartsLinks (h h' : Heap) (link : PartsLink) (ptr : Nat) : Prop where
  subpart : ∀ i ≤ h.subparts, h'.subpart i = h.subpart i
  parts : ∀ q ≤ h.devices, h'.parts q = (h.storeParts link ptr).parts q
  head : h'.head = (h.storeParts link ptr).head

/-- A device that has been read, from the block `a` on. -/
def DeviceAt (garbage : Nat → CmdlineSubpart) (h : Heap) (p a : Nat) (d : Device) (next : Nat) :
    Prop :=
  (∃ e, h.parts p = some { name := d.name, end_addr := e, subpart := a, next_parts := next }) ∧
    Run h (garbage (a + d.parts.length - 1)).next_subpart a d.parts

@[simp] theorem storeParts_subpart (h : Heap) (link : PartsLink) (a : Nat) :
    (h.storeParts link a).subpart = h.subpart := by
  cases link <;> rfl

@[simp] theorem storeParts_subparts (h : Heap) (link : PartsLink) (a : Nat) :
    (h.storeParts link a).subparts = h.subparts := by
  cases link <;> rfl

@[simp] theorem storeParts_devices (h : Heap) (link : PartsLink) (a : Nat) :
    (h.storeParts link a).devices = h.devices := by
  cases link <;> rfl

/-- A device that no link of the table lies in. -/
theorem storeParts_parts_of_lt {h' : Heap} {link : PartsLink} (hlink : PartsLinkOk h link)
    (a : Nat) {q : Nat} (hq : h.devices < q) : (h'.storeParts link a).parts q = h'.parts q := by
  cases link with
  | head => rfl
  | next q' =>
    have hle := hlink.1
    have hne : q ≠ q' := by omega
    simp [Heap.storeParts, Heap.modifyParts, hne]

/-- The same pointer in heaps with the same devices. -/
theorem storeParts_parts_congr {h' : Heap} {link : PartsLink} (hlink : PartsLinkOk h link) (a : Nat)
    (heq : ∀ q ≤ h.devices, h'.parts q = h.parts q) {q : Nat} (hq : q ≤ h.devices) :
    (h'.storeParts link a).parts q = (h.storeParts link a).parts q := by
  cases link with
  | head => exact heq q hq
  | next q' =>
    simp only [Heap.storeParts, Heap.modifyParts, setParts_parts, heq q' hlink.1]
    split
    · rfl
    · exact heq q hq

theorem storeParts_zero {link : PartsLink} (hlink : PartsLinkOk h link) : h.storeParts link 0 = h := by
  cases link with
  | head =>
    have hz : h.head = 0 := hlink
    rw [Heap.storeParts, ← hz]
  | next q =>
    obtain ⟨-, x, hx, hz⟩ := hlink
    have hparts : (fun i => if i = q then (h.parts q).map fun x => { x with next_parts := 0 }
        else h.parts i) = h.parts := by
      funext i
      by_cases hi : i = q
      · subst hi
        simp [hx, ← hz]
      · exact if_neg hi
    rw [Heap.storeParts, Heap.modifyParts, Heap.setParts, hparts]

/-- The heap in which the partitions of a new device are parsed. -/
def Heap.newDevice (h : Heap) (name : List Char) : Heap :=
  ({ h.setParts (h.devices + 1) (some {}) with devices := h.devices + 1 }).modifyParts
    (h.devices + 1) fun x => { x with name := name, end_addr := 0 }

theorem newDevice_parts (h : Heap) (name : List Char) :
    (h.newDevice name).parts (h.devices + 1) = some { name := name } := by
  simp [Heap.newDevice, Heap.modifyParts]

theorem newDevice_parts_of_ne (h : Heap) (name : List Char) {q : Nat} (hq : q ≠ h.devices + 1) :
    (h.newDevice name).parts q = h.parts q := by
  simp [Heap.newDevice, Heap.modifyParts, hq]

variable (garbage) in
/-- The partitions of a new device. -/
theorem newDevice_loop (hfresh : Fresh h) (name text : List Char) :
    ∃ h', partsLoop garbage (text.length + 1) (h.newDevice name) (h.devices + 1)
        (.first (h.devices + 1)) text eInval =
        (h', if text = [] then eInval else if (readParts 0 (pieces ',' text)).2 then 0 else eInval) ∧
      Reads garbage (h.newDevice name) h' (h.devices + 1) (.first (h.devices + 1))
        (readParts 0 (pieces ',' text)) :=
  partsLoop_spec eInval (newDevice_parts h name) hfresh rfl (Nat.lt_succ_self _)

theorem parseParts_eq {link : PartsLink} {s : List Char} (hlink : PartsLinkOk h link)
    (hcolon : ':' ∈ s) :
    parseParts garbage h link s =
      let r := partsLoop garbage ((behind ':' s).length + 1)
        (h.newDevice ((s.takeWhile (· ≠ ':')).take (bdevnameSize - 1))) (h.devices + 1)
        (.first (h.devices + 1)) (behind ':' s) eInval
      if r.2 ≠ 0 ∨ r.1.loadSubpart (.first (h.devices + 1)) = 0 then
        failParts r.1 (h.devices + 1) r.2
      else some (r.1.storeParts link (h.devices + 1), 0) := by
  rw [parseParts, storeParts_zero hlink]
  simp only [hcolon, if_true]
  rfl

variable (garbage) in
/-- A device that is read is linked to the ones before it. -/
theorem parseParts_read {link : PartsLink} {s : List Char} {d : Device} (hfresh : Fresh h)
    (hfreshp : FreshParts h) (hlink : PartsLinkOk h link) (hread : readDevice s = some d) :
    ∃ h', parseParts garbage h link s = some (h', 0) ∧
      PartsLinks h h' link (h.devices + 1) ∧
      DeviceAt garbage h' (h.devices + 1) (h.subparts + 1) d 0 ∧
      (∀ i, h.subparts + d.parts.length < i → h'.subpart i = none) ∧
      (∀ q, h.devices + 1 < q → h'.parts q = none) ∧
      h'.subparts = h.subparts + d.parts.length ∧ h'.devices = h.devices + 1 := by
  simp only [readDevice] at hread
  split at hread
  · rename_i hok
    obtain ⟨hcolon, hall, hne⟩ := hok
    cases hread
    have hnil : behind ':' s ≠ [] := by
      intro hb
      rw [hb] at hne
      exact hne rfl
    rw [parseParts_eq hlink hcolon]
    generalize (s.takeWhile (· ≠ ':')).take (bdevnameSize - 1) = name
    obtain ⟨h', heq, hr⟩ := newDevice_loop garbage hfresh name (behind ':' s)
    have hptr := hr.links.load (newDevice_parts h name) rfl
    have hrun := hr.run
    have hlinks := hr.links
    have hmade := hr.made hall
    rw [if_neg hnil, if_pos hall] at heq
    rw [if_pos hne] at hptr hlinks
    rw [hall] at hrun
    obtain ⟨e, he⟩ := hlinks.device
    -- the device has a partition, so the loop ends without an error
    have hpos : h'.loadSubpart (.first (h.devices + 1)) ≠ 0 := by
      rw [hptr]
      exact Nat.succ_ne_zero _
    rw [heq]
    simp only [ne_eq, not_true_eq_false, hpos, or_self, if_false]
    have hbefore : ∀ q, q ≠ h.devices + 1 → h'.parts q = h.parts q := by
      intro q hq
      rw [hlinks.parts q hq, newDevice_parts_of_ne h name hq]
    -- the blocks in front are as before, and the device is behind them
    refine ⟨_, rfl, ⟨?_, ?_, ?_⟩, ⟨⟨e, ?_⟩, ?_⟩, ?_, ?_, ?_, ?_⟩
    · intro i hi
      rw [storeParts_subpart, hlinks.subpart i hi]
      rfl
    · intro q hq
      exact storeParts_parts_congr hlink _ (fun q hq => hbefore q (by omega)) hq
    · cases link with
      | head => rfl
      | next q => exact hlinks.head
    · rw [storeParts_parts_of_lt hlink _ (Nat.lt_succ_self _), he]
      simp [Heap.storeSubpart, Heap.modifyParts, newDevice_parts]
      rfl
    · apply hrun.congr
      intro i _ _
      rw [storeParts_subpart]
    · intro i hi
      rw [storeParts_subpart]
      exact hr.behind i hi
    · intro q hq
      rw [storeParts_parts_of_lt hlink _ (by omega), hbefore q (by omega)]
      exact hfreshp q (by omega)
    · rw [storeParts_subparts]
      exact hmade
    · rw [storeParts_devices]
      exact hlinks.devices
  · cases hread

/-- Behind the label `fail` nothing is left of the device. -/
theorem failParts_run {xs : List Part} {d : CmdlineParts} {a : Nat} (ret : Int)
    (hp : h.parts p = some d) (hd : d.subpart = if xs = [] then 0 else a) (ha : a ≠ 0)
    (hrun : Run h 0 a xs) (hle : xs.length ≤ h.subparts) :
    failParts h p ret = some ((h.freed p a xs.length 0).setParts p none, ret) := by
  have hfuel : h.subparts + 1 = xs.length + (h.subparts - xs.length + 1) := by omega
  have hend : (h.freed p a xs.length 0).parts p = some { d with subpart := 0 } := by
    simp [Heap.freed, hp]
  rw [failParts, hfuel, freeSubpart_run hp hd ha hrun, freeSubpart_end hend rfl]

variable (garbage) in
/-- A device that cannot be read leaves nothing. -/
theorem parseParts_fail {link : PartsLink} {s : List Char} (hfresh : Fresh h)
    (hfreshp : FreshParts h) (hlink : PartsLinkOk h link) (hread : readDevice s = none) :
    ∃ h', parseParts garbage h link s = some (h', eInval) ∧ PartsLinks h h' link 0 ∧
      (∀ i, h.subparts < i → h'.subpart i = none) ∧ (∀ q, h.devices < q → h'.parts q = none) ∧
      h.subparts ≤ h'.subparts ∧ h.devices ≤ h'.devices := by
  by_cases hcolon : ':' ∈ s
  · rw [parseParts_eq hlink hcolon]
    generalize (s.takeWhile (· ≠ ':')).take (bdevnameSize - 1) = name
    obtain ⟨h', heq, hr⟩ := newDevice_loop garbage hfresh name (behind ':' s)
    revert hr
    generalize hparts : readParts 0 (pieces ',' (behind ':' s)) = r at heq
    intro hr
    -- the loop ends with an error, and the list ends with `NULL`
    have hbad : r.2 = true → r.1 = [] := by
      intro hok
      by_contra hne
      simp only [readDevice, hparts, hcolon, hok, hne, ne_eq, not_false_eq_true, and_self,
        if_true] at hread
      cases hread
    have hret : (if behind ':' s = [] then eInval else if r.2 = true then 0 else eInval) =
        eInval := by
      split
      · rfl
      · rename_i hne
        split
        · rename_i hok
          -- a text has a piece
          rw [pieces_eq ',' hne, readParts] at hparts
          have hnil := hbad hok
          revert hparts hnil
          cases readPart 0 ((behind ':' s).takeWhile (· ≠ ',') |>.take (bufSize - 1)) with
          | none =>
            rintro rfl
            cases hok
          | some x =>
            rintro rfl hnil
            cases hnil
        · rfl
    have hrun : Run h' 0 (h.subparts + 1) r.1 := by
      cases hok : r.2 with
      | true =>
        rw [hbad hok]
        trivial
      | false =>
        have hrun := hr.run
        rw [hok] at hrun
        exact hrun
    have hlinks := hr.links
    have hptr : (if r.1 ≠ [] then (h.newDevice name).subparts + 1 else if r.2 = true then
        (h.newDevice name).loadSubpart (.first (h.devices + 1)) else 0) =
          if r.1 = [] then 0 else h.subparts + 1 := by
      by_cases hnil : r.1 = []
      · simp [hnil, Heap.loadSubpart, newDevice_parts]
      · simp [hnil]
        rfl
    rw [hptr] at hlinks
    obtain ⟨e, he⟩ := hlinks.device
    have hdev : h'.parts (h.devices + 1) = some
        { name := name, end_addr := e, subpart := (if r.1 = [] then 0 else h.subparts + 1) } := by
      rw [he]
      simp [Heap.storeSubpart, Heap.modifyParts, newDevice_parts]
    have hmade : h.subparts + r.1.length ≤ h'.subparts := hr.le
    rw [heq, hret]
    dsimp only
    rw [if_pos (Or.inl (by decide)), failParts_run eInval hdev rfl (Nat.succ_ne_zero _) hrun
      (by omega)]
    refine ⟨_, rfl, ⟨?_, ?_, ?_⟩, ?_, ?_, ?_, ?_⟩
    · intro i hi
      have hout : ¬ (h.subparts + 1 ≤ i ∧ i < h.subparts + 1 + r.1.length) := by omega
      simp only [setParts_subpart, Heap.freed, if_neg hout]
      rw [hlinks.subpart i hi]
      rfl
    · intro q hq
      have hne : q ≠ h.devices + 1 := by omega
      rw [storeParts_zero hlink]
      simp only [setParts_parts, Heap.freed, if_neg hne]
      rw [hlinks.parts q hne, newDevice_parts_of_ne h name hne]
    · rw [storeParts_zero hlink]
      exact hlinks.head
    · intro i hi
      simp only [setParts_subpart, Heap.freed]
      split
      · rfl
      · exact hr.behind i (by change h.subparts + _ < i; omega)
    · intro q hq
      simp only [setParts_parts, Heap.freed]
      by_cases hne : q = h.devices + 1
      · rw [if_pos hne]
      · rw [if_neg hne, if_neg hne, hlinks.parts q hne, newDevice_parts_of_ne h name hne]
        exact hfreshp q hq
    · exact Nat.le_trans (Nat.le_add_right _ _) hmade
    · exact Nat.le_trans (Nat.le_succ _) (Nat.le_of_eq hlinks.devices.symm)
  · -- no colon
    have hdev : ({ h.setParts (h.devices + 1) (some {}) with devices := h.devices + 1 }).parts
        (h.devices + 1) = some {} := if_pos rfl
    rw [parseParts, storeParts_zero hlink]
    simp only [hcolon, if_false]
    rw [failParts_run eInval hdev rfl Nat.one_ne_zero (show Run _ 0 1 [] from trivial)
      (Nat.zero_le _)]
    refine ⟨_, rfl, ⟨?_, ?_, ?_⟩, ?_, ?_, Nat.le_refl _, Nat.le_succ _⟩
    · intro i _
      exact if_neg (by rw [List.length_nil]; omega)
    · intro q hq
      have hne : q ≠ h.devices + 1 := by omega
      rw [storeParts_zero hlink]
      simp [Heap.freed, hne]
    · rw [storeParts_zero hlink]
      rfl
    · intro i hi
      simp only [setParts_subpart, Heap.freed]
      split
      · rfl
      · exact hfresh i hi
    · intro q hq
      by_cases hne : q = h.devices + 1
      · simp [hne]
      · simp [Heap.freed, hne, hfreshp q hq]

/-! ## All devices -/

/-- The devices in front of the first one that cannot be read, and whether there is none such. -/
def readDevices : List (List Char) → List Device × Bool
  | [] => ([], true)
  | s :: rest =>
    match readDevice s with
    | none => ([], false)
    | some d => (d :: (readDevices rest).1, (readDevices rest).2)

/-- How many partitions some devices have. -/
def total (ds : List Device) : Nat := (ds.map fun d => d.parts.length).sum

/-- Devices in consecutive blocks, with their partitions from block `a` on. -/
def Devices (garbage : Nat → CmdlineSubpart) (h : Heap) : Nat → Nat → List Device → Prop
  | _, _, [] => True
  | p, a, d :: ds =>
    DeviceAt garbage h p a d (if ds = [] then 0 else p + 1) ∧
      Devices garbage h (p + 1) (a + d.parts.length) ds

/-- What the loop over the devices leaves. -/
structure ReadsAll (garbage : Nat → CmdlineSubpart) (h h' : Heap) (link : PartsLink)
    (r : List Device × Bool) : Prop where
  links : PartsLinks h h' link (if r.1 ≠ [] then h.devices + 1 else 0)
  devices : Devices garbage h' (h.devices + 1) (h.subparts + 1) r.1
  behind : ∀ i, h.subparts + total r.1 < i → h'.subpart i = none
  behind_parts : ∀ q, h.devices + r.1.length < q → h'.parts q = none
  le : h.subparts + total r.1 ≤ h'.subparts
  le_devices : h.devices + r.1.length ≤ h'.devices

theorem PartsLinks.load {h' : Heap} {link : PartsLink} {ptr : Nat} (hl : PartsLinks h h' link ptr)
    (hlink : PartsLinkOk h link) : h'.loadParts link = ptr := by
  cases link with
  | head => exact hl.head
  | next q =>
    obtain ⟨hq, x, hx, -⟩ := hlink
    simp [Heap.loadParts, hl.parts q hq, Heap.storeParts, Heap.modifyParts, hx]

/-- No device is read. -/
theorem ReadsAll.nil {link : PartsLink} (ok : Bool) (hfresh : Fresh h) (hfreshp : FreshParts h)
    (hlink : PartsLinkOk h link) : ReadsAll garbage h h link ([], ok) := by
  refine ⟨⟨fun i _ => rfl, fun q _ => ?_, ?_⟩, trivial, hfresh, hfreshp, Nat.le_refl _,
    Nat.le_refl _⟩
  · simp [storeParts_zero hlink]
  · simp [storeParts_zero hlink]

/-- One device is read, and then others. -/
theorem ReadsAll.cons {link : PartsLink} {h₁ h' : Heap} {d : Device} {r : List Device × Bool}
    (hl : PartsLinks h h₁ link (h.devices + 1))
    (hd : DeviceAt garbage h₁ (h.devices + 1) (h.subparts + 1) d 0)
    (hmade : h₁.subparts = h.subparts + d.parts.length) (hdevices : h₁.devices = h.devices + 1)
    (hr : ReadsAll garbage h₁ h' (.next (h.devices + 1)) r) :
    ReadsAll garbage h h' link (d :: r.1, r.2) := by
  have hsum : total (d :: r.1) = d.parts.length + total r.1 := by
    simp [total]
  have hds := hr.devices
  have hb := hr.behind
  have hbp := hr.behind_parts
  have hle := hr.le
  have hled := hr.le_devices
  rw [hmade, hdevices] at hds
  rw [hmade] at hb hle
  rw [hdevices] at hbp hled
  refine ⟨⟨?_, ?_, ?_⟩, ⟨⟨?_, ?_⟩, ?_⟩, ?_, ?_, ?_, ?_⟩
  -- what was there before the first device
  · intro i hi
    rw [hr.links.subpart i (by omega), hl.subpart i hi]
  · intro q hq
    have hne : q ≠ h.devices + 1 := by omega
    rw [hr.links.parts q (by omega), if_pos (List.cons_ne_nil d r.1), ← hl.parts q hq]
    simp [Heap.storeParts, Heap.modifyParts, hne]
  · rw [if_pos (List.cons_ne_nil d r.1), hr.links.head, ← hl.head]
    rfl
  -- the first device gets its link
  · obtain ⟨e, he⟩ := hd.1
    refine ⟨e, ?_⟩
    rw [hr.links.parts _ (Nat.le_of_eq hdevices.symm)]
    simp only [Heap.storeParts, Heap.modifyParts, setParts_parts, if_true, he, Option.map_some,
      hdevices]
    by_cases hnil : r.1 = []
    · simp [hnil]
    · simp [hnil]
  · apply hd.2.congr
    intro i _ hi
    rw [hr.links.subpart i (by omega)]
  -- and the others
  · rw [Nat.add_right_comm h.subparts 1]
    exact hds
  · intro i hi
    rw [hsum] at hi
    exact hb i (by omega)
  · intro q hq
    rw [List.length_cons] at hq
    exact hbp q (by omega)
  · rw [hsum]
    omega
  · rw [List.length_cons]
    omega

variable (garbage) in
/-- The loop links the devices it can read, in the order of the text. -/
theorem cmdlineLoop_spec {fuel : Nat} {link : PartsLink} {s : List Char} (hfresh : Fresh h)
    (hfreshp : FreshParts h) (hlink : PartsLinkOk h link) (hfuel : s.length < fuel) :
    ∃ h', cmdlineLoop garbage fuel h link s =
        some (h', if (readDevices (pieces ';' s)).2 then 0 else eInval) ∧
      ReadsAll garbage h h' link (readDevices (pieces ';' s)) := by
  induction fuel generalizing h link s with
  | zero => omega
  | succ fuel ih =>
    by_cases hnil : s = []
    · subst hnil
      exact ⟨h, by simp [cmdlineLoop, pieces, readDevices], ReadsAll.nil true hfresh hfreshp hlink⟩
    · rw [cmdlineLoop, if_neg hnil, pieces_eq ';' hnil, readDevices]
      cases hread : readDevice (s.takeWhile (· ≠ ';')) with
      | none =>
        -- the first device cannot be read
        obtain ⟨h', heq, hl, hb, hbp, hle, hled⟩ := parseParts_fail garbage hfresh
          hfreshp hlink hread
        rw [heq]
        refine ⟨h', rfl, ⟨hl, trivial, hb, hbp, hle, hled⟩⟩
      | some d =>
        obtain ⟨h₁, heq, hl, hd, hb, hbp, hmade, hdevices⟩ := parseParts_read garbage
          hfresh hfreshp hlink hread
        have hfresh₁ : Fresh h₁ := by
          intro i hi
          exact hb i (by omega)
        have hfreshp₁ : FreshParts h₁ := by
          intro q hq
          exact hbp q (by omega)
        obtain ⟨e, he⟩ := hd.1
        have hlink₁ : PartsLinkOk h₁ (.next (h.devices + 1)) :=
          ⟨Nat.le_of_eq hdevices.symm, _, he, rfl⟩
        rw [heq]
        dsimp only
        rw [if_neg (fun h => h rfl)]
        by_cases hsemi : ';' ∈ s
        · have hlt := length_behind_lt hsemi
          have hrest : (behind ';' s).length < fuel := by omega
          obtain ⟨h', heq', hr⟩ := ih hfresh₁ hfreshp₁ hlink₁ hrest
          rw [if_pos hsemi, hl.load hlink, heq']
          exact ⟨h', rfl, hr.cons hl hd hmade hdevices⟩
        · -- the last device
          rw [if_neg hsemi, behind_of_notMem hsemi]
          exact ⟨h₁, rfl, ReadsAll.cons hl hd hmade hdevices
            (ReadsAll.nil true hfresh₁ hfreshp₁ hlink₁)⟩

end Tntsat.Cmdline
