import AutoRec.Parser.SectionInfo

/-!
# The section parser

`section_parser` (`parser/section_parser.cpp`): it puts the sections together that a PID carries in
its packets. Logging is left out.

* `Hooks`: what a derived class does in `on_section_started` and `on_section_completed`.
* `SectionParser`: the parser, with its list, its pool and a record of the completed sections.
* `attachSectionList`, `detachSectionList`, `evictOldestSection`, …: the list and the pool.
* `checkSectionFollow`, `checkSectionFirst`, `checkSection`: a packet.
-/

namespace AutoRec

open Arena

/-- `EN_CHECK_SECTION`. -/
inductive CheckSection
  | completed
  | completedAlready
  | receiving
  | canceled
  | crc32Err
  | ignore
  | invalid
deriving DecidableEq, Repr

/-- The virtual functions of a derived class with the state `τ`; they are given the section and its
bytes. `completed` says whether the section is detached. -/
structure Hooks (τ : Type) where
  started : τ → SectionInfo → List UInt8 → Bool × τ
  completed : τ → SectionInfo → List UInt8 → Bool × τ

/-- The functions of `section_parser` itself. -/
def Hooks.base : Hooks Unit where
  started := fun e _ _ => (true, e)
  completed := fun e _ _ => (false, e)

/-- A section that is completed is always detached. -/
def Hooks.Detaches {τ : Type} (H : Hooks τ) : Prop := ∀ e x b, (H.completed e x b).1 = true

/-- A call of `on_section_completed`. -/
structure Call where
  info : SectionInfo
  bytes : List UInt8

/-- `section_parser`. The list is the one that begins at `sect_list_top_`. -/
structure SectionParser (τ : Type) where
  sectList : List SectionInfo
  sectListBottom : Option ℕ
  listIsFifo : Bool
  fifoNum : ℤ
  workSectInfo : Option ℕ
  pool : List UInt8
  poolInd : ℕ
  poolSize : ℕ
  type : SectionType
  isAsyncDelete : Bool
  isIgnoreSection : Bool
  nextAddr : ℕ
  ext : τ
  calls : List Call

namespace SectionParser

variable {τ : Type}

/-- The constructor; without a FIFO `fifoNum` is not positive. -/
def create (poolSize : ℕ) (fifoNum : ℤ) (type : SectionType) (ext : τ) : SectionParser τ where
  sectList := []
  sectListBottom := none
  listIsFifo := decide (0 < fifoNum)
  fifoNum := if 0 < fifoNum then fifoNum else 0
  workSectInfo := none
  pool := .replicate poolSize 0
  poolInd := 0
  poolSize := poolSize
  type := type
  isAsyncDelete := false
  isIgnoreSection := false
  nextAddr := 0
  ext := ext
  calls := []

variable (s : SectionParser τ)

/-! ## The list -/

/-- The section at an address. -/
def sectAt (a : ℕ) : Option SectionInfo := s.sectList.find? fun x => x.addr == a

/-- The section at an address, updated. -/
def updSect (a : ℕ) (f : SectionInfo → SectionInfo) : SectionParser τ :=
  { s with sectList := s.sectList.map fun x => if x.addr = a then f x else x }

/-- `sect_list_bottom_->next_ = p_tmp`: what was behind the bottom is lost. -/
def linkBehind (bottom : Option ℕ) (new : SectionInfo) : List SectionInfo → List SectionInfo
  | [] => []
  | x :: l => if some x.addr = bottom then [x, new] else x :: linkBehind bottom new l

/-- `add_section_list`. -/
def addSectionList (x : SectionInfo) : SectionParser τ :=
  { s with
    sectList := if s.sectList = [] then [x] else linkBehind s.sectListBottom x s.sectList
    sectListBottom := some x.addr
    nextAddr := s.nextAddr + 1 }

/-- The address of the section in front of the one at `a`. -/
def before (a : ℕ) : List SectionInfo → Option ℕ
  | x :: y :: l => if y.addr = a then some x.addr else before a (y :: l)
  | _ => none

/-- `delete_section_list`, by the address. -/
def deleteSectionList (a : ℕ) : SectionParser τ :=
  { s with
    sectList := s.sectList.eraseP fun x => x.addr == a
    sectListBottom :=
      match s.sectList with
      | [x] => if x.addr = a then none else s.sectListBottom
      | l =>
        match before a l with
        | some b => if s.sectListBottom = some a then some b else s.sectListBottom
        | none => s.sectListBottom }

/-- `check_delete_fifo_section_list`: the list without its top. -/
def checkDeleteFifoSectionList : SectionParser τ :=
  match s.sectList with
  | [] => s
  | [_] => { s with sectList := [], sectListBottom := none }
  | _ :: l => { s with sectList := l }

/-- `search_section_list`. -/
def searchSectionList (x : SectionInfo) : Option SectionInfo :=
  s.sectList.find? fun y => y.opEq s.pool x

/-! ## The pool -/

/-- The gap that a section leaves in the pool is closed. -/
def closeGap (x : SectionInfo) : SectionParser τ :=
  { s with
    pool := write s.pool x.raw (s.pool.drop x.tail)
    poolInd := s.poolInd - (x.tail - x.raw) }

/-- `shift_all_section_list`. -/
def shiftAllSectionList (n : ℕ) : SectionParser τ :=
  { s with sectList := s.sectList.map fun x => x.shift n }

/-- `work_sect_info_` is reset if it is the section at `a`. -/
def resetWork (a : ℕ) : SectionParser τ :=
  if s.workSectInfo = some a then { s with workSectInfo := none } else s

/-- The section `x`, the top of the list, goes, with its bytes. -/
def dropTop (x : SectionInfo) : SectionParser τ :=
  ((s.checkDeleteFifoSectionList.closeGap x).shiftAllSectionList (x.tail - x.raw)).resetWork x.addr

/-- `evict_oldest_section`. -/
def evictOldestSection : Bool × SectionParser τ :=
  match s.sectList with
  | [] => (false, s)
  | x :: _ => if x.state = .complete then (true, s.dropTop x) else (false, s)

/-- `check_detach_fifo_section_list`. -/
def checkDetachFifoSectionList : SectionParser τ :=
  if !s.listIsFifo then s
  else if s.fifoNum ≥ s.sectList.length then s
  else
    match s.sectList with
    | [] => s
    | x :: _ => s.dropTop x

/-- `detach_section_list`. -/
def detachSectionList (a : ℕ) : SectionParser τ :=
  match s.sectAt a with
  | some x => ((s.deleteSectionList a).closeGap x).resetWork a
  | none => s

/-- `detach_all_section_list`. -/
def detachAllSectionList : SectionParser τ :=
  { s with
    sectList := []
    sectListBottom := none
    pool := .replicate s.poolSize 0
    poolInd := 0
    workSectInfo := none }

/-- The loop of `attach_section_list` that makes room for `size` bytes; the list gets shorter in
each turn. -/
def makeRoom (size : ℕ) : ℕ → SectionParser τ → Bool × SectionParser τ
  | 0, s => (decide (¬ s.poolSize - s.poolInd < size), s)
  | n + 1, s =>
    if s.poolSize - s.poolInd < size then
      match s.evictOldestSection with
      | (true, s') => makeRoom size n s'
      | (false, s') => (false, s')
    else (true, s)

/-- The section that is being received. -/
def workReceiving : Option ℕ :=
  match s.workSectInfo with
  | some a => if (s.sectAt a).map SectionInfo.state = some .receiving then some a else none
  | none => none

/-- The bytes are put at the end of the pool. -/
def store (buff : List UInt8) : SectionParser τ :=
  { s with pool := write s.pool s.poolInd buff, poolInd := s.poolInd + buff.length }

/-- `attach_section_list`, with the address of the section the bytes have gone to. -/
def attachSectionList (buff : List UInt8) : Option ℕ × SectionParser τ :=
  if buff = [] then (none, s)
  else
    match makeRoom buff.length s.sectList.length s with
    | (false, s₁) => (none, s₁)
    | (true, s₁) =>
      match s₁.workReceiving with
      | some a =>
        (some a,
          (s₁.store buff).updSect a fun x => { x with tail := s₁.poolInd + buff.length })
      | none =>
        let x := SectionInfo.mk' s₁.nextAddr (s₁.store buff).pool s₁.poolInd buff.length s₁.type
        (some x.addr, (s₁.store buff).addSectionList x)

/-- `truncate`. -/
def truncate (n : ℕ) : SectionParser τ :=
  { s with pool := write s.pool (s.poolInd - n) (.replicate n 0), poolInd := s.poolInd - n }

/-- `async_delete`. -/
def asyncDelete : SectionParser τ := { s with isAsyncDelete := true }

/-- `check_async_delete`. -/
def checkAsyncDelete : SectionParser τ :=
  if s.isAsyncDelete then { s.detachAllSectionList with isAsyncDelete := false } else s

/-! ## A packet -/

variable (H : Hooks τ)

/-- `on_section_started`. -/
def onSectionStarted (x : SectionInfo) : Bool × SectionParser τ :=
  ((H.started s.ext x (x.bytes s.pool)).1, { s with ext := (H.started s.ext x (x.bytes s.pool)).2 })

/-- `on_section_completed`. -/
def onSectionCompleted (x : SectionInfo) : SectionParser τ :=
  let r := H.completed s.ext x (x.bytes s.pool)
  let s₁ := { s with ext := r.2, calls := s.calls ++ [⟨x, x.bytes s.pool⟩] }
  if r.1 then s₁.detachSectionList x.addr else s₁

/-- `detach_section_list (work_sect_info_); work_sect_info_ = NULL` -/
def dropWork (a : ℕ) : SectionParser τ := { s.detachSectionList a with workSectInfo := none }

/-- What `check_section_first` and `check_section_follow` do with a section of which all bytes are
there: the check of the CRC, `truncate`, the search for the same section, and the completion. -/
def finishSection (x : SectionInfo) : CheckSection × SectionParser τ :=
  if !x.checkCrc32 s.pool then (.crc32Err, s.dropWork x.addr)
  else
    let y := { x with tail := x.tail - x.surplus }
    let s₁ := (s.updSect x.addr fun _ => y).truncate x.surplus
    if (s₁.searchSectionList y).map SectionInfo.state = some .complete then
      (.completedAlready, s₁.dropWork x.addr)
    else
      let s₂ := (s₁.updSect x.addr fun y => { y with state := .complete }).checkDetachFifoSectionList
      match s₂.sectAt x.addr with
      | some z => (.completed, s₂.onSectionCompleted H z)
      | none => (.completed, s₂)

/-- `check_section_follow`. -/
def checkSectionFollow (payload : List UInt8) : CheckSection × SectionParser τ :=
  if s.isIgnoreSection then (.ignore, s)
  else if payload = [] then (.invalid, s)
  else
    match s.workReceiving with
    | none => (.invalid, s)
    | some _ =>
      match s.attachSectionList payload with
      | (none, s₁) => (.invalid, s₁)
      | (some a, s₁) =>
        match s₁.sectAt a with
        | none => (.invalid, s₁)
        | some x =>
          if x.isReceiveAll then
            (s₁.updSect a fun y => { y with state := .received }).finishSection H
              { x with state := .received }
          else (.receiving, s₁.updSect a fun y => { y with state := .receiving })

/-- A section that is still being received is dropped when another one begins. -/
def startOver : SectionParser τ :=
  match s.workSectInfo with
  | some a => if (s.sectAt a).any SectionInfo.isOpen then s.dropWork a else s
  | none => s

/-- `a - b` in a `size_t`. -/
def sizeSub (a b : ℕ) : ℕ := (a + 2 ^ 64 - b) % 2 ^ 64

/-- What a turn of the loop of `check_section_first` comes to. -/
inductive Turn (τ : Type)
  /-- The function returns. -/
  | done (r : CheckSection) (s : SectionParser τ)
  /-- The section that began here takes up `n` bytes, or all that is left. -/
  | next (n : Option ℕ) (r : CheckSection) (once : Bool) (s : SectionParser τ)

/-- A turn of the loop of `check_section_first`, for the bytes `buff` that are left. -/
def checkTurn (buff : List UInt8) (once : Bool) : Turn τ :=
  match s.startOver.attachSectionList buff with
  | (none, s₁) => .done .invalid s₁
  | (some a, s₁) =>
    match s₁.sectAt a with
    | none => .done .invalid s₁
    | some x =>
      match { s₁ with workSectInfo := some a }.onSectionStarted H x with
      | (false, s₂) =>
        .next (if buff.length ≤ x.totalLen then none else some x.totalLen) .ignore once
          { s₂.dropWork a with isIgnoreSection := true }
      | (true, s₂) =>
        let s₃ := { s₂ with isIgnoreSection := false }
        if x.isReceiveAll then
          match (s₃.updSect a fun y => { y with state := .received }).finishSection H
              { x with state := .received } with
          | (.completed, s₄) =>
            .next (some x.totalLen) .completed true { s₄ with workSectInfo := none }
          | (r, s₄) => .next (some x.totalLen) r once s₄
        else
          .done (if once then .completed else .receiving)
            (s₃.updSect a fun y => { y with state := .receiving })

/-- The loop of `check_section_first`, from the place `p` with `size` bytes left; `none` is an
access behind the payload. -/
def checkLoop (payload : List UInt8) :
    ℕ → ℕ → ℕ → CheckSection → Bool → SectionParser τ → Option (CheckSection × SectionParser τ)
  | 0, _, _, _, _, _ => none
  | n + 1, p, size, r, once, s =>
    if size = 0 then some (if once then .completed else r, s)
    else
      match payload[p]? with
      | none => none
      | some b =>
        if b = 0xff then some (if once then .completed else r, s)
        else if payload.length < p + size then none
        else
          match s.checkTurn H (slice payload p (p + size)) once with
          | .done r s => some (r, s)
          | .next none r once s => checkLoop payload n p 0 r once s
          | .next (some k) r once s => checkLoop payload n (p + k) (sizeSub size k) r once s

/-- `check_section_first`; the loop takes at least three bytes in a turn. -/
def checkSectionFirst (payload : List UInt8) : Option (CheckSection × SectionParser τ) :=
  match payload with
  | [] => some (.invalid, s)
  | pointerField :: l =>
    let n := pointerField.toNat
    if l.length ≤ n then some (.invalid, s)
    else
      let start := fun s => checkLoop H payload (payload.length + 1) (1 + n) (l.length - n)
        .completed false s
      if n = 0 then start s
      else
        match s.checkSectionFollow H (l.take n) with
        | (.receiving, s₁) | (.invalid, s₁) => some (.invalid, s₁)
        | (_, s₁) => start s₁

/-- `check_section`, for a packet with the given `payload_unit_start_indicator`. -/
def checkSection (payloadUnitStart : Bool) (payload : List UInt8) :
    Option (CheckSection × SectionParser τ) :=
  if payload = [] then some (.invalid, s)
  else if payloadUnitStart then s.checkSectionFirst H payload
  else some (s.checkSectionFollow H payload)

end SectionParser

end AutoRec
