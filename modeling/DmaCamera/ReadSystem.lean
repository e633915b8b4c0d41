import DmaCamera.ReceiveRing
import DmaCamera.ReadCall
set_option autoImplicit false

namespace DmaCamera
open Circular Countdown Runs

/-! A device that sends slots, the service handler, and any number of calls of
`char_sgdma_read_cyclic`, each access to what they share a step. -/

structure Slot where
  result : XdmaResult
  payload : List Byte
  deriving DecidableEq, Repr

inductive ReadPc where
  | idle
  | waiting
  /-- The wait has returned `rc`, and the result at the head is looked at next. -/
  | checking (rc : Int)
  | entering
  | copying (remaining head : Nat)
  | bumping (copy remaining head : Nat)
  | clearing
  | crediting
  | testing
  | resetting
  deriving DecidableEq, Repr

/-- A call, with the slots it has taken since it began. -/
structure Reader where
  pc : ReadPc
  /-- An `int`, whose wrap does not show: a call without credits has one pass, and the
  packets that calls with credits are proved to deliver fit buffers of `MAX_RW_COUNT`. -/
  rcLen : Int
  user : UserBuffer
  took : List Slot

def Reader.idle : Reader := ⟨.idle,0,.untouched,[]⟩

structure Return where
  rc : Int
  user : UserBuffer
  took : List Slot

structure ReadSystem where
  rx : RxSystem
  eopFound : Bool
  userBufferIndex : Nat
  rxBuffer : Nat → Byte
  readers : Nat → Reader
  sent : List Slot
  returns : List Return

inductive ReadOp where
  | fill (x : Slot)
  | service
  | start (i : Nat) (count : Nat)
  | wait (i : Nat) (signal : Bool)
  | check (i : Nat)
  | lock (i : Nat)
  | copy (i : Nat) (uncopied : Nat)
  | copied (i : Nat)
  | bump (i : Nat)
  | clear (i : Nat)
  | credit (i : Nat)
  | test (i : Nat)
  | finish (i : Nat)
  deriving DecidableEq, Repr

def ReadSystem.opened (creditMode : Bool) : ReadSystem where
  rx := cyclicTransferSetup creditMode
  eopFound := false
  userBufferIndex := 0
  rxBuffer := fun _ => 0
  readers := fun _ => .idle
  sent := []
  returns := []

def ReadSystem.setReader (s : ReadSystem) (i : Nat) (r : Reader) : ReadSystem :=
  { s with readers := Function.update s.readers i r }

def ReadSystem.goto (s : ReadSystem) (i : Nat) (pc : ReadPc) : ReadSystem :=
  s.setReader i { s.readers i with pc := pc }

def ReadSystem.leave (s : ReadSystem) (i : Nat) (rc : Int) : ReadSystem :=
  { s.setReader i .idle with
    returns := s.returns ++ [⟨rc,(s.readers i).user,(s.readers i).took⟩] }

def ReadSystem.awaited (creditMode : Bool) (s : ReadSystem) : Bool :=
  if creditMode then s.rx.ring.rxHead != s.rx.ring.rxTail || s.rx.ring.rxOverrun else s.eopFound

/-- The payload is in place before the result. -/
def ReadSystem.fill (s : ReadSystem) (x : Slot) (rx : RxSystem) : ReadSystem :=
  let base := s.rx.filled % rxBufPages*rxBufBlock
  { s with
    rx := rx
    rxBuffer := fun o => if base ≤ o ∧ o < base+x.payload.length then x.payload.getD (o-base) 0
      else s.rxBuffer o
    sent := s.sent ++ [x] }

def ReadSystem.service (creditMode : Bool) (s : ReadSystem) (rx : RxSystem) : ReadSystem :=
  { s with
    rx := rx
    eopFound := s.eopFound || (!creditMode && decide (0 < s.rx.ring.process.eopCount)) }

def ReadSystem.batch (s : ReadSystem) : List Slot :=
  (s.sent.drop s.rx.consumed).take s.rx.ring.complete.numCredit

def Reader.copies (r : Reader) (length head : Nat) (slots : List Slot) : Reader :=
  { r with
    pc := .copying length head
    took := r.took ++ slots }

def ReadSystem.lock (s : ReadSystem) (i : Nat) (rx : RxSystem) : ReadSystem :=
  let c := s.rx.ring.complete
  let r := s.readers i
  { s with
    rx := rx
    eopFound := s.eopFound || c.eop
    readers := Function.update s.readers i
      (if c.fault then { r with pc := .testing, rcLen := r.rcLen-eIo }
      else r.copies c.pktLength s.rx.ring.rxHead s.batch) }

def ReadSystem.copy (s : ReadSystem) (i remaining head uncopied : Nat) (rx : RxSystem) :
    ReadSystem :=
  let r := s.readers i
  let n := copyLength remaining
  { s.setReader i { r with
      pc := if uncopied = 0 then .bumping n remaining head else .clearing
      user := r.user.write s.userBufferIndex (n-uncopied) fun k => s.rxBuffer (head*rxBufBlock+k) }
    with rx := rx }

def ReadSystem.bump (s : ReadSystem) (i copy remaining head : Nat) : ReadSystem :=
  { s.goto i (.copying (remaining-copy) ((head+1) % rxBufPages)) with
    userBufferIndex := bumpIndex s.userBufferIndex copy }

def ReadSystem.pass (s : ReadSystem) (i : Nat) (pc : ReadPc) (rx : RxSystem) : ReadSystem :=
  { s.goto i pc with rx := rx }

def RxSystem.rc (s : RxSystem) (i : Nat) : Nat :=
  ((s.calls i).bind fun call => call.rc).getD 0

def ReadSystem.credit (s : ReadSystem) (i : Nat) (rx : RxSystem) : ReadSystem :=
  { s with
    rx := rx
    readers := Function.update s.readers i { s.readers i with
      pc := .testing
      rcLen := (s.readers i).rcLen+s.rx.rc i } }

def ReadSystem.start (s : ReadSystem) (i : Nat) : ReadSystem :=
  { s.setReader i ⟨.waiting,0,.untouched,[]⟩ with userBufferIndex := 0 }

/-- With credits `eop_found` is reset. -/
def ReadSystem.finish (creditMode : Bool) (s : ReadSystem) (i : Nat) : ReadSystem :=
  { s.leave i (s.readers i).rcLen with eopFound := !creditMode && s.eopFound }

def readNext (c : RxSetting) (s : ReadSystem) : ReadOp → Option ReadSystem
  | .fill x => if x.payload.length ≤ rxBufBlock then
      (rxNext c s.rx (.fill x.result)).map (s.fill x)
    else none
  | .service => (rxNext c s.rx .process).map (s.service c.creditMode)
  | .start i count => if i < c.readers ∧ (s.readers i).pc = .idle ∧ count ≤ maxRwCount then
      some (s.start i)
    else none
  | .wait i signal =>
    if (s.readers i).pc = .waiting ∧ signal = !s.awaited c.creditMode then
      some (s.goto i (.checking (if signal then -eRestartSys else 0)))
    else none
  -- the count of rounds in `rc` cannot reach the 100 that ends the loop
  | .check i => match (s.readers i).pc with
    | .checking rc =>
      if (s.rx.ring.result s.rx.ring.rxHead).status = 0 then some (s.goto i .waiting)
      else if rc ≠ 0 then some (s.leave i rc)
      else some (s.goto i .entering)
    | _ => none
  | .lock i => if (s.readers i).pc = .entering then
      (rxNext c s.rx (.lock i)).map (s.lock i)
    else none
  | .copy i uncopied => match (s.readers i).pc with
    | .copying remaining head =>
      if remaining = 0 ∨ copyLength remaining < uncopied then none
      else if uncopied = 0 then some (s.copy i remaining head 0 s.rx)
      else (rxNext c s.rx (.copied i uncopied)).map (s.copy i remaining head uncopied)
    | _ => none
  | .copied i => match (s.readers i).pc, s.rx.calls i with
    | .copying 0 _, some call => (rxNext c s.rx (.copied i call.pktLength)).map (s.pass i .clearing)
    | _, _ => none
  | .bump i => match (s.readers i).pc with
    | .bumping copy remaining head => some (s.bump i copy remaining head)
    | _ => none
  | .clear i => if (s.readers i).pc = .clearing then
      (rxNext c s.rx (.clear i)).map (s.pass i .crediting)
    else none
  | .credit i => if (s.readers i).pc = .crediting then
      (rxNext c s.rx (.credit i)).map (s.credit i)
    else none
  | .test i => if (s.readers i).pc = .testing then
      some (s.goto i (if s.eopFound then .resetting else .waiting))
    else none
  | .finish i => if (s.readers i).pc = .resetting then some (s.finish c.creditMode i) else none

inductive ReadStep (c : RxSetting) (s : ReadSystem) : ReadOp → ReadSystem → Prop
  | fill {x : Slot} (hlen : x.payload.length ≤ rxBufBlock) (hdevice : c.device x.result = true)
      (hcredits : c.creditMode = true → 0 < s.rx.credits) :
      ReadStep c s (.fill x) (s.fill x (s.rx.fill x.result))
  | service : ReadStep c s .service (s.service c.creditMode s.rx.process)
  | start {i count : Nat} (hi : i < c.readers) (hpc : (s.readers i).pc = .idle)
      (hcount : count ≤ maxRwCount) : ReadStep c s (.start i count) (s.start i)
  | wait {i : Nat} {signal : Bool} (hpc : (s.readers i).pc = .waiting)
      (hsignal : signal = !s.awaited c.creditMode) :
      ReadStep c s (.wait i signal) (s.goto i (.checking (if signal then -eRestartSys else 0)))
  | again {i : Nat} {rc : Int} (hpc : (s.readers i).pc = .checking rc)
      (hempty : (s.rx.ring.result s.rx.ring.rxHead).status = 0) :
      ReadStep c s (.check i) (s.goto i .waiting)
  | interrupted {i : Nat} {rc : Int} (hpc : (s.readers i).pc = .checking rc) (hrc : rc ≠ 0) :
      ReadStep c s (.check i) (s.leave i rc)
  | enter {i : Nat} (hpc : (s.readers i).pc = .checking 0) :
      ReadStep c s (.check i) (s.goto i .entering)
  | lock {i : Nat} (hpc : (s.readers i).pc = .entering) (hi : i < c.readers)
      (hnone : s.rx.calls i = none) : ReadStep c s (.lock i) (s.lock i (s.rx.lock i))
  | copy {i remaining head : Nat} (hpc : (s.readers i).pc = .copying remaining head)
      (hpos : remaining ≠ 0) : ReadStep c s (.copy i 0) (s.copy i remaining head 0 s.rx)
  | copyFails {i remaining head uncopied : Nat} {call : CyclicCall}
      (hpc : (s.readers i).pc = .copying remaining head) (hpos : uncopied ≠ 0)
      (hcall : s.rx.calls i = some call) : ReadStep c s (.copy i uncopied)
        (s.copy i remaining head uncopied (s.rx.copied i call uncopied))
  | copied {i head : Nat} {call : CyclicCall} (hpc : (s.readers i).pc = .copying 0 head)
      (hcall : s.rx.calls i = some call) :
      ReadStep c s (.copied i) (s.pass i .clearing (s.rx.copied i call call.pktLength))
  | bump {i copy remaining head : Nat} (hpc : (s.readers i).pc = .bumping copy remaining head) :
      ReadStep c s (.bump i) (s.bump i copy remaining head)
  | clear {i : Nat} {call : CyclicCall} (hpc : (s.readers i).pc = .clearing)
      (hcall : s.rx.calls i = some call) (hopen : call.cleared = false) :
      ReadStep c s (.clear i) (s.pass i .crediting (s.rx.clear i call))
  | credit {i : Nat} {call : CyclicCall} (hpc : (s.readers i).pc = .crediting)
      (hcall : s.rx.calls i = some call) (hcleared : call.cleared = true) :
      ReadStep c s (.credit i) (s.credit i (s.rx.credit i call))
  | test {i : Nat} (hpc : (s.readers i).pc = .testing) :
      ReadStep c s (.test i) (s.goto i (if s.eopFound then .resetting else .waiting))
  | finish {i : Nat} (hpc : (s.readers i).pc = .resetting) :
      ReadStep c s (.finish i) (s.finish c.creditMode i)

theorem readNext_step {c : RxSetting} {s t : ReadSystem} {op : ReadOp}
    (h : readNext c s op = some t) : ReadStep c s op t := by
  cases op with
  | fill x =>
    simp only [readNext, Option.ite_none_right_eq_some, Option.map_eq_some_iff] at h
    obtain ⟨hlen,rx,hrx,rfl⟩ := h
    simp only [rxNext, Option.ite_none_right_eq_some, Option.some.injEq] at hrx
    obtain ⟨⟨hdevice,hcredits⟩,rfl⟩ := hrx
    exact .fill hlen hdevice hcredits
  | service =>
    simp only [readNext, rxNext, Option.map_some, Option.some.injEq] at h
    exact h ▸ .service
  | start i count =>
    simp only [readNext, Option.ite_none_right_eq_some, Option.some.injEq] at h
    obtain ⟨⟨hi,hpc,hcount⟩,rfl⟩ := h
    exact .start hi hpc hcount
  | wait i signal =>
    simp only [readNext, Option.ite_none_right_eq_some, Option.some.injEq] at h
    obtain ⟨⟨hpc,hsignal⟩,rfl⟩ := h
    exact .wait hpc hsignal
  | check i =>
    simp only [readNext] at h
    split at h
    · rename_i rc hpc
      split at h
      · cases h
        exact .again hpc ‹_›
      · split at h
        · cases h
          exact .interrupted hpc ‹_›
        · rename_i hrc
          cases h
          rw [not_not.mp hrc] at hpc
          exact .enter hpc
    · cases h
  | lock i =>
    simp only [readNext, rxNext, Option.ite_none_right_eq_some, Option.map_eq_some_iff,
      Option.some.injEq] at h
    obtain ⟨hpc,rx,⟨⟨hi,hnone⟩,rfl⟩,rfl⟩ := h
    exact .lock hpc hi hnone
  | copy i uncopied =>
    simp only [readNext] at h
    split at h
    · rename_i remaining head hpc
      split at h
      · cases h
      · rename_i hpos
        split at h
        · rename_i hzero
          cases h
          cases hzero
          exact .copy hpc fun hrem => hpos (Or.inl hrem)
        · rename_i hne
          cases hcall : s.rx.calls i with
          | none => simp [rxNext, hcall] at h
          | some call =>
            simp only [rxNext, hcall, Option.map_eq_some_iff, Option.ite_none_right_eq_some,
              Option.some.injEq] at h
            obtain ⟨rx,⟨_,rfl⟩,rfl⟩ := h
            exact .copyFails hpc hne hcall
    · cases h
  | copied i =>
    simp only [readNext] at h
    split at h
    · rename_i head call hpc hcall
      simp only [rxNext, hcall, Option.map_eq_some_iff, Option.ite_none_right_eq_some,
        Option.some.injEq] at h
      obtain ⟨rx,⟨_,rfl⟩,rfl⟩ := h
      exact .copied hpc hcall
    · cases h
  | bump i =>
    simp only [readNext] at h
    split at h
    · cases h
      exact .bump ‹_›
    · cases h
  | clear i =>
    cases hcall : s.rx.calls i with
    | none => simp [readNext, rxNext, hcall] at h
    | some call =>
      simp only [readNext, rxNext, hcall, Option.ite_none_right_eq_some, Option.map_eq_some_iff,
        Option.some.injEq] at h
      obtain ⟨hpc,rx,⟨⟨_,hopen⟩,rfl⟩,rfl⟩ := h
      exact .clear hpc hcall hopen
  | credit i =>
    cases hcall : s.rx.calls i with
    | none => simp [readNext, rxNext, hcall] at h
    | some call =>
      simp only [readNext, rxNext, hcall, Option.ite_none_right_eq_some, Option.map_eq_some_iff,
        Option.some.injEq] at h
      obtain ⟨hpc,rx,⟨hcleared,rfl⟩,rfl⟩ := h
      exact .credit hpc hcall hcleared
  | test i =>
    simp only [readNext, Option.ite_none_right_eq_some, Option.some.injEq] at h
    obtain ⟨hpc,rfl⟩ := h
    exact .test hpc
  | finish i =>
    simp only [readNext, Option.ite_none_right_eq_some, Option.some.injEq] at h
    obtain ⟨hpc,rfl⟩ := h
    exact .finish hpc

section readers

variable (s : ReadSystem) (i : Nat) (pc : ReadPc) (rx : RxSystem)

@[simp] theorem ReadSystem.setReader_self (r : Reader) : (s.setReader i r).readers i = r :=
  Function.update_self ..

@[simp] theorem ReadSystem.goto_self :
    (s.goto i pc).readers i = { s.readers i with pc := pc } := Function.update_self ..

@[simp] theorem ReadSystem.pass_self :
    (s.pass i pc rx).readers i = { s.readers i with pc := pc } := Function.update_self ..

@[simp] theorem ReadSystem.leave_self (rc : Int) : (s.leave i rc).readers i = .idle :=
  Function.update_self ..

@[simp] theorem ReadSystem.finish_self (creditMode : Bool) :
    (s.finish creditMode i).readers i = .idle := Function.update_self ..

@[simp] theorem ReadSystem.start_self : (s.start i).readers i = ⟨.waiting,0,.untouched,[]⟩ :=
  Function.update_self ..

@[simp] theorem ReadSystem.bump_self (copy remaining head : Nat) :
    (s.bump i copy remaining head).readers i =
      { s.readers i with pc := .copying (remaining-copy) ((head+1) % rxBufPages) } :=
  Function.update_self ..

@[simp] theorem ReadSystem.credit_self : (s.credit i rx).readers i =
    { s.readers i with
      pc := .testing
      rcLen := (s.readers i).rcLen+s.rx.rc i } := Function.update_self ..

@[simp] theorem ReadSystem.copy_pc (remaining head uncopied : Nat) :
    ((s.copy i remaining head uncopied rx).readers i).pc =
      if uncopied = 0 then .bumping (copyLength remaining) remaining head else .clearing := by
  simp [copy]

@[simp] theorem ReadSystem.copy_took (remaining head uncopied : Nat) :
    ((s.copy i remaining head uncopied rx).readers i).took = (s.readers i).took := by
  simp [copy]

@[simp] theorem ReadSystem.goto_index : (s.goto i pc).userBufferIndex = s.userBufferIndex := rfl

@[simp] theorem ReadSystem.pass_index : (s.pass i pc rx).userBufferIndex = s.userBufferIndex := rfl

@[simp] theorem ReadSystem.copy_index (remaining head uncopied : Nat) :
    (s.copy i remaining head uncopied rx).userBufferIndex = s.userBufferIndex := rfl

@[simp] theorem ReadSystem.credit_index : (s.credit i rx).userBufferIndex = s.userBufferIndex := rfl

end readers

def ReadOp.reader : ReadOp → Option Nat
  | .fill _ | .service => none
  | .start i _ | .wait i _ | .check i | .lock i | .copy i _ | .copied i | .bump i | .clear i
  | .credit i | .test i | .finish i => some i

theorem ReadStep.others {c : RxSetting} {s t : ReadSystem} {op : ReadOp} (h : ReadStep c s op t)
    {j : Nat} (hj : op.reader ≠ some j) : t.readers j = s.readers j := by
  cases h with
  | fill => rfl
  | service => rfl
  | _ => exact Function.update_of_ne (fun hji => hj (by rw [hji]; rfl)) ..

theorem ReadStep.off {c : RxSetting} {s t : ReadSystem} {op : ReadOp} (h : ReadStep c s op t)
    (hoff : s.rx.ring.rxOverrun = false) (hraises : op = .service → s.rx.ring.raises = false) :
    t.rx.ring.rxOverrun = false := by
  cases h with
  | service =>
    have hraises := hraises rfl
    have hquiet : s.rx.ring.process.ring.rxOverrun = false := by
      simpa [RxRing.raises, hoff] using hraises
    exact hquiet
  | lock => exact s.rx.ring.complete_spec.1.overrun.trans hoff
  | clear => rfl
  | _ => exact hoff

/-- What a step does to the ring and its calls is a step of theirs. -/
theorem readNext_rx {c : RxSetting} {s t : ReadSystem} {op : ReadOp}
    (h : readNext c s op = some t) : t.rx = s.rx ∨ ∃ rxOp, rxNext c s.rx rxOp = some t.rx := by
  have hmap : ∀ {o : Option RxSystem} {f : RxSystem → ReadSystem}, o.map f = some t →
      (∀ rx, (f rx).rx = rx) → o = some t.rx := by
    intro o f hf hrx
    obtain ⟨rx,hrx',rfl⟩ := Option.map_eq_some_iff.mp hf
    rw [hrx', hrx]
  cases op with
  | fill x =>
    simp only [readNext, Option.ite_none_right_eq_some] at h
    exact Or.inr ⟨_,hmap h.2 fun _ => rfl⟩
  | service =>
    simp only [readNext] at h
    exact Or.inr ⟨_,hmap h fun _ => rfl⟩
  | lock i =>
    simp only [readNext, Option.ite_none_right_eq_some] at h
    exact Or.inr ⟨_,hmap h.2 fun _ => rfl⟩
  | copy i uncopied =>
    simp only [readNext] at h
    repeat' split at h
    all_goals first
      | cases h
      | exact Or.inr ⟨_,hmap h fun _ => rfl⟩
    exact Or.inl rfl
  | copied i =>
    simp only [readNext] at h
    split at h
    · exact Or.inr ⟨_,hmap h fun _ => rfl⟩
    · cases h
  | clear i =>
    simp only [readNext, Option.ite_none_right_eq_some] at h
    exact Or.inr ⟨_,hmap h.2 fun _ => rfl⟩
  | credit i =>
    simp only [readNext, Option.ite_none_right_eq_some] at h
    exact Or.inr ⟨_,hmap h.2 fun _ => rfl⟩
  | _ =>
    left
    cases readNext_step h <;> rfl

end DmaCamera
