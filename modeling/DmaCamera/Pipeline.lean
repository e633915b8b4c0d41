import DmaCamera.ServiceOrder
import DmaCamera.Fetch
import DmaCamera.Library.Copying
set_option autoImplicit false

namespace DmaCamera
open Countdown Runs

/-! The engine and the driver together, in interrupt mode: what the device makes
of the descriptors that the driver leaves in memory. -/

/-- The engine on the device: the descriptor it reads next, how many more lie
adjacent behind that one, how many it has executed, and an interrupt that the
handler has not seen yet. -/
structure DmaDevice where
  busy : Bool
  addr : U64
  adjacent : Nat
  completed : Nat
  irq : Bool

def DmaDevice.start (regs : EngineSgdmaRegs) : DmaDevice :=
  ⟨true,joinAddr regs.firstDescHi regs.firstDescLo,regs.firstDescAdjacent.toNat,0,false⟩

/-- A descriptor is executed. The device stops behind one that says so, goes on
with an adjacent one, or else with the one that is next. -/
def DmaDevice.execute (dev : DmaDevice) (desc : XdmaDesc) : DmaDevice :=
  if desc.control.has xdmaDescStopped then
    { dev with busy := false, completed := dev.completed+1, irq := true }
  else if dev.adjacent = 0 then
    { dev with addr := desc.next, adjacent := desc.extraAdjacent, completed := dev.completed+1 }
  else { dev with addr := dev.addr+32, adjacent := dev.adjacent-1, completed := dev.completed+1 }

@[simp] theorem execute_completed (dev : DmaDevice) (desc : XdmaDesc) :
    (dev.execute desc).completed = dev.completed+1 := by
  unfold DmaDevice.execute
  split
  · rfl
  · split <;> rfl

def DmaDevice.reads (dev : DmaDevice) : RegisterReads :=
  ⟨if dev.busy then xdmaStatBusy else xdmaStatDescStopped ||| xdmaStatDescCompleted,
    BitVec.ofNat 32 dev.completed⟩

/-- `tables` is the coherent memory, in which the descriptors are; `executed` is
what the device has done so far. -/
structure Pipeline where
  driver : Driver
  tables : U64 → XdmaDesc
  device : DmaDevice
  executed : List XdmaDesc

structure LinkedTransfer extends PlainTransfer where
  linked : Linked transfer

inductive PipeOp where
  | submit (x : LinkedTransfer)
  | execute
  | service

def XdmaTransfer.descriptors (x : XdmaTransfer) : List XdmaDesc :=
  (List.range x.descNum).map x.descVirt

def writeTable (tables : U64 → XdmaDesc) (x : XdmaTransfer) : U64 → XdmaDesc :=
  Copying.copy x.descVirt ((List.range x.descNum).map fun i => (i,x.busAt i)) tables

/-- A call has changed the driver; the device begins anew if it was started. -/
def Pipeline.afterCall (s : Pipeline) (d : Driver) : Pipeline :=
  { s with
    driver := d
    device := if d.started = s.driver.started then s.device else .start d.engine.sgdmaRegs }

def Pipeline.withTable (s : Pipeline) (x : XdmaTransfer) : Pipeline :=
  { s with tables := writeTable s.tables x }

def Pipeline.acknowledged (s : Pipeline) : Pipeline :=
  { s with device := { s.device with irq := false } }

@[simp] theorem afterCall_driver (s : Pipeline) (d : Driver) : (s.afterCall d).driver = d := rfl

@[simp] theorem afterCall_tables (s : Pipeline) (d : Driver) : (s.afterCall d).tables = s.tables := rfl

@[simp] theorem afterCall_executed (s : Pipeline) (d : Driver) :
    (s.afterCall d).executed = s.executed := rfl

def pipeNext (p : Params) (s : Pipeline) : PipeOp → Option Pipeline
  | .submit x => match applyOp p s.driver (.queue x.toPlainTransfer) with
    | .ok (d,_) => some ((s.withTable x.transfer).afterCall d)
    | .error _ => none
  | .execute =>
    if s.device.busy then
      some { s with
        device := s.device.execute (s.tables s.device.addr)
        executed := s.executed ++ [s.tables s.device.addr] }
    else none
  | .service =>
    if s.device.irq then match applyOp p s.driver (.service 0 s.device.reads) with
      | .ok (d,_) => some (s.acknowledged.afterCall d)
      | .error _ => none
    else none

/-- The descriptors of a new transfer are not where those of a listed one are. -/
def freshTable (s : Pipeline) : PipeOp → Prop
  | .submit x => ∀ t ∈ s.driver.engine.transferList, ∀ i < s.driver.need t,
      ∀ j < x.transfer.descNum, (s.driver.transfers t).busAt i ≠ x.transfer.busAt j
  | _ => True

def StartsHead (d d' : Driver) : Prop :=
  d'.started = d.started ∨ ∃ t, d'.engine.transferList.head? = some t ∧
    d'.started = d.started ++ [t] ∧ d'.engine.sgdmaRegs = firstDescRegs (d'.transfers t)

theorem engineStart_startsHead {p : Params} {d d' : Driver} (h : engineStart p d = .ok d') :
    StartsHead d d' := by
  unfold engineStart at h
  cases hrun : d.engine.running with
  | true => simp [hrun] at h
  | false =>
    cases hlist : d.engine.transferList with
    | nil => simp [hrun, hlist] at h
    | cons t rest =>
      simp only [hrun, hlist, Bool.false_eq_true, if_false, Except.ok.injEq] at h
      subst h
      exact Or.inr ⟨t,rfl,rfl,rfl⟩

theorem transferQueue_startsHead {p : Params} {d d' : Driver} {t : TransferId} {rc : Int}
    (h : transferQueue p d t = .ok (d',rc)) : StartsHead d d' := by
  unfold transferQueue at h
  by_cases hnum : (d.transfers t).descNum = 0
  · simp [hnum] at h
  · rw [if_neg hnum] at h
    cases hshut : d.engine.shutdown.has engineShutdownRequest with
    | true =>
      rw [hshut, if_pos rfl] at h
      cases h
      exact Or.inl rfl
    | false =>
      rw [hshut, if_neg Bool.false_ne_true] at h
      cases hrun : (d.enlist t).engine.running with
      | true =>
        simp only [hrun, Bool.not_true, Bool.false_eq_true, if_false] at h
        cases h
        exact Or.inl rfl
      | false =>
        cases hstart : engineStart p (d.enlist t) with
        | error f => simp [hrun, hstart] at h
        | ok d₁ =>
          simp only [hrun, hstart, Bool.not_false, if_true] at h
          cases h
          have hs := engineStart_startsHead hstart
          exact hs

theorem engineServiceResume_startsHead {p : Params} {d d' : Driver}
    (h : engineServiceResume p d = .ok d') : StartsHead d d' := by
  unfold engineServiceResume at h
  split at h
  · split at h
    · cases h
      exact Or.inl rfl
    · split at h
      · exact engineStart_startsHead h
      · cases h
        exact Or.inl rfl
  · cases h
    exact Or.inl rfl

theorem opStep_startsHead {p : Params} {d d' : Driver} {op : EngineOp} (hd : Sound d)
    (h : opStep p d op d') : StartsHead d d' := by
  cases op with
  | queue x =>
    obtain ⟨rc,h⟩ := h
    have hs := transferQueue_startsHead h
    exact hs
  | service wb reads =>
    rcases opStep_service hd h with ⟨_,rfl⟩ | ⟨hrun,gone,t,rest,left,hsplit,_⟩
    · exact Or.inl rfl
    · obtain ⟨rc,h⟩ := h
      obtain ⟨d₂,hqueue,hall,_⟩ := serviceQueue_spec (d := d.prepared p wb reads)
        (by rw [prepared_list]; exact hd.listPlain) p (by rw [prepared_list]; exact hsplit)
      have hstarted : d₂.started = d.started := hall.started
      rw [applyOp, engineService_running hrun, hqueue] at h
      simp only [Except.bind] at h
      cases hres : engineServiceResume p { d₂ with engine := clearWriteback p d₂.engine } with
      | error f => simp [hres] at h
      | ok d₃ =>
        rw [hres] at h
        cases h
        rcases engineServiceResume_startsHead hres with hs | ⟨u,hhead,hs,hregs⟩
        · exact Or.inl (hs.trans hstarted)
        · exact Or.inr ⟨u,hhead,by rw [hs, hstarted],hregs⟩

def Holds (tables : U64 → XdmaDesc) (x : XdmaTransfer) : Prop :=
  ∀ i < x.descNum, tables (x.busAt i) = x.descVirt i

/-- The device has executed the first descriptors of a transfer, and reads the
next one next; or it has executed all, and the handler is still to come. -/
structure Executing (x : XdmaTransfer) (dev : DmaDevice) : Prop where
  busy : dev.busy = true → dev.irq = false ∧ dev.completed < x.descNum ∧
    dev.addr = x.busAt dev.completed ∧ dev.completed+dev.adjacent < x.descNum
  stopped : dev.busy = false → dev.irq = true ∧ dev.completed = x.descNum

theorem extraAt_lt {x : XdmaTransfer} {i : Nat} (h : i+1 < x.descNum) :
    i+1+extraAt x i < x.descNum := by
  have hle : extraAt x i ≤ clampExtraAdj (x.descNum-i-1) := Nat.min_le_left _ _
  have hclamp : clampExtraAdj (x.descNum-i-1) ≤ x.descNum-i-1-1 := by
    unfold clampExtraAdj
    omega
  omega

theorem Executing.start {x : XdmaTransfer} (hx : Linked x) :
    Executing x (.start (firstDescRegs x)) where
  stopped hf := absurd hf (by simp [DmaDevice.start])
  busy _ := by
    have hpos := hx.nonempty
    have hle := clampExtraAdj_le x.descNum
    have hclamp : clampExtraAdj x.descNum ≤ x.descNum-1 := Nat.min_le_left _ _
    have hadj : x.descAdjacent > 0 := by rw [hx.adjacent]; exact hpos
    have hval : (BitVec.ofNat 32 (clampExtraAdj x.descNum)).toNat = clampExtraAdj x.descNum := by
      unfold maxExtraAdj at hle
      rw [BitVec.toNat_ofNat, Nat.mod_eq_of_lt (by omega)]
    refine ⟨rfl,hpos,?_,?_⟩
    · simp only [DmaDevice.start, firstDescRegs, joinAddr_pciDma, busAt_zero]
    · simp only [DmaDevice.start, firstDescRegs, if_pos hadj]
      rw [hx.adjacent, hval]
      omega

/-- A descriptor of the chain leads to the next one, the last one to none. -/
theorem Executing.execute {x : XdmaTransfer} {dev : DmaDevice} {tables : U64 → XdmaDesc}
    (hx : Linked x) (ht : Holds tables x) (h : Executing x dev) (hb : dev.busy = true) :
    tables dev.addr = x.descVirt dev.completed ∧
      Executing x (dev.execute (tables dev.addr)) := by
  obtain ⟨hirq,hlt,haddr,hadj⟩ := h.busy hb
  have hdesc : tables dev.addr = x.descVirt dev.completed := by rw [haddr, ht _ hlt]
  rw [hdesc]
  refine ⟨rfl,?_⟩
  unfold DmaDevice.execute
  by_cases hlast : dev.completed+1 < x.descNum
  · have hcontrol := hx.innerControl dev.completed hlast
    have hfields := innerControl_fields (extraAt_le x dev.completed)
    have hstop : (x.descVirt dev.completed).control.has xdmaDescStopped = false := by
      rw [hcontrol]
      exact hfields.2.2
    rw [hstop, if_neg Bool.false_ne_true]
    by_cases hz : dev.adjacent = 0
    · -- the block ends here
      have hextra : (x.descVirt dev.completed).extraAdjacent = extraAt x dev.completed := by
        rw [XdmaDesc.extraAdjacent, hcontrol]
        exact hfields.1
      rw [if_pos hz, hx.innerNext dev.completed hlast, hextra]
      refine ⟨fun _ => ⟨hirq,hlast,rfl,extraAt_lt hlast⟩,fun hf => ?_⟩
      exact absurd (hb.symm.trans hf) (by decide)
    · rw [if_neg hz, haddr]
      refine ⟨fun _ => ⟨hirq,hlast,?_,?_⟩,fun hf => ?_⟩
      · exact busAt_add x dev.completed 1
      · simp only
        omega
      · exact absurd (hb.symm.trans hf) (by decide)
  · have hidx : dev.completed = x.descNum-1 := by omega
    have hstop : (x.descVirt dev.completed).control.has xdmaDescStopped = true := by
      rw [hidx, hx.lastControl]
      decide
    rw [hstop, if_pos rfl]
    refine ⟨fun hf => absurd hf Bool.false_ne_true,fun _ => ⟨rfl,?_⟩⟩
    simp only
    omega

def Driver.descriptors (d : Driver) (ts : List TransferId) : List XdmaDesc :=
  ts.flatMap fun t => (d.transfers t).descriptors

def Pipeline.progress (s : Pipeline) : Nat :=
  if s.driver.engine.transferList = [] then 0 else s.device.completed

/-- Device and driver agree on where they are: the device has executed the
descriptors of all transfers that are gone, and some of those of the head. -/
structure InStep (s : Pipeline) : Prop where
  order : InOrder s.driver
  linked : ∀ t ∈ s.driver.engine.transferList, Linked (s.driver.transfers t)
  tables : ∀ t ∈ s.driver.engine.transferList, Holds s.tables (s.driver.transfers t)
  idle : s.driver.engine.transferList = [] → s.device.busy = false ∧ s.device.irq = false
  head : ∀ t rest, s.driver.engine.transferList = t :: rest →
    Executing (s.driver.transfers t) s.device
  completed : ∀ t ∈ s.driver.removed, s.driver.state t = .completed
  submitted : ∀ t ∈ s.driver.engine.transferList, s.driver.state t = .submitted
  executed : s.executed = s.driver.descriptors s.driver.removed ++
    (s.driver.descriptors s.driver.engine.transferList).take s.progress

theorem Executing.completed_le {x : XdmaTransfer} {dev : DmaDevice} (h : Executing x dev) :
    dev.completed ≤ x.descNum := by
  cases hb : dev.busy with
  | true => exact Nat.le_of_lt (h.busy hb).2.1
  | false => exact Nat.le_of_eq (h.stopped hb).2

theorem descriptors_length (x : XdmaTransfer) : x.descriptors.length = x.descNum := by
  simp [XdmaTransfer.descriptors]

theorem descriptors_cons (d : Driver) (t : TransferId) (ts : List TransferId) :
    d.descriptors (t :: ts) = (d.transfers t).descriptors ++ d.descriptors ts := List.flatMap_cons

theorem busAt_injective {x : XdmaTransfer} (hx : Linked x) {i j : Nat} (hi : i < x.descNum)
    (hj : j < x.descNum) (h : x.busAt i = x.busAt j) : i = j := by
  have hsmall := hx.small
  have heq : BitVec.ofNat 64 (32*i) = BitVec.ofNat 64 (32*j) := add_left_cancel h
  have hval := congrArg BitVec.toNat heq
  rw [BitVec.toNat_ofNat, BitVec.toNat_ofNat] at hval
  omega

theorem writeTable_holds {x : XdmaTransfer} (hx : Linked x) (tables : U64 → XdmaDesc) :
    Holds (writeTable tables x) x := by
  intro i hi
  have hplaces : ∀ i < x.descNum, ∀ j < x.descNum, x.busAt i = x.busAt j → i = j :=
    fun i hi j hj h => busAt_injective hx hi hj h
  have hcopy := @Copying.copy_pairs _ _ _ _ x.descVirt id x.busAt x.descNum tables hplaces i hi
  rwa [Copying.pairs, ← List.range_eq_range'] at hcopy

theorem writeTable_frame {x : XdmaTransfer} {tables : U64 → XdmaDesc} {a : U64}
    (h : ∀ j < x.descNum, a ≠ x.busAt j) : writeTable tables x a = tables a := by
  have hkept := @Copying.copy_pairs_frame _ _ _ _ x.descVirt id x.busAt x.descNum a tables h
  rwa [Copying.pairs, ← List.range_eq_range'] at hkept

section same

variable {x y : XdmaTransfer} (h : x.SameDescriptors y)
include h

theorem XdmaTransfer.SameDescriptors.descriptors : y.descriptors = x.descriptors := by
  rw [XdmaTransfer.descriptors, h.descNum, h.descVirt]
  rfl

theorem XdmaTransfer.SameDescriptors.busAt : y.busAt = x.busAt := by
  funext i
  rw [XdmaTransfer.busAt, h.descBus]
  rfl

theorem XdmaTransfer.SameDescriptors.holds {tables : U64 → XdmaDesc} (hx : Holds tables x) :
    Holds tables y := by
  intro i hi
  rw [h.busAt, h.descVirt]
  exact hx i (h.descNum ▸ hi)

theorem XdmaTransfer.SameDescriptors.linked (hx : Linked x) : Linked y := by
  have hextra : extraAt y = extraAt x := by
    funext i
    rw [extraAt, h.descNum, h.busAt]
    rfl
  refine ⟨?_,?_,?_,?_,?_,?_,?_⟩
  · rw [h.descAdjacent, h.descNum]
    exact hx.adjacent
  · rw [h.descNum]
    exact hx.nonempty
  · rw [h.descNum]
    exact hx.small
  · rw [h.descNum, h.descVirt, hextra]
    exact hx.innerControl
  · rw [h.descNum, h.descVirt, h.busAt]
    exact hx.innerNext
  · rw [h.descNum, h.descVirt]
    exact hx.lastControl
  · rw [h.descNum, h.descVirt]
    exact hx.lastNext

end same

theorem XdmaTransfer.SameDescriptors.refl (x : XdmaTransfer) : x.SameDescriptors x :=
  ⟨rfl,rfl,rfl,rfl⟩

theorem settle_same (f : TransferId → XdmaTransfer) (gone : List TransferId) (state : TransferState)
    (v : TransferId) : (f v).SameDescriptors (settle f gone state v) := by
  unfold settle
  split <;> exact ⟨rfl,rfl,rfl,rfl⟩

theorem descriptors_congr {d d' : Driver} {ts : List TransferId}
    (h : ∀ t ∈ ts, (d.transfers t).SameDescriptors (d'.transfers t)) :
    d'.descriptors ts = d.descriptors ts := by
  rw [Driver.descriptors, Driver.descriptors, List.flatMap_def, List.flatMap_def]
  exact congrArg List.flatten (List.map_congr_left fun t ht => (h t ht).descriptors)

end DmaCamera
