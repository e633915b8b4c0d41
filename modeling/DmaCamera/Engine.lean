import DmaCamera.Transfer
import DmaCamera.Library.Countdown
set_option autoImplicit false

namespace DmaCamera

/-- A transfer object, by the identity of its allocation. -/
abbrev TransferId := Nat

structure Params where
  pollMode : Bool
  enableCreditMp : Bool
  deriving DecidableEq, Repr

structure EngineRegs where
  control : U32
  interruptEnableMask : U32
  deriving DecidableEq, Repr

structure EngineSgdmaRegs where
  firstDescLo : U32
  firstDescHi : U32
  firstDescAdjacent : U32
  deriving DecidableEq, Repr

structure XdmaPerformanceIoctl where
  version : U32
  transferSize : U32
  stopped : U32
  iterations : U32
  clockCycleCount : U64
  dataCycleCount : U64
  pendingCount : U64
  deriving DecidableEq, Repr

structure XdmaResult where
  status : U32
  length : U32
  deriving DecidableEq, Repr

structure Engine where
  regs : EngineRegs
  sgdmaRegs : EngineSgdmaRegs
  shutdown : U32
  running : Bool
  streaming : Bool
  nonIncrAddr : Bool
  dirToDev : Bool
  -- only ever subtracted from a 32-bit count, so its own overflow never shows
  descDequeued : Nat
  status : U32
  interruptEnableMaskValue : U32
  transferList : List TransferId
  rxTail : Nat
  rxHead : Nat
  rxOverrun : Bool
  rxTransferCyclic : Option TransferId
  rxResultBufferVirt : Option (Nat → XdmaResult)
  /-- `completed_desc_count` in the host memory behind `poll_mode_addr_virt`. -/
  pollModeWriteback : U32
  xdmaPerf : Option XdmaPerformanceIoctl
  eopFound : Bool

def engineMode (e : Engine) : BuildMode := ⟨e.dirToDev,e.nonIncrAddr,false,true⟩

inductive Notice where
  | wake (transfer : TransferId)
  | aioComplete (transfer : TransferId) (iocb : Kiocb) (done : Nat)
  deriving DecidableEq, Repr

def Notice.transfer : Notice → TransferId
  | .wake t => t
  | .aioComplete t _ _ => t

/-- An engine, the transfers in memory, and what has been seen of the driver so
far, oldest first: transfers accepted by `transfer_queue`, handed to the device
by `engine_start`, taken off the list, reported to their owner, and freed. -/
structure Driver where
  engine : Engine
  transfers : TransferId → XdmaTransfer
  queued : List TransferId
  started : List TransferId
  removed : List TransferId
  notices : List Notice
  destroyed : List TransferId

structure RegisterReads where
  status : U32
  completedDescCount : U32
  deriving DecidableEq, Repr

def Engine.statusRead (e : Engine) (value : U32) : Engine := { e with status := value }

def xdmaEngineStop (p : Params) (e : Engine) : Engine :=
  let w := xdmaCtrlIeDescAlignMismatch ||| xdmaCtrlIeMagicStopped ||| xdmaCtrlIeReadError |||
    xdmaCtrlIeDescError
  let w := if p.pollMode then w ||| xdmaCtrlPollModeWb else
    let w := w ||| xdmaCtrlIeDescStopped ||| xdmaCtrlIeDescCompleted
    if (e.streaming && !e.dirToDev) || e.xdmaPerf.isSome then w ||| xdmaCtrlIeIdleStopped else w
  { e with regs := { e.regs with control := w } }

def engineStartModeConfig (p : Params) (e : Engine) : Engine :=
  let mask := if e.xdmaPerf.isSome then
      xdmaCtrlIeDescStopped ||| xdmaCtrlIeDescCompleted ||| xdmaCtrlIeDescAlignMismatch |||
        xdmaCtrlIeMagicStopped ||| xdmaCtrlIeIdleStopped ||| xdmaCtrlIeReadError |||
        xdmaCtrlIeDescError
    else e.regs.interruptEnableMask
  let w := xdmaCtrlRunStop ||| xdmaCtrlIeReadError ||| xdmaCtrlIeDescError |||
    xdmaCtrlIeDescAlignMismatch ||| xdmaCtrlIeMagicStopped
  let w := if p.pollMode then w ||| xdmaCtrlPollModeWb else
    let w := w ||| xdmaCtrlIeDescStopped ||| xdmaCtrlIeDescCompleted
    let w := if e.streaming && !e.dirToDev then w ||| xdmaCtrlIeIdleStopped else w
    let w := if e.xdmaPerf.isSome then w ||| xdmaCtrlIeIdleStopped else w
    if e.nonIncrAddr then w ||| xdmaCtrlNonIncrAddr else w
  { e with regs := { control := w, interruptEnableMask := mask } }

def firstDescRegs (x : XdmaTransfer) : EngineSgdmaRegs where
  firstDescLo := pciDmaL x.descBus
  firstDescHi := pciDmaH x.descBus
  firstDescAdjacent :=
    if x.descAdjacent > 0 then BitVec.ofNat 32 (clampExtraAdj x.descAdjacent) else 0

def engineStart (p : Params) (d : Driver) : Except Fault Driver :=
  if d.engine.running then .error (.bug .engineStart) else
    match d.engine.transferList with
    | [] => .error (.bug .engineStart)
    | t :: _ =>
      let e := { d.engine with
        shutdown := engineShutdownNone
        descDequeued := 0
        sgdmaRegs := firstDescRegs (d.transfers t) }
      .ok { d with
        engine := { engineStartModeConfig p e with running := true }
        started := d.started ++ [t] }

def engineServiceShutdown (p : Params) (e : Engine) : Engine :=
  { xdmaEngineStop p e with running := false }

def XdmaTransfer.asyncLast (x : XdmaTransfer) : Option Kiocb :=
  if x.lastInRequest then x.iocb else none

def engineTransferCompletion (d : Driver) (t : TransferId) : Driver :=
  match (d.transfers t).asyncLast with
  | some iocb => { d with
      destroyed := d.destroyed ++ [t]
      notices := d.notices ++ [.aioComplete t iocb (d.transfers t).sizeOfRequest] }
  | none => { d with notices := d.notices ++ [.wake t] }

/-- The common end of a serviced transfer: its state is set, `list_del` takes
the head off the list, its descriptors count as dequeued, and its owner hears. -/
def retire (d : Driver) (t : TransferId) (state : TransferState) : Driver :=
  engineTransferCompletion { d with
    engine := { d.engine with
      transferList := d.engine.transferList.tail
      descDequeued := d.engine.descDequeued + (d.transfers t).descNum }
    transfers := Function.update d.transfers t { d.transfers t with state := state }
    removed := d.removed ++ d.engine.transferList.head?.toList } t

/-- The loop of `engine_service_transfer_list` along the list, with the count
`*pdesc_completed`; `none` is the null pointer it ends on when the list empties. -/
def serviceListLoop : List TransferId → Driver → Nat → Driver × Option TransferId × Nat
  | [], d, descCompleted => (d,none,descCompleted)
  | t :: rest, d, descCompleted =>
    if !(d.transfers t).cyclic && decide (descCompleted > (d.transfers t).descNum) then
      serviceListLoop rest (retire d t .completed) (descCompleted-(d.transfers t).descNum)
    else (d,some t,descCompleted)

def engineServiceTransferList (d : Driver) (transfer : Option TransferId) (descCompleted : Nat) :
    Except Fault (Driver × Option TransferId × Nat) :=
  match transfer with
  | none => .error (.bug .engineServiceTransferList)
  | some _ => .ok (serviceListLoop d.engine.transferList d descCompleted)

/-- The status it re-reads for the older hardware only reaches the log. -/
def engineErrHandle (p : Params) (d : Driver) (t : TransferId) : Driver :=
  { d with
    transfers := Function.update d.transfers t { d.transfers t with state := .failed }
    engine := xdmaEngineStop p d.engine }

def engineServiceFinalTransfer (p : Params) (d : Driver) (transfer : Option TransferId)
    (descCompleted : Nat) : Except Fault Driver :=
  match transfer with
  | none => .error (.bug .engineServiceFinalTransfer)
  | some t =>
    if d.engine.status.has errFlags then .ok (engineErrHandle p d t)
    -- a BUSY bit is logged as unexpected here, and ignored
    else .ok (retire d t (if descCompleted < (d.transfers t).descNum then .failed else .completed))

def engineServicePerf (e : Engine) (descCompleted : Nat) : Engine :=
  { e with
    xdmaPerf := e.xdmaPerf.map fun perf =>
      let perf := if e.status.has xdmaStatDescCompleted then
        { perf with iterations := BitVec.ofNat 32 descCompleted } else perf
      if e.status.has xdmaStatDescStopped then { perf with stopped := 1 } else perf }

def engineServiceResume (p : Params) (d : Driver) : Except Fault Driver :=
  if !d.engine.running then
    if d.engine.shutdown.has engineShutdownRequest then
      .ok { d with engine := { d.engine with shutdown := d.engine.shutdown ||| engineShutdownIdle } }
    else if !d.engine.transferList.isEmpty then engineStart p d
    else .ok d
  else .ok d

def writebackCount (descWriteback : U32) : Nat := (descWriteback &&& wbCountMask).toNat
def writebackError (descWriteback : U32) : Bool := descWriteback.has wbErrMask

/-- An interrupt, or an error or a timeout of a poll, makes the handler read the
status register; a polled completion skips the read. -/
def readsStatus (descWriteback : U32) : Bool :=
  writebackCount descWriteback == 0 || writebackError descWriteback

/-- `engine->status` as the rest of the handler sees it. -/
def serviceStatus (e : Engine) (descWriteback : U32) (reads : RegisterReads) : U32 :=
  if readsStatus descWriteback then reads.status else e.status

def serviceCount (descWriteback : U32) (reads : RegisterReads) : Nat :=
  if writebackCount descWriteback == 0 then reads.completedDescCount.toNat
  else writebackCount descWriteback

/-- The engine was running but is no longer busy, or writeback occurred. -/
def servicesShutdown (status descWriteback : U32) : Bool :=
  !status.has xdmaStatBusy || writebackCount descWriteback != 0

/-- The count that is left for the transfers on the list: a 32-bit subtraction. -/
def pendingCount (e : Engine) (descCount : Nat) : Nat :=
  (((descCount : Int) - e.descDequeued) % 2^32).toNat

def servicePrepare (p : Params) (e : Engine) (descWriteback : U32) (reads : RegisterReads) : Engine :=
  let e := e.statusRead (serviceStatus e descWriteback reads)
  let e := if servicesShutdown e.status descWriteback then engineServiceShutdown p e else e
  if e.transferList.isEmpty then e else engineServicePerf e (serviceCount descWriteback reads)

def clearWriteback (p : Params) (e : Engine) : Engine :=
  if p.pollMode then { e with pollModeWriteback := 0 } else e

def engineService (p : Params) (d : Driver) (descWriteback : U32) (reads : RegisterReads) :
    Except Fault (Driver × Int) :=
  let rc : Int := if writebackError descWriteback then -1 else 0
  if !d.engine.running then
    if descWriteback == 0 then .ok ({ d with engine := d.engine.statusRead reads.status },0)
    else .ok (d,0)
  else
    let d := { d with engine := servicePrepare p d.engine descWriteback reads }
    let descCount := pendingCount d.engine (serviceCount descWriteback reads)
    match engineServiceTransferList d d.engine.transferList.head? descCount with
    | .error f => .error f
    | .ok (d,transfer,descCount) =>
      match engineServiceFinalTransfer p d transfer descCount with
      | .error f => .error f
      | .ok d =>
        match engineServiceResume p { d with engine := clearWriteback p d.engine } with
        | .error f => .error f
        | .ok d => .ok (d,rc)

def Driver.enlist (d : Driver) (t : TransferId) : Driver :=
  { d with
    transfers := Function.update d.transfers t { d.transfers t with state := .submitted }
    engine := { d.engine with transferList := d.engine.transferList ++ [t] }
    queued := d.queued ++ [t] }

/-- `chain_transfers` is empty: CHAIN_MULTIPLE_TRANSFERS is 0. -/
def transferQueue (p : Params) (d : Driver) (t : TransferId) : Except Fault (Driver × Int) :=
  if (d.transfers t).descNum = 0 then .error (.bug .transferQueue)
  else if d.engine.shutdown.has engineShutdownRequest then .ok (d,-1)
  else
    let d := d.enlist t
    if !d.engine.running then
      match engineStart p d with
      | .error f => .error f
      | .ok d => .ok (d,0)
    else .ok (d,0)

def configuredMask (p : Params) (streaming dirToDev : Bool) : U32 :=
  let w := xdmaCtrlIeDescAlignMismatch ||| xdmaCtrlIeMagicStopped ||| xdmaCtrlIeReadError |||
    xdmaCtrlIeDescError
  if p.pollMode then w else
    let w := w ||| xdmaCtrlIeDescStopped ||| xdmaCtrlIeDescCompleted
    if streaming && !dirToDev then w ||| xdmaCtrlIeIdleStopped else w

/-- `control` is what the control register holds before the engine is created. -/
def engineCreate (p : Params) (control : U32) (streaming dirToDev : Bool) : Engine where
  regs := ⟨control &&& ~~~xdmaCtrlNonIncrAddr,configuredMask p streaming dirToDev⟩
  sgdmaRegs := ⟨0,0,0⟩
  shutdown := engineShutdownNone
  running := false
  streaming := streaming
  nonIncrAddr := false
  dirToDev := dirToDev
  descDequeued := 0
  status := 0
  interruptEnableMaskValue := 0
  transferList := []
  rxTail := 0
  rxHead := 0
  rxOverrun := false
  rxTransferCyclic := none
  rxResultBufferVirt := none
  pollModeWriteback := 0
  xdmaPerf := none
  eopFound := false

def Driver.withEngine (e : Engine) (transfers : TransferId → XdmaTransfer) : Driver where
  engine := e
  transfers := transfers
  queued := []
  started := []
  removed := []
  notices := []
  destroyed := []

end DmaCamera
