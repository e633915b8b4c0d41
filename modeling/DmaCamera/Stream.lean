import DmaCamera.AsyncRequest
import DmaCamera.CyclicSetup
import DmaCamera.Threads
set_option autoImplicit false

namespace DmaCamera
open Loops Runs

/-! A streaming receive device between its opens and closes. -/

def stopLast (x : XdmaTransfer) : XdmaTransfer :=
  { x with
    cyclic := true
    descVirt := Function.update x.descVirt (x.descNum-1)
      (xdmaDescControl (x.descVirt (x.descNum-1)) (xdmaDescCompleted ||| xdmaDescStopped)) }

/-- The first transfer of the list is left on it. -/
def engineCyclicStop (p : Params) (d : Driver) : Driver :=
  match d.engine.transferList with
  | [] => d
  | t :: _ =>
    let d := { d with engine := xdmaEngineStop p d.engine }
    if (d.transfers t).cyclic then
      { d with transfers := Function.update d.transfers t (stopLast (d.transfers t)) }
    else d

/-- The end of `cyclic_transfer_teardown`: what is set is freed. -/
def teardownFree (s : StreamEngine) : StreamEngine :=
  let d := { s.driver with destroyed := s.driver.destroyed ++ s.engine.rxTransferCyclic.toList }
  { s with
    rxBuffer := none
    driver := { d with
      engine := { s.engine with rxTransferCyclic := none, rxResultBufferVirt := none } } }

def buildU64 (hi lo : U32) : U64 :=
  ((hi.setWidth 64 &&& 0xFFFFFFF) <<< 32) ||| lo.setWidth 64

structure PerfRegs where
  completedDescCount : U32
  perfCycHi : U32
  perfCycLo : U32
  perfDatHi : U32
  perfDatLo : U32
  perfPndHi : U32
  perfPndLo : U32
  deriving DecidableEq, Repr

def getPerfStats (regs : PerfRegs) (perf : XdmaPerformanceIoctl) : XdmaPerformanceIoctl :=
  { perf with
    -- 32 bits of what `build_u64` makes of this count
    iterations := regs.completedDescCount
    clockCycleCount := buildU64 regs.perfCycHi regs.perfCycLo
    dataCycleCount := buildU64 regs.perfDatHi regs.perfDatLo
    pendingCount := buildU64 regs.perfPndHi regs.perfPndLo }

/-- The kernel's answers to PERF_START; the address of a buffer that was not
allocated is whatever it is. -/
structure PerfEnv where
  kzallocPerf : Bool
  bufferBus : U64
  kzallocTransfer : Bool
  pciAllocConsistent : Option (U64 × (Nat → XdmaDesc))

def PerfEnv.ample : PerfEnv where
  kzallocPerf := true
  bufferBus := 0x200000
  kzallocTransfer := true
  pciAllocConsistent := some (0x20000,default)

def perfMaxSize : Nat := 128*32*1024

def perfDescNum (sizeInDesc : Nat) : Nat :=
  if sizeInDesc*128 > perfMaxSize then perfMaxSize/sizeInDesc else 128

def performanceTransfer (dirToDev : Bool) (sizeInDesc : Nat) (env : PerfEnv) :
    Except Fault XdmaTransfer :=
  if sizeInDesc > perfMaxSize || !env.kzallocTransfer then .error (.bug .xdmaPerformanceSubmit) else
    let num := perfDescNum sizeInDesc
    match xdmaDescAlloc num env.pciAllocConsistent with
    | .error f => .error f
    | .ok none => .error (.bug .xdmaPerformanceSubmit)
    | .ok (some (bus,d)) =>
      let d := forLoop num (fun i d => Function.update d i (xdmaDescSet (d i)
        (env.bufferBus+BitVec.ofNat 64 (sizeInDesc*i)) 0 sizeInDesc dirToDev)) d
      let d := Function.update d 0 (xdmaDescControl (d 0) 0)
      let d := Function.update d (num-1) (xdmaDescLink (d (num-1)) (some bus))
      .ok { XdmaTransfer.zero with
        dirToDev := dirToDev, descNum := num, descVirt := d, descBus := bus, cyclic := true }

/-- A transfer that was created is queued; what `transfer_queue` returns is ignored. -/
def StreamEngine.submit (p : Params) (s : StreamEngine) (x : XdmaTransfer) :
    Except Fault StreamEngine :=
  (transferQueue p (s.adopt x).driver s.created).map fun r => { s.adopt x with driver := r.1 }

def perfVersion : U32 := 1

/-- `request` is what `copy_from_user` leaves in the block; a copy that fails is
taken for a success. -/
def ioctlDoPerfStart (p : Params) (s : StreamEngine) (request : XdmaPerformanceIoctl)
    (env : PerfEnv) : Except Fault (StreamEngine × Int) :=
  if s.engine.xdmaPerf.isSome then .ok (s,-eBusy)
  else if !env.kzallocPerf then .ok (s,-eNoMem)
  else
    let s := s.withEngine { s.engine with xdmaPerf := some request }
    if request.version ≠ perfVersion then .ok (s,-eInval) else
      match performanceTransfer s.engine.dirToDev request.transferSize.toNat env with
      | .error f => .error f
      | .ok x => (s.submit p x).map fun s => (s,0)

def ioctlDoPerfStop (p : Params) (s : StreamEngine) (regs : PerfRegs) (copied : Bool) :
    StreamEngine × Int :=
  if s.engine.xdmaPerf.isNone then (s,-eInval) else
    let s := { s with driver := engineCyclicStop p s.driver }
    if copied then (s.withEngine { s.engine with xdmaPerf := none },0)
    else (s.withEngine { s.engine with
      xdmaPerf := s.engine.xdmaPerf.map (getPerfStats regs) },-eInval)

def asyncChunk (p : Params) (s : StreamEngine) (kernel : Platform) (r : AsyncRequest)
    (seg : SegState) : Except Fault StreamEngine :=
  match (r.call seg).run kernel with
  | .error f => .error f
  | .ok none => .error (.bug .sgAioReadWrite)
  | .ok (some x) => s.submit p (r.mark seg x)

inductive StreamStage where
  | closed
  /-- The ring is built, and not queued yet. -/
  | created
  | opened
  /-- A close has told the engine to stop. -/
  | stopped
  /-- The close has waited, to the end or until a signal came. -/
  | waited (signal : Bool)
  deriving DecidableEq, Repr

structure Freed where
  running : Bool
  listed : Bool
  deriving DecidableEq, Repr

structure StreamSystem where
  device : StreamEngine
  stage : StreamStage
  frees : List Freed

def StreamSystem.engine (s : StreamSystem) : Engine := s.device.driver.engine

def StreamSystem.setDriver (s : StreamSystem) (d : Driver) : StreamSystem :=
  { s with device := { s.device with driver := d } }

/-- What a call of `read` may leave behind: it moves the head, clears results,
sets and clears the flags, and returns credits. -/
structure ReadWrites where
  rxHead : Nat
  head_lt : rxHead < rxBufPages
  rxOverrun : Bool
  eopFound : Bool
  result : Nat → XdmaResult
  userBufferIndex : Nat
  credits : U32

def StreamEngine.reads (s : StreamEngine) (w : ReadWrites) : StreamEngine :=
  { s.withEngine { s.engine with
      rxHead := w.rxHead
      rxOverrun := w.rxOverrun
      eopFound := w.eopFound
      rxResultBufferVirt := s.engine.rxResultBufferVirt.map fun _ => w.result } with
    userBufferIndex := w.userBufferIndex
    credits := w.credits }

/-- A device is opened in two steps and closed in three. The steps in between are
a wait that ends, by a signal or not, polls that last see `status`, the service
handler, and calls on the open device. -/
inductive StreamOp where
  | setup (env : SetupEnv)
  | start
  | read (w : ReadWrites)
  | stop
  | wait (signal : Bool)
  | poll (status : U32)
  | free
  | service (descWriteback : U32) (o : Observed)
  | perfStart (request : XdmaPerformanceIoctl) (env : PerfEnv)
  | perfStop (regs : PerfRegs) (copied : Bool)
  | asyncRead (kernel : Platform) (r : AsyncRequest) (seg : SegState)

def StreamEngine.holds (s : StreamEngine) : Bool :=
  s.engine.rxTransferCyclic.isSome || s.rxBuffer.isSome || s.engine.rxResultBufferVirt.isSome

def StreamSystem.freed (s : StreamSystem) : List Freed :=
  if s.device.holds then
    [⟨s.engine.running,s.engine.rxTransferCyclic.any s.engine.transferList.contains⟩]
  else []

/-- A call that faults does not come back; a lock that was kept is never taken
again; and what follows a freed entry of the list is not modelled. -/
def streamNext (p : Params) (s : StreamSystem) : StreamOp → Option StreamSystem
  | .setup env => if s.device.locked then none else
    match setupLocked s.device env with
    | .error _ => none
    | .ok (device,rc) =>
      some { s with device := device, stage := if rc = 0 then .created else s.stage }
  | .start => if s.device.locked || !s.device.driver.intact || s.stage != .created then none else
    match setupStart p s.device with
    | .error _ => none
    | .ok device => some { s with device := device, stage := .opened }
  | .read w => if s.device.locked || s.stage != .opened then none else
    some { s with device := s.device.reads w }
  | .stop => if !s.device.driver.intact || s.stage != .opened then none else
    some { s.setDriver (engineCyclicStop p s.device.driver) with stage := .stopped }
  -- the condition is tested before the signal
  | .wait signal =>
    if s.device.locked || p.pollMode || s.stage != .stopped || signal != s.engine.running then none
    else some { s with stage := .waited signal }
  | .poll status =>
    if s.device.locked || !p.pollMode || !s.device.driver.intact || s.stage != .stopped ||
      status.has xdmaStatBusy then none else
    match cyclicShutdown p { s.device.driver with engine := s.engine.statusRead status } with
    | .error _ => none
    | .ok d => some { s.setDriver d with stage := .waited false }
  | .free => match s.stage with
    | .waited _ => if s.device.locked then none else
      some ⟨teardownFree s.device,.closed,s.frees ++ s.freed⟩
    | _ => none
  | .service descWriteback o => if s.device.locked || !s.device.driver.intact then none else
    match engineServiceLocked p s.device.driver descWriteback o with
    | .ok (some (d,_)) => some (s.setDriver d)
    | _ => none
  | .perfStart request env =>
    if s.device.locked || !s.device.driver.intact || s.stage != .opened then none else
    match ioctlDoPerfStart p s.device request env with
    | .error _ => none
    | .ok (device,_) => some { s with device := device }
  | .perfStop regs copied => if !s.device.driver.intact || s.stage != .opened then none else
    some { s with device := (ioctlDoPerfStop p s.device regs copied).1 }
  | .asyncRead kernel r seg =>
    if s.device.locked || !s.device.driver.intact || s.stage != .opened then none else
    match asyncChunk p s.device kernel r seg with
    | .error _ => none
    | .ok device => some { s with device := device }

structure Unopened (s : StreamSystem) : Prop where
  stage : s.stage = .closed
  rxTransferCyclic : s.engine.rxTransferCyclic = none
  running : s.engine.running = false
  transferList : s.engine.transferList = []
  shutdown : s.engine.shutdown.has engineShutdownRequest = false
  frees : s.frees = []

def StreamSystem.unopened (p : Params) : StreamSystem := ⟨.fresh p,.closed,[]⟩

theorem unopened_unopened (p : Params) : Unopened (.unopened p) := ⟨rfl,rfl,rfl,rfl,(by decide : engineShutdownNone.has engineShutdownRequest = false),rfl⟩

structure SameLine (e e' : Engine) : Prop where
  transferList : e'.transferList = e.transferList
  running : e'.running = e.running
  shutdown : e'.shutdown = e.shutdown

theorem SameLine.refl (e : Engine) : SameLine e e := ⟨rfl,rfl,rfl⟩

theorem SameLine.noRequest {e e' : Engine} (h : SameLine e e')
    (he : e.shutdown.has engineShutdownRequest = false) :
    e'.shutdown.has engineShutdownRequest = false := by
  rw [h.shutdown]
  exact he

structure SetupDone (s s' : StreamEngine) : Prop where
  line : SameLine s.engine s'.engine
  notOpen : s.rxBuffer = none
  rxBuffer : s'.rxBuffer.isSome = true
  cyclic : s'.engine.rxTransferCyclic = some s.created
  created : s'.created = s.created+1
  need : 1 ≤ s'.driver.need s.created
  destroyed : s'.driver.destroyed = s.driver.destroyed
  unlocked : s'.locked = false

structure SetupFailed (s s' : StreamEngine) : Prop where
  line : SameLine s.engine s'.engine
  rxBuffer : s'.rxBuffer = s.rxBuffer
  cyclic : s'.engine.rxTransferCyclic = s.engine.rxTransferCyclic ∨
    (s.rxBuffer = none ∧ s'.engine.rxTransferCyclic = none)
  created : s.created ≤ s'.created
  destroyed : s'.driver.destroyed = s.driver.destroyed ∨
    (s.created < s'.created ∧ s'.driver.destroyed = s.driver.destroyed ++ [s.created])

theorem lockRing_failed (s : StreamEngine) : SetupFailed s s.lockRing :=
  ⟨⟨rfl,rfl,rfl⟩,rfl,Or.inl rfl,Nat.le_refl _,Or.inl rfl⟩

theorem setupLocked_spec {s s' : StreamEngine} {env : SetupEnv} {rc : Int}
    (h : setupLocked s env = .ok (s',rc)) :
    (rc = 0 ∧ SetupDone s s') ∨ (rc ≠ 0 ∧ SetupFailed s s') := by
  unfold setupLocked at h
  split at h
  · cases h
    exact Or.inr ⟨by decide,lockRing_failed s⟩
  · rename_i hbuf
    have hnone : s.rxBuffer = none := by simpa using hbuf
    split at h
    · cases h
      exact Or.inr ⟨by decide,lockRing_failed s⟩
    · rename_i start _
      split at h
      · cases h
      · rename_i created hcreate
        cases created with
        | none =>
          -- a null pointer either way
          cases hres : env.resultBuffer <;> rw [hres] at h <;> cases h
        | some x =>
          obtain ⟨u,hu,hline,hbuffer,hcyclic,hnew,hdestroyed,hx⟩ : ∃ u : StreamEngine,
              u = { s.lockRing with rxBuffer := some start }.setCyclic (some x) ∧
              SameLine s.engine u.engine ∧ u.rxBuffer = some start ∧
              u.engine.rxTransferCyclic = some s.created ∧ u.created = s.created+1 ∧
              u.driver.destroyed = s.driver.destroyed ∧ u.driver.transfers s.created = x :=
            ⟨({ s.lockRing with rxBuffer := some start } : StreamEngine).setCyclic (some x),rfl,
              ⟨rfl,rfl,rfl⟩,rfl,rfl,rfl,rfl,by simp [StreamEngine.setCyclic,
              StreamEngine.withEngine, StreamEngine.adopt, StreamEngine.lockRing]⟩
          rw [← hu] at h
          have hgrow : s.created < u.created := by omega
          cases hres : env.resultBuffer with
          | none =>
            have hback : setupResults u none = .ok ({ u with
                rxBuffer := none
                locked := false
                driver := { u.driver with
                  destroyed := u.driver.destroyed ++ [s.created]
                  engine := { u.engine with
                    rxResultBufferVirt := none, rxTransferCyclic := none } } },-eNoMem) := by
              simp only [setupResults, StreamEngine.withEngine, StreamEngine.engine] at hcyclic ⊢
              rw [hcyclic]
              rfl
            rw [hres, hback] at h
            cases h
            refine Or.inr ⟨by decide,⟨hline.1,hline.2,hline.3⟩,hnone.symm,Or.inr ⟨hnone,rfl⟩,Nat.le_of_lt hgrow,
              Or.inr ⟨hgrow,?_⟩⟩
            rw [hdestroyed]
          | some r =>
            have hring : setupResults u (some r) = .ok ({ u with
                rxResultBufferBus := r.1
                locked := false
                driver := { u.driver with
                  transfers := Function.update u.driver.transfers s.created (ringTransfer x r.1)
                  engine := { u.engine with rxResultBufferVirt := some r.2 } } },0) := by
              simp only [setupResults, StreamEngine.withEngine, hcyclic, hx]
            rw [hres, hring] at h
            cases h
            have hpos := (transferCreate_unmarked hcreate).2.2.1
            exact Or.inl ⟨rfl,⟨hline.1,hline.2,hline.3⟩,hnone,by rw [hbuffer]; rfl,hcyclic,hnew,
              by simpa [Driver.need] using hpos,hdestroyed,rfl⟩

theorem setupLocked_busy {s s' : StreamEngine} {env : SetupEnv} {rc : Int}
    (hbuf : s.rxBuffer.isSome = true) (h : setupLocked s env = .ok (s',rc)) :
    s' = s.lockRing ∧ rc = -eBusy := by
  rw [setupLocked, if_pos hbuf] at h
  cases h
  exact ⟨rfl,rfl⟩

structure SameCyclic (e e' : Engine) : Prop where
  line : SameLine e e'
  cyclic : e'.rxTransferCyclic = e.rxTransferCyclic

theorem SameCyclic.refl (e : Engine) : SameCyclic e e := ⟨.refl e,rfl⟩

theorem SameCyclic.trans {e₁ e₂ e₃ : Engine} (h : SameCyclic e₁ e₂) (h' : SameCyclic e₂ e₃) :
    SameCyclic e₁ e₃ :=
  ⟨⟨h'.line.1.trans h.line.1,h'.line.2.trans h.line.2,h'.line.3.trans h.line.3⟩,
    h'.cyclic.trans h.cyclic⟩

theorem ringProcessLoop_same {result : Nat → XdmaResult} {fuel c c' : Nat} {e e' : Engine}
    (h : ringProcessLoop result fuel e c = some (e',c')) : SameCyclic e e' := by
  induction fuel generalizing e c with
  | zero =>
    unfold ringProcessLoop at h
    split at h <;> cases h
    exact .refl _
  | succ fuel ih =>
    unfold ringProcessLoop at h
    split at h
    · have hr := ih h
      exact ⟨⟨hr.line.1,hr.line.2,hr.line.3⟩,hr.cyclic⟩
    · cases h
      exact .refl _

theorem engineRingProcess_same {e e' : Engine} {c : Nat} (h : engineRingProcess e = .ok (e',c)) :
    SameCyclic e e' := by
  unfold engineRingProcess at h
  split at h
  · cases h
  · split at h
    · cases h
    · rename_i hr
      cases h
      exact ringProcessLoop_same hr

/-- Either nothing moves, or the engine stops, the transfer at the head being taken
off the list if there is one. -/
inductive CyclicService (d d' : Driver) : Prop where
  | same : SameLine d.engine d'.engine → CyclicService d d'
  | stopped : d.engine.running = true → d'.engine.running = false →
      d'.engine.shutdown = d.engine.shutdown →
      d'.engine.transferList = d.engine.transferList.tail →
      (d.engine.transferList = [] ∨
        d.engine.transferList.head? = d.engine.rxTransferCyclic) → CyclicService d d'

structure CyclicFrame (d d' : Driver) : Prop where
  cyclic : d'.engine.rxTransferCyclic = d.engine.rxTransferCyclic
  transfers : d'.transfers = d.transfers
  destroyed : d'.destroyed = d.destroyed

theorem CyclicService.idle {d d' : Driver} (h : CyclicService d d')
    (hrun : d.engine.running = false) : d'.engine.running = false := by
  cases h with
  | same hline => exact hline.running.trans hrun
  | stopped hr => cases hrun.symm.trans hr

theorem CyclicFrame.need {d d' : Driver} (h : CyclicFrame d d') : d'.need = d.need := by
  unfold Driver.need
  rw [h.transfers]

theorem engineTransferDequeue_ok {d d' : Driver} (h : engineTransferDequeue d = .ok d') :
    ∃ t rest, d.engine.transferList = t :: rest ∧ d.engine.rxTransferCyclic = some t ∧
      d' = { d with
        engine := { d.engine with transferList := rest }, removed := d.removed ++ [t] } := by
  unfold engineTransferDequeue at h
  split at h
  · cases h
  · rename_i t rest hlist
    split at h
    · rename_i hrx
      cases h
      exact ⟨t,rest,hlist,hrx,rfl⟩
    · cases h

theorem cyclicShutdown_spec {p : Params} {d d' : Driver} (h : cyclicShutdown p d = .ok d') :
    CyclicService d d' ∧ CyclicFrame d d' := by
  unfold cyclicShutdown at h
  split at h
  · rename_i hstop
    simp only [Bool.and_eq_true] at hstop
    split at h
    · cases h
    · rename_i d₁ hd₁
      cases h
      split at hd₁
      · rename_i hnil
        cases hd₁
        have hlist : d.engine.transferList = [] := by simpa using hnil
        exact ⟨.stopped hstop.1 rfl rfl (by simp [engineServiceShutdown, xdmaEngineStop, hlist])
          (Or.inl hlist),rfl,rfl,rfl⟩
      · obtain ⟨t,rest,hlist,hrx,rfl⟩ := engineTransferDequeue_ok hd₁
        refine ⟨.stopped hstop.1 rfl rfl ?_ (Or.inr ?_),rfl,rfl,rfl⟩
        · simp [engineServiceShutdown, xdmaEngineStop, hlist]
        · rw [hlist, hrx]
          rfl
  · cases h
    exact ⟨.same (.refl _),rfl,rfl,rfl⟩

theorem CyclicService.noRequest {d d' : Driver} (h : CyclicService d d')
    (hd : d.engine.shutdown.has engineShutdownRequest = false) :
    d'.engine.shutdown.has engineShutdownRequest = false := by
  cases h with
  | same hline => exact hline.noRequest hd
  | stopped _ _ hshut =>
    rw [hshut]
    exact hd

theorem CyclicService.from {d d₀ d' : Driver} (h : CyclicService d d') (hs : SameCyclic d₀.engine d.engine) :
    CyclicService d₀ d' := by
  cases h with
  | same hl =>
    exact .same ⟨hl.1.trans hs.line.1,hl.2.trans hs.line.2,hl.3.trans hs.line.3⟩
  | stopped hrun hidle hshut hlist hhead =>
    rw [hs.line.transferList, hs.cyclic] at hhead
    rw [hs.line.transferList] at hlist
    exact .stopped (hs.line.running.symm.trans hrun) hidle (hshut.trans hs.line.shutdown) hlist hhead

theorem CyclicFrame.from {d d₀ d' : Driver} (h : CyclicFrame d d') (hs : SameCyclic d₀.engine d.engine)
    (ht : d.transfers = d₀.transfers) (hd : d.destroyed = d₀.destroyed) : CyclicFrame d₀ d' :=
  ⟨h.cyclic.trans hs.cyclic,h.transfers.trans ht,h.destroyed.trans hd⟩

theorem engineServiceCyclicInterrupt_spec {p : Params} {d d' : Driver} {status : U32} {rc : Int}
    {c : TransferId} (hrx : d.engine.rxTransferCyclic = some c)
    (h : engineServiceCyclicInterrupt p d status = .ok (d',rc)) :
    CyclicService d d' ∧ CyclicFrame d d' := by
  unfold engineServiceCyclicInterrupt at h
  split at h
  · cases h
  · rename_i e eopCount hring
    have hsame : SameCyclic d.engine e := by
      have hr := engineRingProcess_same hring
      exact ⟨⟨hr.line.1,hr.line.2,hr.line.3⟩,hr.cyclic⟩
    have hcyclic : e.rxTransferCyclic = some c := hsame.cyclic.trans hrx
    split at h
    · rename_i hnone
      cases hcyclic.symm.trans hnone
    · obtain ⟨d₁,hd₁,heq⟩ := Except.map_ok h
      cases heq
      obtain ⟨hs,hf⟩ := cyclicShutdown_spec hd₁
      have hwritten : ∀ b : Bool,
          SameCyclic d.engine (if b then { e with eopFound := true } else e) := by
        intro b
        cases b <;> exact ⟨⟨hsame.line.1,hsame.line.2,hsame.line.3⟩,hsame.cyclic⟩
      exact ⟨hs.from (hwritten _),hf.from (hwritten _) rfl rfl⟩

theorem cyclicPolledLoop_same {rounds : List PollRound} {e e' : Engine} {c : Nat} {rc : Int}
    (h : cyclicPolledLoop rounds e = .ok (some (e',c,rc))) : SameCyclic e e' := by
  induction rounds generalizing e with
  | nil => cases h
  | cons round rounds ih =>
    unfold cyclicPolledLoop at h
    simp only at h
    split at h
    · cases h
      exact ⟨⟨rfl,rfl,rfl⟩,rfl⟩
    · split at h
      · cases h
      · rename_i e₁ eopCount hring
        have hr := engineRingProcess_same hring
        have he : SameCyclic e e₁ := ⟨⟨hr.line.1,hr.line.2,hr.line.3⟩,hr.cyclic⟩
        split at h
        · exact he.trans (ih h)
        · cases h
          exact he

theorem engineServiceCyclicPolled_spec {p : Params} {d d' : Driver} {rounds : List PollRound}
    {status : U32} {rc : Int} (h : engineServiceCyclicPolled p d rounds status = .ok (some (d',rc))) :
    CyclicService d d' ∧ CyclicFrame d d' := by
  unfold engineServiceCyclicPolled at h
  split at h
  · cases h
  · cases h
  · rename_i e eopCount rc' hloop
    have hsame := cyclicPolledLoop_same hloop
    split at h
    · obtain ⟨d₁,hd₁,heq⟩ := Except.map_ok h
      cases heq
      obtain ⟨hs,hf⟩ := cyclicShutdown_spec hd₁
      have he : SameCyclic d.engine (e.statusRead status) :=
        ⟨⟨hsame.line.1,hsame.line.2,hsame.line.3⟩,hsame.cyclic⟩
      exact ⟨hs.from he,hf.from he rfl rfl⟩
    · cases h
      exact ⟨.same hsame.line,hsame.cyclic,rfl,rfl⟩

theorem engineServiceLocked_cyclic {p : Params} {d d' : Driver} {wb : U32} {o : Observed} {rc : Int}
    {c : TransferId} (hrx : d.engine.rxTransferCyclic = some c)
    (h : engineServiceLocked p d wb o = .ok (some (d',rc))) :
    CyclicService d d' ∧ CyclicFrame d d' := by
  have hsome : d.engine.rxTransferCyclic.isSome = true := by rw [hrx]; rfl
  rw [engineServiceLocked, if_pos hsome, engineServiceCyclic] at h
  split at h
  · exact engineServiceCyclicPolled_spec h
  · obtain ⟨r,hr,heq⟩ := Except.map_ok h
    cases heq
    exact engineServiceCyclicInterrupt_spec hrx hr

theorem engineServiceLocked_idle {p : Params} {d d' : Driver} {wb : U32} {o : Observed} {rc : Int}
    (hrx : d.engine.rxTransferCyclic = none) (hrun : d.engine.running = false)
    (h : engineServiceLocked p d wb o = .ok (some (d',rc))) :
    SameCyclic d.engine d'.engine ∧ CyclicFrame d d' := by
  rw [engineServiceLocked_plain hrx, engineService_idle hrun] at h
  cases h
  exact ⟨⟨⟨rfl,rfl,rfl⟩,rfl⟩,rfl,rfl,rfl⟩

theorem engineCyclicStop_spec (p : Params) (d : Driver) :
    SameCyclic d.engine (engineCyclicStop p d).engine ∧
      (engineCyclicStop p d).destroyed = d.destroyed ∧ (engineCyclicStop p d).need = d.need := by
  unfold engineCyclicStop
  split
  · exact ⟨.refl _,rfl,rfl⟩
  · rename_i t rest hlist
    simp only
    split
    · refine ⟨⟨⟨rfl,rfl,rfl⟩,rfl⟩,rfl,?_⟩
      funext v
      by_cases hv : v = t
      · subst hv
        simp [Driver.need, stopLast]
      · simp [Driver.need, hv]
    · exact ⟨⟨⟨rfl,rfl,rfl⟩,rfl⟩,rfl,rfl⟩

theorem transferQueue_queued {p : Params} {d d' : Driver} {t : TransferId} {rc : Int}
    (hshut : d.engine.shutdown.has engineShutdownRequest = false)
    (h : transferQueue p d t = .ok (d',rc)) : Queued d t d' := by
  have hnum : (d.transfers t).descNum ≠ 0 := by
    intro hz
    rw [transferQueue, if_pos hz] at h
    cases h
  obtain ⟨d₁,hok,hd⟩ := transferQueue_spec (p := p) hnum hshut
  cases hok.symm.trans h
  exact hd

structure SameDevice (s s' : StreamSystem) : Prop where
  stage : s'.stage = s.stage
  engine : SameCyclic s.engine s'.engine
  rxBuffer : s'.device.rxBuffer = s.device.rxBuffer
  created : s'.device.created = s.device.created
  need : s'.device.driver.need = s.device.driver.need
  frees : s'.frees = s.frees

theorem streamNext_setup {p : Params} {s s' : StreamSystem} {env : SetupEnv}
    (h : streamNext p s (.setup env) = some s') :
    (SetupDone s.device s'.device ∧ s'.stage = .created ∧ s'.frees = s.frees) ∨
      (SetupFailed s.device s'.device ∧ s'.stage = s.stage ∧ s'.frees = s.frees ∧
        (s.device.rxBuffer.isSome = true → SameDevice s s')) := by
  simp only [streamNext] at h
  split at h
  · cases h
  · split at h
    · cases h
    · rename_i device rc hsetup
      cases h
      rcases setupLocked_spec hsetup with ⟨rfl,hd⟩ | ⟨hrc,hf⟩
      · exact Or.inl ⟨hd,rfl,rfl⟩
      · refine Or.inr ⟨hf,if_neg hrc,rfl,fun hbuf => ?_⟩
        obtain ⟨rfl,rfl⟩ := setupLocked_busy hbuf hsetup
        exact ⟨rfl,⟨⟨rfl,rfl,rfl⟩,rfl⟩,rfl,rfl,rfl,rfl⟩

structure Started (s s' : StreamSystem) (c : TransferId) : Prop where
  before : s.stage = .created
  stage : s'.stage = .opened
  queued : Queued s.device.driver c s'.device.driver
  rxBuffer : s'.device.rxBuffer = s.device.rxBuffer
  created : s'.device.created = s.device.created
  frees : s'.frees = s.frees

theorem streamNext_start {p : Params} {s s' : StreamSystem} {c : TransferId}
    (hrx : s.engine.rxTransferCyclic = some c)
    (hshut : s.engine.shutdown.has engineShutdownRequest = false)
    (h : streamNext p s .start = some s') : Started s s' c := by
  simp only [streamNext] at h
  split at h
  · cases h
  · rename_i hguard
    simp only [Bool.or_eq_true, not_or, bne_iff_ne, ne_eq, not_not] at hguard
    split at h
    · cases h
    · rename_i device hstart
      cases h
      obtain ⟨u,hu,hdriver,hbuffer,hcreated⟩ : ∃ u : StreamEngine, u =
          (if p.enableCreditMp then { s.device with credits := 128 } else s.device) ∧
          u.driver = s.device.driver ∧ u.rxBuffer = s.device.rxBuffer ∧
          u.created = s.device.created :=
        ⟨_,rfl,by split <;> rfl,by split <;> rfl,by split <;> rfl⟩
      have hcyc : u.engine.rxTransferCyclic = some c := by
        rw [StreamEngine.engine, hdriver]
        exact hrx
      simp only [setupStart, ← hu, hcyc] at hstart
      obtain ⟨⟨d,rc⟩,hq,heq⟩ := Except.map_ok hstart
      cases heq
      rw [hdriver] at hq
      exact ⟨hguard.2,rfl,transferQueue_queued hshut hq,hbuffer,hcreated,rfl⟩

theorem streamNext_service {p : Params} {s s' : StreamSystem} {wb : U32} {o : Observed}
    (h : streamNext p s (.service wb o) = some s') :
    ∃ d rc, engineServiceLocked p s.device.driver wb o = .ok (some (d,rc)) ∧ s' = s.setDriver d := by
  simp only [streamNext] at h
  split at h
  · cases h
  · split at h
    · rename_i d rc hservice
      cases h
      exact ⟨d,rc,hservice,rfl⟩
    · cases h

theorem streamNext_stop {p : Params} {s s' : StreamSystem} (h : streamNext p s .stop = some s') :
    s.stage = .opened ∧ s' = { s.setDriver (engineCyclicStop p s.device.driver) with stage := .stopped } := by
  simp only [streamNext] at h
  split at h
  · cases h
  · rename_i hguard
    simp only [Bool.or_eq_true, not_or, bne_iff_ne, ne_eq, not_not] at hguard
    cases h
    exact ⟨hguard.2,rfl⟩

theorem streamNext_wait {p : Params} {s s' : StreamSystem} {signal : Bool}
    (h : streamNext p s (.wait signal) = some s') :
    s.stage = .stopped ∧ signal = s.engine.running ∧ s' = { s with stage := .waited signal } := by
  simp only [streamNext] at h
  split at h
  · cases h
  · rename_i hguard
    simp only [Bool.or_eq_true, not_or, bne_iff_ne, ne_eq, not_not] at hguard
    cases h
    exact ⟨hguard.1.2,hguard.2,rfl⟩

theorem streamNext_free {p : Params} {s s' : StreamSystem} (h : streamNext p s .free = some s') :
    (∃ signal, s.stage = .waited signal) ∧
      s' = ⟨teardownFree s.device,.closed,s.frees ++ s.freed⟩ := by
  simp only [streamNext] at h
  split at h
  · rename_i signal hstage
    split at h
    · cases h
    · cases h
      exact ⟨⟨signal,hstage⟩,rfl⟩
  · cases h

theorem streamNext_read {p : Params} {s s' : StreamSystem} {w : ReadWrites}
    (h : streamNext p s (.read w) = some s') : SameDevice s s' := by
  simp only [streamNext] at h
  split at h
  · cases h
  · cases h
    exact ⟨rfl,⟨⟨rfl,rfl,rfl⟩,rfl⟩,rfl,rfl,rfl,rfl⟩

theorem streamNext_poll {p : Params} {s s' : StreamSystem} {status : U32}
    (h : streamNext p s (.poll status) = some s') :
    s.stage = .stopped ∧ ∃ d, s' = { s.setDriver d with stage := .waited false } ∧
      cyclicShutdown p { s.device.driver with engine := s.engine.statusRead status } = .ok d := by
  simp only [streamNext] at h
  split at h
  · cases h
  · rename_i hguard
    simp only [Bool.or_eq_true, not_or, bne_iff_ne, ne_eq, not_not] at hguard
    split at h
    · cases h
    · rename_i d hd
      cases h
      exact ⟨hguard.1.2,d,rfl,hd⟩

structure Submitted (s s' : StreamEngine) : Prop where
  transferList : s'.engine.transferList = s.engine.transferList ++ [s.created]
  running : s'.engine.running = true
  shutdown : s'.engine.shutdown.has engineShutdownRequest = false
  cyclic : s'.engine.rxTransferCyclic = s.engine.rxTransferCyclic
  rxBuffer : s'.rxBuffer = s.rxBuffer
  created : s'.created = s.created+1

theorem submit_submitted {p : Params} {s s' : StreamEngine} {x : XdmaTransfer}
    (hshut : s.engine.shutdown.has engineShutdownRequest = false)
    (h : s.submit p x = .ok s') : Submitted s s' := by
  obtain ⟨⟨d,rc⟩,hq,rfl⟩ := Except.map_ok h
  have hd := transferQueue_queued (d := (s.adopt x).driver) hshut hq
  exact ⟨hd.same.transferList,hd.running,hd.same.shutdown hshut,hd.same.rxTransferCyclic,rfl,rfl⟩

def perfSubmits (s : StreamEngine) (request : XdmaPerformanceIoctl) (env : PerfEnv) : Bool :=
  s.engine.xdmaPerf.isNone && env.kzallocPerf && request.version == perfVersion

theorem ioctlDoPerfStart_cases {p : Params} {s s' : StreamEngine} {request : XdmaPerformanceIoctl}
    {env : PerfEnv} {rc : Int} (hshut : s.engine.shutdown.has engineShutdownRequest = false)
    (h : ioctlDoPerfStart p s request env = .ok (s',rc)) :
    (SameCyclic s.engine s'.engine ∧ s'.rxBuffer = s.rxBuffer ∧ s'.created = s.created) ∨
      (perfSubmits s request env = true ∧ Submitted s s') := by
  unfold ioctlDoPerfStart at h
  split at h
  · cases h
    exact Or.inl ⟨.refl _,rfl,rfl⟩
  · rename_i hperf
    split at h
    · cases h
      exact Or.inl ⟨.refl _,rfl,rfl⟩
    · rename_i halloc
      simp only at h
      split at h
      · cases h
        exact Or.inl ⟨⟨⟨rfl,rfl,rfl⟩,rfl⟩,rfl,rfl⟩
      · rename_i hversion
        split at h
        · cases h
        · obtain ⟨u,hu,heq⟩ := Except.map_ok h
          cases heq
          refine Or.inr ⟨?_,?_⟩
          · have hnone : s.engine.xdmaPerf.isNone = true := by simpa using hperf
            simp only [not_not] at hversion
            simp only [Bool.not_eq_true', Bool.not_eq_false] at halloc
            simp [perfSubmits, hnone, halloc, hversion]
          · have hs := submit_submitted (by exact hshut) hu
            exact ⟨hs.1,hs.2,hs.3,hs.4,hs.5,hs.6⟩

theorem asyncChunk_submitted {p : Params} {s s' : StreamEngine} {kernel : Platform}
    {r : AsyncRequest} {seg : SegState}
    (hshut : s.engine.shutdown.has engineShutdownRequest = false)
    (h : asyncChunk p s kernel r seg = .ok s') : Submitted s s' := by
  unfold asyncChunk at h
  split at h
  · cases h
  · cases h
  · exact submit_submitted hshut h

theorem streamNext_perfStart {p : Params} {s s' : StreamSystem} {request : XdmaPerformanceIoctl} {env : PerfEnv}
    (h : streamNext p s (.perfStart request env) = some s') :
    s.stage = .opened ∧ ∃ device rc, ioctlDoPerfStart p s.device request env = .ok (device,rc) ∧
      s' = { s with device := device } := by
  simp only [streamNext] at h
  split at h
  · cases h
  · rename_i hguard
    simp only [Bool.or_eq_true, not_or, bne_iff_ne, ne_eq, not_not] at hguard
    split at h
    · cases h
    · rename_i device rc hd
      cases h
      exact ⟨hguard.2,device,rc,hd,rfl⟩

theorem streamNext_asyncRead {p : Params} {s s' : StreamSystem} {kernel : Platform}
    {r : AsyncRequest} {seg : SegState} (h : streamNext p s (.asyncRead kernel r seg) = some s') :
    s.stage = .opened ∧ ∃ device, asyncChunk p s.device kernel r seg = .ok device ∧
      s' = { s with device := device } := by
  simp only [streamNext] at h
  split at h
  · cases h
  · rename_i hguard
    simp only [Bool.or_eq_true, not_or, bne_iff_ne, ne_eq, not_not] at hguard
    split at h
    · cases h
    · rename_i device hd
      cases h
      exact ⟨hguard.2,device,hd,rfl⟩

theorem streamNext_perfStop {p : Params} {s s' : StreamSystem} {regs : PerfRegs} {copied : Bool}
    (h : streamNext p s (.perfStop regs copied) = some s') : SameDevice s s' := by
  simp only [streamNext] at h
  split at h
  · cases h
  · cases h
    unfold ioctlDoPerfStop
    split
    · exact ⟨rfl,.refl _,rfl,rfl,rfl,rfl⟩
    · obtain ⟨⟨hline,hcyclic⟩,_,hneed⟩ := engineCyclicStop_spec p s.device.driver
      split
      · exact ⟨rfl,⟨⟨hline.1,hline.2,hline.3⟩,hcyclic⟩,rfl,rfl,hneed,rfl⟩
      · exact ⟨rfl,⟨⟨hline.1,hline.2,hline.3⟩,hcyclic⟩,rfl,rfl,hneed,rfl⟩

theorem streamNext_frees {p : Params} {s s' : StreamSystem} {op : StreamOp}
    (h : streamNext p s op = some s') : s.frees <+: s'.frees := by
  cases op <;> simp only [streamNext] at h <;> repeat' split at h
  all_goals first
    | cases h; exact List.prefix_refl _
    | cases h; exact List.prefix_append _ _
    | cases h

end DmaCamera
