import DmaCamera.Cyclic
import DmaCamera.Ring
set_option autoImplicit false

namespace DmaCamera

structure StreamEngine where
  driver : Driver
  /-- A call has returned without giving `engine->lock` back. -/
  locked : Bool
  rxBuffer : Option Nat
  rxResultBufferBus : U64
  userBufferIndex : Nat
  /-- The last value written to the credits register. -/
  credits : U32
  created : Nat

def StreamEngine.engine (s : StreamEngine) : Engine := s.driver.engine

def StreamEngine.withEngine (s : StreamEngine) (e : Engine) : StreamEngine :=
  { s with driver := { s.driver with engine := e } }

def StreamEngine.adopt (s : StreamEngine) (x : XdmaTransfer) : StreamEngine :=
  { s with
    driver := { s.driver with transfers := Function.update s.driver.transfers s.created x }
    created := s.created+1 }

/-- What the kernel answers to the requests of one open: the address `rvmalloc`
returns, and bus address and contents of the result buffer. -/
structure SetupEnv where
  rvmalloc : Option Nat
  kernel : Platform
  resultBuffer : Option (U64 × (Nat → XdmaResult))

/-- The ring starts empty, also when the device turns out to be open. -/
def Engine.resetRing (e : Engine) : Engine :=
  { e with rxTail := 0, rxHead := 0, rxOverrun := false, eopFound := false }

/-- `transfer_destroy` follows the pointer it is given. -/
def transferDestroy (d : Driver) (transfer : Option TransferId) : Except Fault Driver :=
  match transfer with
  | none => .error .nullPointer
  | some t => .ok { d with destroyed := d.destroyed ++ [t] }

/-- The end of the setup under the lock: no result buffer, and everything is
given back, or the transfer becomes a ring. -/
def setupResults (s : StreamEngine) (resultBuffer : Option (U64 × (Nat → XdmaResult))) :
    Except Fault (StreamEngine × Int) :=
  match resultBuffer with
  | none =>
    let s := s.withEngine { s.engine with rxResultBufferVirt := none }
    match transferDestroy s.driver s.engine.rxTransferCyclic with
    | .error f => .error f
    | .ok d =>
      let s := { s with driver := d, rxBuffer := none, locked := false }
      .ok (s.withEngine { s.engine with rxTransferCyclic := none },-eNoMem)
  | some (bus,results) =>
    match s.engine.rxTransferCyclic with
    | none => .error .nullPointer
    | some t =>
      let s := s.withEngine { s.engine with rxResultBufferVirt := some results }
      let x := ringTransfer (s.driver.transfers t) bus
      .ok ({ s with
        driver := { s.driver with transfers := Function.update s.driver.transfers t x }
        rxResultBufferBus := bus
        locked := false },0)

def StreamEngine.lockRing (s : StreamEngine) : StreamEngine :=
  { s.withEngine s.engine.resetRing with locked := true, userBufferIndex := 0 }

def StreamEngine.setCyclic (s : StreamEngine) (created : Option XdmaTransfer) : StreamEngine :=
  match created with
  | none => s.withEngine { s.engine with rxTransferCyclic := none }
  | some x => (s.adopt x).withEngine { s.engine with rxTransferCyclic := some s.created }

/-- The part of `cyclic_transfer_setup` that holds the lock. -/
def setupLocked (s : StreamEngine) (env : SetupEnv) : Except Fault (StreamEngine × Int) :=
  -- two errors that return with the lock held
  if s.rxBuffer.isSome then .ok (s.lockRing,-eBusy) else
    match env.rvmalloc with
    | none => .ok (s.lockRing,-eNoMem)
    | some start =>
      match transferCreate env.kernel start rxBufSize 0 ⟨s.engine.dirToDev,false,true,false⟩ with
      | .error f => .error f
      -- the check behind it looks at rx_buffer once more, and never fails
      | .ok created =>
        setupResults ({ s.lockRing with rxBuffer := some start }.setCyclic created) env.resultBuffer

def setupStart (p : Params) (s : StreamEngine) : Except Fault StreamEngine :=
  let s := if p.enableCreditMp then { s with credits := 128 } else s
  match s.engine.rxTransferCyclic with
  | none => .ok s
  | some t => (transferQueue p s.driver t).map fun r => { s with driver := r.1 }

def StreamEngine.cyclicTransferSetup (s : StreamEngine) (p : Params) (env : SetupEnv) :
    Except Fault (StreamEngine × Int) :=
  match setupLocked s env with
  | .error f => .error f
  | .ok (s,rc) => if rc ≠ 0 then .ok (s,rc) else (setupStart p s).map fun s => (s,0)

theorem transferQueue_transfers {p : Params} {d : Driver} {t : TransferId}
    (h : (d.transfers t).descNum ≠ 0) :
    ∃ d' rc, transferQueue p d t = .ok (d',rc) ∧
      d'.engine.rxTransferCyclic = d.engine.rxTransferCyclic ∧
      (d'.transfers = d.transfers ∨ d'.transfers = settle d.transfers [t] .submitted) := by
  cases hs : d.engine.shutdown.has engineShutdownRequest with
  | true => exact ⟨d,-1,by rw [transferQueue, if_neg h, hs, if_pos rfl],rfl,Or.inl rfl⟩
  | false =>
    obtain ⟨d',hok,hq⟩ := transferQueue_spec (p := p) h hs
    exact ⟨d',0,hok,hq.same.rxTransferCyclic,Or.inr hq.transfers⟩

theorem Ring.inState {x : XdmaTransfer} {dest : Nat → U64} {resultBus : U64}
    (h : Ring x dest resultBus) (state : TransferState) : Ring (x.inState state) dest resultBus :=
  ⟨h.cyclic,h.descNum,h.next,h.bytes,h.dst,h.src,h.magic,h.eop,h.completed,h.stopped,h.block⟩

theorem transferQueue_ring {p : Params} {d d' : Driver} {t : TransferId} {rc : Int} {dest : Nat → U64}
    {resultBus : U64} (hr : Ring (d.transfers t) dest resultBus)
    (h : transferQueue p d t = .ok (d',rc)) :
    d'.engine.rxTransferCyclic = d.engine.rxTransferCyclic ∧ Ring (d'.transfers t) dest resultBus ∧
      (d'.transfers t).descBus = (d.transfers t).descBus := by
  have hnum : (d.transfers t).descNum ≠ 0 := by
    rw [hr.descNum]
    decide
  obtain ⟨d₁,rc₁,hok,hcyclic,hsame | hset⟩ := transferQueue_transfers (p := p) hnum
  · rw [h] at hok
    cases hok
    rw [hsame]
    exact ⟨hcyclic,hr,rfl⟩
  · rw [h] at hok
    cases hok
    rw [hset, settle_mem (List.mem_singleton.mpr rfl)]
    exact ⟨hcyclic,hr.inState _,rfl⟩

/-- On a device that is not open, with all requests met, the locked part builds
the transfer of the buffer and makes it a ring. -/
theorem setupLocked_done {s : StreamEngine} {env : SetupEnv} {start : Nat} {x : XdmaTransfer}
    {resultBus : U64} {results : Nat → XdmaResult} (hs : s.rxBuffer = none)
    (hbuf : env.rvmalloc = some start)
    (hx : transferCreate env.kernel start rxBufSize 0 ⟨s.engine.dirToDev,false,true,false⟩ =
      .ok (some x))
    (hres : env.resultBuffer = some (resultBus,results)) :
    ∃ s', setupLocked s env = .ok (s',0) ∧ s'.engine.rxTransferCyclic = some s.created ∧
      s'.driver.transfers s.created = ringTransfer x resultBus := by
  refine ⟨_,by simp only [setupLocked, hs, Option.isSome_none, Bool.false_eq_true, if_false, hbuf,
    hx, hres]; rfl,rfl,?_⟩
  simp [StreamEngine.withEngine, StreamEngine.lockRing, StreamEngine.setCyclic, StreamEngine.adopt]

/-- The list an open builds is a ring: the next pointers lead through the
descriptors in order and back to the first, and slot, page and result agree. -/
theorem cyclicTransferSetup_ring {p : Params} {s : StreamEngine} {env : SetupEnv} {dma : Nat → U64}
    {start : Nat} {bus resultBus : U64} {memory : Nat → XdmaDesc} {results : Nat → XdmaResult}
    (hs : s.rxBuffer = none) (hdir : s.engine.dirToDev = false)
    (hbuf : env.rvmalloc = some start) (hstart : start % pageSize = 0)
    (hw : start+rxBufSize < 2^64) (hk : env.kernel.MapsKernel dma)
    (halloc : env.kernel.pciAllocConsistent rxBufPages = some (bus,memory))
    (hp : bus.toNat % pageSize = 0) (hl : bus.toNat < 2^32)
    (hres : env.resultBuffer = some (resultBus,results)) :
    ∃ s' t, s.cyclicTransferSetup p env = .ok (s',0) ∧ s'.engine.rxTransferCyclic = some t ∧
      (s'.driver.transfers t).descBus = bus ∧
      Ring (s'.driver.transfers t) (fun i => dma (pageFirst start+i)) resultBus ∧
      ∀ memory : U64 → XdmaDesc, (∀ i < rxBufPages, memory ((s'.driver.transfers t).busAt i) =
        (s'.driver.transfers t).descVirt i) → ∀ n,
        (fun addr => (memory addr).next)^[n] bus =
          (s'.driver.transfers t).busAt (n % rxBufPages) := by
  obtain ⟨x,hx,hnum,hbus,hfill⟩ := transferCreate_rxBuf hk hstart hw halloc
  have hx' : transferCreate env.kernel start rxBufSize 0 ⟨s.engine.dirToDev,false,true,false⟩ =
      .ok (some x) := by rw [hdir]; exact hx
  obtain ⟨s₁,hok,hcyclic,hring⟩ := setupLocked_done hs hbuf hx' hres
  have hr : Ring (s₁.driver.transfers s.created) (fun i => dma (pageFirst start+i)) resultBus := by
    rw [hring]
    exact ringTransfer_ring (transferCreate_linked hx) hnum (by rw [hbus]; exact hp)
      (by rw [hbus]; exact hl) hfill resultBus
  obtain ⟨s₂,hs₂,hdriver,hcyclic₂⟩ : ∃ s₂ : StreamEngine, s₂ =
      (if p.enableCreditMp then { s₁ with credits := 128 } else s₁) ∧ s₂.driver = s₁.driver ∧
      s₂.engine.rxTransferCyclic = some s.created :=
    ⟨_,rfl,by split <;> rfl,by split <;> exact hcyclic⟩
  have hnum₂ : (s₂.driver.transfers s.created).descNum ≠ 0 := by
    rw [hdriver, hr.descNum]
    decide
  obtain ⟨d,rc,hq,hq',_⟩ := transferQueue_transfers (p := p) hnum₂
  obtain ⟨hc,hringd,hbusd⟩ := transferQueue_ring (by rw [hdriver]; exact hr) hq
  have hbus' : (d.transfers s.created).descBus = bus := by
    rw [hbusd, hdriver, hring]
    exact hbus
  have hsetup : s.cyclicTransferSetup p env = .ok ({ s₂ with driver := d },0) := by
    simp only [StreamEngine.cyclicTransferSetup, hok, ne_eq, not_true_eq_false, if_false, setupStart,
      ← hs₂, hcyclic₂, hq]
    rfl
  refine ⟨_,s.created,hsetup,hc.trans hcyclic₂,hbus',hringd,fun mem hm n => ?_⟩
  have hfollow := hringd.follow hm n
  rw [hbus'] at hfollow
  exact hfollow

def StreamEngine.fresh (p : Params) : StreamEngine where
  driver := .withEngine (engineCreate p 0 true false) default
  locked := false
  rxBuffer := none
  rxResultBufferBus := 0
  userBufferIndex := 0
  credits := 0
  created := 0

def SetupEnv.ample : SetupEnv where
  rvmalloc := some 0x100000
  kernel := .ample fun page => BitVec.ofNat 64 (page*8192)
  resultBuffer := some (0x8000,fun _ => ⟨0,0⟩)

theorem cyclicTransferSetup_ring_ample : ∃ s' t,
    (StreamEngine.fresh ⟨false,false⟩).cyclicTransferSetup ⟨false,false⟩ .ample = .ok (s',0) ∧
      s'.engine.rxTransferCyclic = some t ∧
      ((s'.driver.transfers t).descVirt 255).next = 0x10000 ∧
      ((s'.driver.transfers t).descVirt 255).dst = 0x3fe000 ∧
      ((s'.driver.transfers t).descVirt 255).src = 0x9fe0 := by
  have hs : (StreamEngine.fresh ⟨false,false⟩).rxBuffer = none := rfl
  have hdir : (StreamEngine.fresh ⟨false,false⟩).engine.dirToDev = false := rfl
  have hbuf : SetupEnv.ample.rvmalloc = some 0x100000 := rfl
  have hk : SetupEnv.ample.kernel.MapsKernel fun page => BitVec.ofNat 64 (page*8192) :=
    Platform.ample_mapsKernel fun page => BitVec.ofNat 64 (page*8192)
  have halloc : SetupEnv.ample.kernel.pciAllocConsistent rxBufPages = some (0x10000,default) := rfl
  have hres : SetupEnv.ample.resultBuffer = some (0x8000,fun _ => ⟨0,0⟩) := rfl
  obtain ⟨s',t,hok,hcyclic,hbus,hr,_⟩ := cyclicTransferSetup_ring (p := ⟨false,false⟩) hs hdir hbuf
    (by decide) (by decide) hk halloc (by decide) (by decide) hres
  refine ⟨s',t,hok,hcyclic,?_,?_,?_⟩
  · rw [hr.next 255 (by decide), XdmaTransfer.busAt, hbus]
    decide
  · rw [hr.dst 255 (by decide)]
    decide
  · rw [hr.src 255 (by decide)]
    decide

end DmaCamera
