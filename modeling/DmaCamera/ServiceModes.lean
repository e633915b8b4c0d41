import DmaCamera.ServiceOutcome
set_option autoImplicit false

namespace DmaCamera

/-! One queue, served from interrupts or by polling. -/

/-- What callers and the device's fetcher see of a driver: all but the control
registers, the status read last, the write-back word and the performance counters. -/
def Driver.seen (d : Driver) : Driver :=
  { d with engine := { d.engine with
      regs := ⟨0,0⟩
      status := 0
      pollModeWriteback := 0
      xdmaPerf := none } }

theorem seen_engineTransferCompletion (d : Driver) (t : TransferId) :
    (engineTransferCompletion d t).seen = engineTransferCompletion d.seen t := by
  have htransfers : d.seen.transfers = d.transfers := rfl
  simp only [engineTransferCompletion, htransfers]
  cases (d.transfers t).asyncLast <;> rfl

theorem seen_retire (d : Driver) (t : TransferId) (s : TransferState) :
    (retire d t s).seen = retire d.seen t s := seen_engineTransferCompletion _ t

theorem seen_serviceListLoop (ts : List TransferId) (d : Driver) (c : Nat) :
    serviceListLoop ts d.seen c =
      ((serviceListLoop ts d c).1.seen,(serviceListLoop ts d c).2) := by
  induction ts generalizing d c with
  | nil => rfl
  | cons t ts ih =>
    have htransfers : d.seen.transfers = d.transfers := rfl
    rw [serviceListLoop, serviceListLoop, htransfers]
    split
    · rw [← seen_retire]
      exact ih (retire d t .completed) _
    · rfl

theorem seen_engineServiceTransferList (d : Driver) (transfer : Option TransferId) (c : Nat) :
    engineServiceTransferList d.seen transfer c =
      (engineServiceTransferList d transfer c).map fun r => (r.1.seen,r.2) := by
  cases transfer with
  | none => rfl
  | some t =>
    have hlist : d.seen.engine.transferList = d.engine.transferList := rfl
    simp only [engineServiceTransferList, hlist, seen_serviceListLoop]
    rfl

theorem seen_engineServiceFinalTransfer (p p' : Params) {d : Driver}
    (h : d.engine.status.has errFlags = false) (transfer : Option TransferId) (c : Nat) :
    engineServiceFinalTransfer p d.seen transfer c =
      (engineServiceFinalTransfer p' d transfer c).map Driver.seen := by
  cases transfer with
  | none => rfl
  | some t =>
    have hseen : d.seen.engine.status.has errFlags = false := (by decide : U32.has 0 errFlags = false)
    simp only [engineServiceFinalTransfer, h, hseen, Bool.false_eq_true, if_false]
    rw [Except.map, seen_retire]
    rfl

theorem seen_engineStart (p p' : Params) (d : Driver) :
    (engineStart p d.seen).map Driver.seen = (engineStart p' d).map Driver.seen := by
  have hrun : d.seen.engine.running = d.engine.running := rfl
  have hlist : d.seen.engine.transferList = d.engine.transferList := rfl
  simp only [engineStart, hrun, hlist]
  cases d.engine.running with
  | true => rfl
  | false =>
    cases d.engine.transferList with
    | nil => rfl
    | cons t ts => rfl

theorem seen_engineServiceResume (p p' : Params) (d : Driver) :
    (engineServiceResume p d.seen).map Driver.seen =
      (engineServiceResume p' d).map Driver.seen := by
  have hrun : d.seen.engine.running = d.engine.running := rfl
  have hlist : d.seen.engine.transferList = d.engine.transferList := rfl
  have hshut : d.seen.engine.shutdown = d.engine.shutdown := rfl
  simp only [engineServiceResume, hrun, hlist, hshut]
  cases d.engine.running with
  | true => rfl
  | false =>
    cases d.engine.shutdown.has engineShutdownRequest with
    | true => rfl
    | false =>
      cases d.engine.transferList.isEmpty with
      | true => rfl
      | false => exact seen_engineStart p p' d

theorem serviceListLoop_status (ts : List TransferId) (d : Driver) (c : Nat) :
    (serviceListLoop ts d c).1.engine.status = d.engine.status := by
  induction ts generalizing d c with
  | nil => rfl
  | cons t ts ih =>
    rw [serviceListLoop]
    split
    · rw [ih, retire, (engineTransferCompletion_spec _ t).1]
    · rfl

theorem seen_serviceQueue (p p' : Params) {d : Driver} (h : d.engine.status.has errFlags = false)
    (c : Nat) : serviceQueue p d.seen c = (serviceQueue p' d c).map Driver.seen := by
  have hlist : d.seen.engine.transferList = d.engine.transferList := rfl
  have hloop := serviceListLoop_status d.engine.transferList d c
  unfold serviceQueue
  rw [hlist, seen_engineServiceTransferList]
  cases htransfer : d.engine.transferList.head? with
  | none => rfl
  | some t =>
    simp only [engineServiceTransferList, Except.map]
    exact seen_engineServiceFinalTransfer p p' (hloop ▸ h) _ _

/-- A service call as callers see it: the engine has stopped after `count`
descriptors and without an error. -/
def Driver.serve (d : Driver) (count : Nat) : Except Fault Driver :=
  if !d.engine.running then .ok d
  else (serviceQueue ⟨false,false⟩ { d with engine := { d.engine with running := false } }
      (pendingCount d.engine count)).bind fun d₂ =>
    (engineServiceResume ⟨false,false⟩ d₂).map Driver.seen

theorem seen_prepared (p : Params) {d : Driver} {wb : U32} {reads : RegisterReads}
    (hstops : d.stops wb reads = true) : (d.prepared p wb reads).seen =
      { d.seen with engine := { d.seen.engine with running := false } } := by
  have hshutdown : servicesShutdown (d.engine.statusRead (serviceStatus d.engine wb reads)).status wb =
    true := hstops
  simp only [Driver.prepared, servicePrepare, hshutdown, if_true]
  split <;> rfl

theorem seen_clearWriteback (p : Params) (d : Driver) :
    ({ d with engine := clearWriteback p d.engine } : Driver).seen = d.seen := by
  unfold clearWriteback
  split <;> rfl

/-- The mode and what was read on the way do not show in a clean call. -/
theorem engineService_seen (p : Params) {d : Driver} {wb : U32} {reads : RegisterReads}
    (hstops : d.stops wb reads = true) (hclean : d.faulty wb reads = false)
    (hwb : writebackError wb = false) :
    (engineService p d wb reads).map (fun r => (r.1.seen,r.2)) =
      (d.seen.serve (serviceCount wb reads)).map fun d => (d,0) := by
  have hrunning : d.seen.engine.running = d.engine.running := rfl
  cases hrun : d.engine.running with
  | false =>
    rw [engineService_idle hrun, Driver.serve, hrunning, hrun]
    rfl
  | true =>
    have hstatus : (d.prepared p wb reads).engine.status.has errFlags = false := by
      rw [show (d.prepared p wb reads).engine.status = serviceStatus d.engine wb reads from
        (servicePrepare_spec p d.engine wb reads).2.1]
      exact hclean
    have hqueue := seen_serviceQueue ⟨false,false⟩ p hstatus
      (pendingCount d.engine (serviceCount wb reads))
    rw [seen_prepared p hstops] at hqueue
    rw [engineService_running hrun, Driver.serve, hrunning, hrun, hwb]
    have hpending : pendingCount d.seen.engine (serviceCount wb reads) =
      pendingCount d.engine (serviceCount wb reads) := rfl
    simp only [Bool.not_true, Bool.false_eq_true, if_false, hpending, hqueue]
    cases serviceQueue p (d.prepared p wb reads)
      (pendingCount d.engine (serviceCount wb reads)) with
    | error f => rfl
    | ok d₂ =>
      have hresume := seen_engineServiceResume ⟨false,false⟩ p
        { d₂ with engine := clearWriteback p d₂.engine }
      rw [seen_clearWriteback] at hresume
      simp only [Except.map, Except.bind] at hresume ⊢
      rw [hresume]
      cases engineServiceResume p { d₂ with engine := clearWriteback p d₂.engine } <;> rfl

theorem seen_transferQueue (p p' : Params) (d : Driver) (t : TransferId) :
    (transferQueue p d.seen t).map (fun r => (r.1.seen,r.2)) =
      (transferQueue p' d t).map fun r => (r.1.seen,r.2) := by
  have htransfers : d.seen.transfers = d.transfers := rfl
  have hshut : d.seen.engine.shutdown = d.engine.shutdown := rfl
  have hrun : (d.seen.enlist t).engine.running = (d.enlist t).engine.running := rfl
  have hstart := seen_engineStart p p' (d.enlist t)
  simp only [transferQueue, htransfers, hshut, hrun]
  split
  · rfl
  · split
    · rfl
    · split
      · change (engineStart p (d.seen.enlist t)).map Driver.seen = _ at hstart
        generalize engineStart p (d.seen.enlist t) = r at hstart ⊢
        generalize engineStart p' (d.enlist t) = r' at hstart ⊢
        cases r <;> cases r' <;> simp_all [Except.map]
      · rfl

/-- A transfer is queued, or the engine has stopped after `count` descriptors: the
interrupt handler reads that from the registers, a poller finds it written back. -/
inductive ModeOp where
  | queue (x : PlainTransfer)
  | stopped (count : Nat) (status : U32) (unread : RegisterReads)

def ModeOp.interrupt : ModeOp → EngineOp
  | .queue x => .queue x
  | .stopped count status _ => .service 0 ⟨status,BitVec.ofNat 32 count⟩

def ModeOp.polled : ModeOp → EngineOp
  | .queue x => .queue x
  | .stopped count _ unread => .service (BitVec.ofNat 32 count) unread

/-- A count that a write-back can hold, and a status without errors. -/
def ModeOp.Clean : ModeOp → Prop
  | .queue _ => True
  | .stopped count status _ => 1 ≤ count ∧ count < 2^24 ∧ status.has xdmaStatBusy = false ∧
      status.has errFlags = false

def applyOps (p : Params) : Driver → List EngineOp → Except Fault (Driver × List Int)
  | d, [] => .ok (d,[])
  | d, op :: ops => match applyOp p d op with
    | .error f => .error f
    | .ok (d,rc) => (applyOps p d ops).map fun r => (r.1,rc :: r.2)

theorem retire_status (d : Driver) (t : TransferId) (s : TransferState) :
    (retire d t s).engine.status = d.engine.status := by
  rw [retire, (engineTransferCompletion_spec _ t).1]

theorem serviceQueue_status {p : Params} {d d' : Driver} {c : Nat}
    (h : serviceQueue p d c = .ok d') : d'.engine.status = d.engine.status := by
  have hloop := serviceListLoop_status d.engine.transferList d c
  unfold serviceQueue at h
  cases htransfer : d.engine.transferList.head? with
  | none =>
    rw [htransfer] at h
    cases h
  | some t =>
    simp only [htransfer, engineServiceTransferList] at h
    cases hnext : (serviceListLoop d.engine.transferList d c).2.1 with
    | none =>
      rw [hnext] at h
      cases h
    | some u =>
      simp only [hnext, engineServiceFinalTransfer] at h
      split at h
      · cases h
        exact hloop
      · cases h
        rw [retire_status, hloop]

theorem engineStart_status {p : Params} {d d' : Driver} (h : engineStart p d = .ok d') :
    d'.engine.status = d.engine.status := by
  unfold engineStart at h
  split at h
  · cases h
  · split at h
    · cases h
    · cases h
      rfl

theorem engineServiceResume_status {p : Params} {d d' : Driver}
    (h : engineServiceResume p d = .ok d') : d'.engine.status = d.engine.status := by
  unfold engineServiceResume at h
  split at h
  · split at h
    · cases h
      rfl
    · split at h
      · exact engineStart_status h
      · cases h
        rfl
  · cases h
    rfl

theorem engineService_status {p : Params} {d d' : Driver} {wb : U32} {reads : RegisterReads}
    {rc : Int} (hwb : wb ≠ 0) (hreads : readsStatus wb = false)
    (h : engineService p d wb reads = .ok (d',rc)) : d'.engine.status = d.engine.status := by
  cases hrun : d.engine.running with
  | false =>
    rw [engineService_idle hrun, if_neg hwb] at h
    cases h
    rfl
  | true =>
    have hprepared : (d.prepared p wb reads).engine.status = d.engine.status := by
      rw [Driver.prepared, (servicePrepare_spec p d.engine wb reads).2.1, serviceStatus, hreads]
      rfl
    rw [engineService_running hrun] at h
    cases hqueue : serviceQueue p (d.prepared p wb reads)
      (pendingCount d.engine (serviceCount wb reads)) with
    | error f =>
      rw [hqueue] at h
      cases h
    | ok d₂ =>
      simp only [hqueue, Except.bind] at h
      cases hresume : engineServiceResume p { d₂ with engine := clearWriteback p d₂.engine } with
      | error f =>
        rw [hresume] at h
        cases h
      | ok d₃ =>
        rw [hresume] at h
        cases h
        rw [engineServiceResume_status hresume, (clearWriteback_same p d₂.engine).2.2.1,
          serviceQueue_status hqueue, hprepared]

theorem applyOp_seen {p p' : Params} {d e : Driver} {op : ModeOp} (hop : op.Clean)
    (h : d.seen = e.seen) (he : e.engine.status.has errFlags = false) :
    (applyOp p d op.interrupt).map (fun r => (r.1.seen,r.2)) =
      (applyOp p' e op.polled).map fun r => (r.1.seen,r.2) := by
  cases op with
  | queue x =>
    have hqueued : d.queued.length = e.queued.length := congrArg (fun d => d.queued.length) h
    have hsubmit : (d.submit x).seen = (e.submit x).seen := by
      rw [show (d.submit x).seen = (d.seen.submit x) from rfl, h]
      rfl
    have hd := seen_transferQueue p p (d.submit x) d.queued.length
    have he := seen_transferQueue p p' (e.submit x) e.queued.length
    rw [hsubmit] at hd
    rw [← hqueued] at he
    have happly : applyOp p' e (.queue x) = transferQueue p' (e.submit x) d.queued.length := by
      rw [applyOp, hqueued]
    rw [ModeOp.polled, happly]
    exact hd.symm.trans he
  | stopped count status unread =>
    obtain ⟨h1,h24,hbusy,hfaulty⟩ := hop
    obtain ⟨hcount,hreads⟩ := polled_writeback h1 h24
    have hn : (BitVec.ofNat 32 count).toNat = count := by
      rw [BitVec.toNat_ofNat]
      omega
    have hd := @engineService_seen p d 0 ⟨status,BitVec.ofNat 32 count⟩
      (by rw [stops_interrupt]; simp [hbusy]) (by rw [faulty_interrupt]; exact hfaulty) (by decide)
    have hne : (writebackCount (BitVec.ofNat 32 count) == 0) = false := by
      rw [hcount]
      exact beq_eq_false_iff_ne.mpr (by omega)
    have hwb : writebackError (BitVec.ofNat 32 count) = false := by
      rw [readsStatus, hne, Bool.false_or] at hreads
      exact hreads
    have he := @engineService_seen p' e (BitVec.ofNat 32 count) unread
      (by simp [Driver.stops, servicesShutdown, bne, hne])
      (by rw [Driver.faulty, serviceStatus, hreads]; exact he) hwb
    rw [serviceCount_interrupt, h] at hd
    rw [serviceCount, hne, hcount] at he
    simp only [hn] at hd
    exact hd.trans he.symm

theorem applyOp_status {p : Params} {e e' : Driver} {op : ModeOp} {rc : Int} (hop : op.Clean)
    (h : applyOp p e op.polled = .ok (e',rc)) : e'.engine.status = e.engine.status := by
  cases op with
  | queue x =>
    simp only [ModeOp.polled, applyOp, transferQueue] at h
    split at h
    · cases h
    · split at h
      · cases h
        rfl
      · split at h
        · cases hstart : engineStart p ((e.submit x).enlist e.queued.length) with
          | error f =>
            rw [hstart] at h
            cases h
          | ok e₁ =>
            rw [hstart] at h
            cases h
            exact (engineStart_status hstart).trans rfl
        · cases h
          rfl
  | stopped count status unread =>
    obtain ⟨h1,h24,_⟩ := hop
    obtain ⟨hcount,hreads⟩ := polled_writeback h1 h24
    refine engineService_status (fun hwb => ?_) hreads h
    rw [hwb] at hcount
    simp [writebackCount] at hcount
    omega

/-- Whatever is queued and however the engine stops, as long as it stops without an
error: an engine that is polled and one that interrupts are left with the same
list and the same transfers, have started, finished and reported the same, and
end in the same `BUG_ON` if they do. -/
theorem modes_agree {p p' : Params} {d e : Driver} {ops : List ModeOp}
    (hops : ∀ op ∈ ops, op.Clean) (h : d.seen = e.seen)
    (he : e.engine.status.has errFlags = false) :
    (applyOps p d (ops.map ModeOp.interrupt)).map (fun r => (r.1.seen,r.2)) =
      (applyOps p' e (ops.map ModeOp.polled)).map fun r => (r.1.seen,r.2) := by
  induction ops generalizing d e with
  | nil => exact congrArg (fun d => Except.ok (d,[])) h
  | cons op ops ih =>
    have hop := hops op (List.mem_cons_self ..)
    have hstep := @applyOp_seen p p' d e op hop h he
    have hstatus := fun e' rc => @applyOp_status p' e e' op rc hop
    simp only [List.map_cons, applyOps]
    cases hd : applyOp p d op.interrupt with
    | error f =>
      cases hb : applyOp p' e op.polled with
      | error f' =>
        rw [hd, hb] at hstep
        cases hstep
        rfl
      | ok r =>
        rw [hd, hb] at hstep
        cases hstep
    | ok r =>
      cases hb : applyOp p' e op.polled with
      | error f' =>
        rw [hd, hb] at hstep
        cases hstep
      | ok r' =>
        obtain ⟨d₁,rc⟩ := r
        obtain ⟨e₁,rc'⟩ := r'
        rw [hd, hb] at hstep
        simp only [Except.map, Except.ok.injEq, Prod.mk.injEq] at hstep
        obtain ⟨hseen,rfl⟩ := hstep
        have hrest := ih (fun op h => hops op (List.mem_cons_of_mem _ h)) hseen
          (hstatus e₁ rc hb ▸ he)
        have hcons (r : Except Fault (Driver × List Int)) :
            (r.map fun r => (r.1,rc :: r.2)).map (fun r => (r.1.seen,r.2)) =
              (r.map fun r => (r.1.seen,r.2)).map fun r => (r.1,rc :: r.2) := by
          cases r <;> rfl
        exact (hcons _).trans ((congrArg _ hrest).trans (hcons _).symm)

def queuedTwice : List ModeOp :=
  [.queue .two,.queue .one,.stopped 2 xdmaStatDescStopped ⟨0,0⟩,.stopped 1 0 ⟨0,0⟩]

theorem modes_agree_queuedTwice :
    (applyOps ⟨false,false⟩ (.created ⟨false,false⟩) (queuedTwice.map ModeOp.interrupt)).map
        (fun r => (r.1.seen,r.2)) =
      (applyOps ⟨true,false⟩ (.created ⟨true,false⟩) (queuedTwice.map ModeOp.polled)).map
        fun r => (r.1.seen,r.2) := by
  refine modes_agree (fun op hop => ?_) rfl (by decide)
  simp only [queuedTwice, List.mem_cons, List.not_mem_nil, or_false] at hop
  rcases hop with rfl | rfl | rfl | rfl
  · trivial
  · trivial
  · exact ⟨by decide,by decide,by decide,by decide⟩
  · exact ⟨by decide,by decide,by decide,by decide⟩

end DmaCamera
