import DmaCamera.Engine
set_option autoImplicit false

namespace DmaCamera
open Countdown

/-! What one call on an engine does, said once for all the invariants. -/

def Driver.need (d : Driver) (t : TransferId) : Nat := (d.transfers t).descNum

def Driver.state (d : Driver) (t : TransferId) : TransferState := (d.transfers t).state

def XdmaTransfer.inState (x : XdmaTransfer) (state : TransferState) : XdmaTransfer :=
  { x with state := state }

@[simp] theorem inState_descNum (x : XdmaTransfer) (s : TransferState) :
    (x.inState s).descNum = x.descNum := rfl

@[simp] theorem inState_cyclic (x : XdmaTransfer) (s : TransferState) :
    (x.inState s).cyclic = x.cyclic := rfl

@[simp] theorem inState_state (x : XdmaTransfer) (s : TransferState) : (x.inState s).state = s := rfl

def settle (transfers : TransferId → XdmaTransfer) (gone : List TransferId) (s : TransferState)
    (v : TransferId) : XdmaTransfer :=
  if v ∈ gone then (transfers v).inState s else transfers v

theorem settle_mem {f : TransferId → XdmaTransfer} {gone : List TransferId} {s : TransferState}
    {v : TransferId} (hv : v ∈ gone) : settle f gone s v = (f v).inState s := by
  rw [settle, if_pos hv]

theorem settle_notMem {f : TransferId → XdmaTransfer} {gone : List TransferId} {s : TransferState}
    {v : TransferId} (hv : v ∉ gone) : settle f gone s v = f v := by
  rw [settle, if_neg hv]

@[simp] theorem settle_nil (f : TransferId → XdmaTransfer) (s : TransferState) :
    settle f [] s = f := by
  funext v
  simp [settle]

@[simp] theorem settle_descNum (f : TransferId → XdmaTransfer) (gone : List TransferId)
    (s : TransferState) (v : TransferId) : (settle f gone s v).descNum = (f v).descNum := by
  unfold settle
  split <;> rfl

@[simp] theorem settle_cyclic (f : TransferId → XdmaTransfer) (gone : List TransferId)
    (s : TransferState) (v : TransferId) : (settle f gone s v).cyclic = (f v).cyclic := by
  unfold settle
  split <;> rfl

theorem update_eq_settle (f : TransferId → XdmaTransfer) (t : TransferId) (s : TransferState) :
    Function.update f t ((f t).inState s) = settle f [t] s := by
  funext v
  by_cases h : v = t
  · subst v
    simp [settle]
  · simp [settle, h]

theorem settle_settle (f : TransferId → XdmaTransfer) (g₁ g₂ : List TransferId) (s : TransferState) :
    settle (settle f g₁ s) g₂ s = settle f (g₁ ++ g₂) s := by
  funext v
  simp only [settle, List.mem_append]
  by_cases h₁ : v ∈ g₁ <;> by_cases h₂ : v ∈ g₂ <;> simp [h₁, h₂, XdmaTransfer.inState]

structure SameQueue (e e' : Engine) : Prop where
  transferList : e'.transferList = e.transferList
  shutdown : e.shutdown.has engineShutdownRequest = false →
    e'.shutdown.has engineShutdownRequest = false
  rxTransferCyclic : e'.rxTransferCyclic = e.rxTransferCyclic
  saved : e'.interruptEnableMaskValue = e.interruptEnableMaskValue
  mask : e.xdmaPerf = none → e'.regs.interruptEnableMask = e.regs.interruptEnableMask
  noPerf : e.xdmaPerf = none → e'.xdmaPerf = none
  mode : engineMode e' = engineMode e

theorem SameQueue.refl (e : Engine) : SameQueue e e := ⟨rfl,id,rfl,rfl,fun _ => rfl,id,rfl⟩

theorem SameQueue.withList {e e' : Engine} (h : SameQueue e e') (list : List TransferId) :
    SameQueue { e with transferList := list } { e' with transferList := list } :=
  ⟨rfl,h.shutdown,h.rxTransferCyclic,h.saved,h.mask,h.noPerf,h.mode⟩

theorem SameQueue.trans {e₁ e₂ e₃ : Engine} (h : SameQueue e₁ e₂) (h' : SameQueue e₂ e₃) :
    SameQueue e₁ e₃ where
  transferList := h'.transferList.trans h.transferList
  shutdown hs := h'.shutdown (h.shutdown hs)
  rxTransferCyclic := h'.rxTransferCyclic.trans h.rxTransferCyclic
  saved := h'.saved.trans h.saved
  mask hp := (h'.mask (h.noPerf hp)).trans (h.mask hp)
  noPerf hp := h'.noPerf (h.noPerf hp)
  mode := h'.mode.trans h.mode

theorem xdmaEngineStop_same (p : Params) (e : Engine) : SameQueue e (xdmaEngineStop p e) :=
  ⟨rfl,id,rfl,rfl,fun _ => rfl,id,rfl⟩

theorem engineServiceShutdown_same (p : Params) (e : Engine) :
    SameQueue e (engineServiceShutdown p e) :=
  ⟨rfl,id,rfl,rfl,fun _ => rfl,id,rfl⟩

theorem engineServicePerf_same (e : Engine) (c : Nat) : SameQueue e (engineServicePerf e c) :=
  ⟨rfl,id,rfl,rfl,fun _ => rfl,fun h => by simp [engineServicePerf, h],rfl⟩

theorem clearWriteback_same (p : Params) (e : Engine) : SameQueue e (clearWriteback p e) ∧
    (clearWriteback p e).running = e.running ∧ (clearWriteback p e).status = e.status ∧
    (clearWriteback p e).descDequeued = e.descDequeued := by
  unfold clearWriteback
  split
  · exact ⟨⟨rfl,id,rfl,rfl,fun _ => rfl,id,rfl⟩,rfl,rfl,rfl⟩
  · exact ⟨SameQueue.refl e,rfl,rfl,rfl⟩

/-- The transfers `gone` have left the front of the list `gone ++ rest`, the
descriptors they need are accounted for, and their owners have heard. -/
structure Retired (d : Driver) (gone rest : List TransferId) (d' : Driver) : Prop where
  same : SameQueue { d.engine with transferList := rest } d'.engine
  running : d'.engine.running = d.engine.running
  status : d'.engine.status = d.engine.status
  descDequeued : d'.engine.descDequeued = d.engine.descDequeued+total d.need gone
  removed : d'.removed = d.removed ++ gone
  notices : ∃ new, d'.notices = d.notices ++ new ∧ new.map Notice.transfer = gone
  queued : d'.queued = d.queued
  started : d'.started = d.started

theorem Retired.list {d d' : Driver} {gone rest : List TransferId} (h : Retired d gone rest d') :
    d'.engine.transferList = rest := h.same.transferList

theorem Retired.nothing {d d' : Driver} {rest : List TransferId} (h : d.engine.transferList = rest)
    (hsame : SameQueue d.engine d'.engine) (hrun : d'.engine.running = d.engine.running)
    (hstat : d'.engine.status = d.engine.status)
    (hdeq : d'.engine.descDequeued = d.engine.descDequeued) (hrem : d'.removed = d.removed)
    (hnot : d'.notices = d.notices) (hq : d'.queued = d.queued) (hst : d'.started = d.started) :
    Retired d [] rest d' := by
  subst h
  refine ⟨hsame,hrun,hstat,hdeq,?_,⟨[],?_,rfl⟩,hq,hst⟩
  · rw [hrem, List.append_nil]
  · rw [hnot, List.append_nil]

theorem Retired.refl {d : Driver} {rest : List TransferId} (h : d.engine.transferList = rest) :
    Retired d [] rest d := Retired.nothing h (SameQueue.refl _) rfl rfl rfl rfl rfl rfl rfl

theorem Retired.trans {d d₁ d₂ : Driver} {g₁ g₂ r₁ r₂ : List TransferId} (h₁ : Retired d g₁ r₁ d₁)
    (hneed : d₁.need = d.need) (h₂ : Retired d₁ g₂ r₂ d₂) : Retired d (g₁ ++ g₂) r₂ d₂ := by
  obtain ⟨n₁,hn₁,hm₁⟩ := h₁.notices
  obtain ⟨n₂,hn₂,hm₂⟩ := h₂.notices
  refine ⟨(h₁.same.withList r₂).trans h₂.same,h₂.running.trans h₁.running,
    h₂.status.trans h₁.status,?_,?_,⟨n₁ ++ n₂,?_,?_⟩,h₂.queued.trans h₁.queued,
    h₂.started.trans h₁.started⟩
  · rw [h₂.descDequeued, h₁.descDequeued, hneed]
    rw [total_append, Nat.add_assoc]
  · rw [h₂.removed, h₁.removed, List.append_assoc]
  · rw [hn₂, hn₁, List.append_assoc]
  · rw [List.map_append, hm₁, hm₂]

theorem engineTransferCompletion_spec (d : Driver) (t : TransferId) :
    (engineTransferCompletion d t).engine = d.engine ∧
      (engineTransferCompletion d t).transfers = d.transfers ∧
      (engineTransferCompletion d t).removed = d.removed ∧
      (engineTransferCompletion d t).queued = d.queued ∧
      (engineTransferCompletion d t).started = d.started ∧
      ∃ new, (engineTransferCompletion d t).notices = d.notices ++ new ∧
        new.map Notice.transfer = [t] := by
  unfold engineTransferCompletion
  split
  · exact ⟨rfl,rfl,rfl,rfl,rfl,_,rfl,rfl⟩
  · exact ⟨rfl,rfl,rfl,rfl,rfl,_,rfl,rfl⟩

theorem retire_transfers (d : Driver) (t : TransferId) (s : TransferState) :
    (retire d t s).transfers = Function.update d.transfers t ((d.transfers t).inState s) :=
  (engineTransferCompletion_spec _ t).2.1

theorem retire_retired {d : Driver} {t : TransferId} {rest : List TransferId}
    (h : d.engine.transferList = t :: rest) (s : TransferState) :
    Retired d [t] rest (retire d t s) := by
  obtain ⟨he,_,hr,hq,hst,hn⟩ := engineTransferCompletion_spec { d with
    engine := { d.engine with
      transferList := d.engine.transferList.tail
      descDequeued := d.engine.descDequeued + (d.transfers t).descNum }
    transfers := Function.update d.transfers t { d.transfers t with state := s }
    removed := d.removed ++ d.engine.transferList.head?.toList } t
  refine ⟨?_,?_,?_,?_,?_,hn,hq,hst⟩
  · rw [retire, he, h]
    exact ⟨rfl,id,rfl,rfl,fun _ => rfl,id,rfl⟩
  · rw [retire, he]
  · rw [retire, he]
  · rw [retire, he]
    simp [Driver.need]
  · rw [retire, hr, h]
    rfl

/-- The servicing loop pays for transfers until the count runs out. -/
theorem serviceListLoop_spec (ts : List TransferId) (d : Driver) (c : Nat)
    (hlist : d.engine.transferList = ts) (hplain : ∀ t ∈ ts, (d.transfers t).cyclic = false) :
    ∃ d', serviceListLoop ts d c =
        (d',(split d.need ts c).2.1.head?,(split d.need ts c).2.2) ∧
      Retired d (split d.need ts c).1 (split d.need ts c).2.1 d' ∧
      d'.transfers = settle d.transfers (split d.need ts c).1 .completed := by
  induction ts generalizing d c with
  | nil =>
    exact ⟨d,rfl,Retired.refl hlist,(settle_nil _ _).symm⟩
  | cons t ts ih =>
    have hcyc := hplain t (List.mem_cons_self ..)
    by_cases hlt : d.need t < c
    · have hcond : (!(d.transfers t).cyclic && decide (c > (d.transfers t).descNum)) = true := by
        rw [hcyc]
        exact decide_eq_true hlt
      have hret := retire_retired hlist .completed
      have htr := (retire_transfers d t .completed).trans (update_eq_settle _ _ _)
      have hneed : (retire d t .completed).need = d.need := by
        funext v
        simp [Driver.need, htr]
      obtain ⟨d',hloop,hr,hs⟩ := ih (retire d t .completed) (c-d.need t)
        hret.list (by
          intro v hv
          rw [htr, settle_cyclic]
          exact hplain v (List.mem_cons_of_mem _ hv))
      rw [hneed] at hloop hr hs
      rw [split_of_lt _ hlt]
      refine ⟨d',?_,hret.trans hneed hr,?_⟩
      · rw [serviceListLoop, if_pos hcond]
        exact hloop
      · rw [hs, htr, settle_settle]
        rfl
    · have hcond : (!(d.transfers t).cyclic && decide (c > (d.transfers t).descNum)) = false := by
        rw [hcyc]
        exact decide_eq_false hlt
      rw [split_of_le _ (Nat.le_of_not_lt hlt)]
      refine ⟨d,?_,Retired.refl hlist,(settle_nil _ _).symm⟩
      rw [serviceListLoop, hcond, if_neg Bool.false_ne_true]
      rfl

def finalState (faulty : Bool) (left need : Nat) : TransferState :=
  if faulty then .failed else if left < need then .failed else .completed

theorem engineServiceFinalTransfer_spec (p : Params) {d : Driver} {t : TransferId}
    {rest : List TransferId} (hlist : d.engine.transferList = t :: rest) (left : Nat) :
    ∃ d', engineServiceFinalTransfer p d (some t) left = .ok d' ∧
      Retired d (if d.engine.status.has errFlags then [] else [t])
        (if d.engine.status.has errFlags then t :: rest else rest) d' ∧
      d'.transfers = settle d.transfers [t]
        (finalState (d.engine.status.has errFlags) left (d.need t)) := by
  cases hf : d.engine.status.has errFlags with
  | true =>
    refine ⟨engineErrHandle p d t,by rw [engineServiceFinalTransfer, if_pos hf],?_,?_⟩
    · exact Retired.nothing hlist (xdmaEngineStop_same p d.engine) rfl rfl rfl rfl rfl rfl rfl
    · exact update_eq_settle _ _ _
  | false =>
    refine ⟨retire d t (finalState false left (d.need t)),?_,retire_retired hlist _,?_⟩
    · rw [engineServiceFinalTransfer, hf, if_neg Bool.false_ne_true]
      rfl
    · exact (retire_transfers d t _).trans (update_eq_settle _ _ _)

theorem servicePrepare_spec (p : Params) (e : Engine) (wb : U32) (reads : RegisterReads) :
    SameQueue e (servicePrepare p e wb reads) ∧
      (servicePrepare p e wb reads).status = serviceStatus e wb reads ∧
      (servicePrepare p e wb reads).descDequeued = e.descDequeued ∧
      (servicePrepare p e wb reads).running =
        (e.running && !servicesShutdown (serviceStatus e wb reads) wb) := by
  obtain ⟨e₁,he₁⟩ : ∃ e₁, e₁ =
    if servicesShutdown (serviceStatus e wb reads) wb then
      engineServiceShutdown p (e.statusRead (serviceStatus e wb reads))
    else e.statusRead (serviceStatus e wb reads) := ⟨_,rfl⟩
  have hread : SameQueue e (e.statusRead (serviceStatus e wb reads)) :=
    ⟨rfl,id,rfl,rfl,fun _ => rfl,id,rfl⟩
  have h₁ : SameQueue e e₁ ∧ e₁.status = serviceStatus e wb reads ∧
      e₁.descDequeued = e.descDequeued ∧
      e₁.running = (e.running && !servicesShutdown (serviceStatus e wb reads) wb) := by
    rw [he₁]
    cases servicesShutdown (serviceStatus e wb reads) wb with
    | true => exact ⟨hread.trans (engineServiceShutdown_same p _),rfl,rfl,(Bool.and_false _).symm⟩
    | false => exact ⟨hread,rfl,rfl,(Bool.and_true _).symm⟩
  have hprep : servicePrepare p e wb reads =
      if e₁.transferList.isEmpty then e₁ else engineServicePerf e₁ (serviceCount wb reads) := by
    rw [he₁]
    rfl
  rw [hprep]
  split
  · exact h₁
  · exact ⟨h₁.1.trans (engineServicePerf_same _ _),h₁.2⟩

/-- The engine runs on, stays idle, or starts with the head of its list. -/
structure Resumed (d d' : Driver) : Prop where
  same : SameQueue d.engine d'.engine
  running : d'.engine.running = (d.engine.running || !d.engine.transferList.isEmpty)
  started : d'.started =
    d.started ++ if d.engine.running then [] else d.engine.transferList.head?.toList
  descDequeued : d'.engine.descDequeued =
    if d.engine.running || d.engine.transferList.isEmpty then d.engine.descDequeued else 0
  status : d'.engine.status = d.engine.status
  transfers : d'.transfers = d.transfers
  queued : d'.queued = d.queued
  removed : d'.removed = d.removed
  notices : d'.notices = d.notices

theorem engineStartModeConfig_mask (p : Params) (e : Engine) (h : e.xdmaPerf = none) :
    (engineStartModeConfig p e).regs.interruptEnableMask = e.regs.interruptEnableMask := by
  simp [engineStartModeConfig, h]

theorem engineStart_resumed {p : Params} {d : Driver} (hrun : d.engine.running = false)
    (hlist : d.engine.transferList ≠ []) : ∃ d', engineStart p d = .ok d' ∧ Resumed d d' := by
  obtain ⟨t,rest,hcons⟩ := List.exists_cons_of_ne_nil hlist
  rw [engineStart, hrun, if_neg Bool.false_ne_true, hcons]
  refine ⟨_,rfl,⟨?_,?_,?_,?_,rfl,rfl,rfl,rfl,rfl⟩⟩
  · refine ⟨rfl,fun _ => (by decide : U32.has engineShutdownNone engineShutdownRequest = false),
      rfl,rfl,fun h => ?_,id,rfl⟩
    exact engineStartModeConfig_mask p _ h
  · simp [hcons]
  · simp [hrun, hcons]
  · simp [hrun, hcons, engineStartModeConfig]

theorem engineServiceResume_spec {p : Params} {d : Driver}
    (hshut : d.engine.shutdown.has engineShutdownRequest = false) :
    ∃ d', engineServiceResume p d = .ok d' ∧ Resumed d d' := by
  unfold engineServiceResume
  cases hrun : d.engine.running with
  | true =>
    refine ⟨d,rfl,⟨⟨rfl,id,rfl,rfl,fun _ => rfl,id,rfl⟩,?_,?_,?_,rfl,rfl,rfl,rfl,rfl⟩⟩ <;> simp [hrun]
  | false =>
    simp only [Bool.not_false, if_true, hshut, Bool.false_eq_true, if_false]
    cases hlist : d.engine.transferList with
    | nil =>
      refine ⟨d,rfl,⟨⟨rfl,id,rfl,rfl,fun _ => rfl,id,rfl⟩,?_,?_,?_,rfl,rfl,rfl,rfl,rfl⟩⟩ <;>
        simp [hrun, hlist]
    | cons t rest =>
      exact engineStart_resumed hrun (by rw [hlist]; exact List.cons_ne_nil t rest)

def serviceQueue (p : Params) (d : Driver) (descCompleted : Nat) : Except Fault Driver :=
  match engineServiceTransferList d d.engine.transferList.head? descCompleted with
  | .error f => .error f
  | .ok (d,transfer,left) => engineServiceFinalTransfer p d transfer left

section queue

variable {d : Driver} {c : Nat}
  (hplain : ∀ t ∈ d.engine.transferList, (d.transfers t).cyclic = false)
include hplain

theorem serviceQueue_bug (p : Params) (hsplit : (split d.need d.engine.transferList c).2.1 = []) :
    ∃ site, serviceQueue p d c = .error (.bug site) := by
  obtain ⟨d',hloop,_⟩ := serviceListLoop_spec d.engine.transferList d c rfl hplain
  rw [hsplit] at hloop
  unfold serviceQueue engineServiceTransferList
  cases hlist : d.engine.transferList with
  | nil => exact ⟨_,rfl⟩
  | cons t rest =>
    rw [hlist] at hloop
    simp only [List.head?_cons, hloop, List.head?_nil, engineServiceFinalTransfer]
    exact ⟨_,rfl⟩

theorem serviceQueue_spec (p : Params) {gone rest : List TransferId} {t : TransferId} {left : Nat}
    (hsplit : split d.need d.engine.transferList c = (gone,t :: rest,left)) :
    ∃ d', serviceQueue p d c = .ok d' ∧
      Retired d (gone ++ if d.engine.status.has errFlags then [] else [t])
        (if d.engine.status.has errFlags then t :: rest else rest) d' ∧
      d'.transfers = settle (settle d.transfers gone .completed) [t]
        (finalState (d.engine.status.has errFlags) left (d.need t)) := by
  obtain ⟨d₁,hloop,hret,htr⟩ := serviceListLoop_spec d.engine.transferList d c rfl hplain
  rw [hsplit] at hloop hret htr
  obtain ⟨u,us,hcons⟩ := List.exists_cons_of_ne_nil
    (show d.engine.transferList ≠ [] by simp [split_cut hsplit])
  have hneed₁ : d₁.need = d.need := by
    funext v
    rw [Driver.need, htr, settle_descNum]
    rfl
  obtain ⟨d₂,hfinal,hret₂,htr₂⟩ := engineServiceFinalTransfer_spec p hret.list left
  rw [hret.status, hneed₁] at htr₂
  rw [hret.status] at hret₂
  refine ⟨d₂,?_,hret.trans hneed₁ hret₂,by rw [htr₂, htr]⟩
  unfold serviceQueue engineServiceTransferList
  rw [hcons] at hloop ⊢
  simp only [List.head?_cons, hloop, hfinal]

end queue

def Driver.faulty (d : Driver) (wb : U32) (reads : RegisterReads) : Bool :=
  (serviceStatus d.engine wb reads).has errFlags

def Driver.stops (d : Driver) (wb : U32) (reads : RegisterReads) : Bool :=
  servicesShutdown (serviceStatus d.engine wb reads) wb

/-- A call on a running engine: the transfers `gone` in front of `t` are paid
for, `t` is inspected with `left` descriptors, and taken off unless faulty. -/
structure Serviced (d : Driver) (wb : U32) (reads : RegisterReads) (gone : List TransferId)
    (t : TransferId) (rest : List TransferId) (left : Nat) (d' : Driver) : Prop where
  transfers : d'.transfers = settle (settle d.transfers gone .completed) [t]
    (finalState (d.faulty wb reads) left (d.need t))
  removed : d'.removed = d.removed ++ (gone ++ if d.faulty wb reads then [] else [t])
  notices : ∃ new, d'.notices = d.notices ++ new ∧
    new.map Notice.transfer = gone ++ if d.faulty wb reads then [] else [t]
  same : SameQueue { d.engine with
    transferList := if d.faulty wb reads then t :: rest else rest } d'.engine
  running : d'.engine.running = (!d.stops wb reads || !d'.engine.transferList.isEmpty)
  started : d'.started =
    d.started ++ if d.stops wb reads then d'.engine.transferList.head?.toList else []
  descDequeued : d'.engine.descDequeued =
    if !d.stops wb reads || d'.engine.transferList.isEmpty then
      d.engine.descDequeued+total d.need (gone ++ if d.faulty wb reads then [] else [t])
    else 0
  status : d'.engine.status = serviceStatus d.engine wb reads
  queued : d'.queued = d.queued

theorem Serviced.list {d d' : Driver} {wb : U32} {reads : RegisterReads}
    {gone rest : List TransferId} {t : TransferId} {left : Nat}
    (h : Serviced d wb reads gone t rest left d') :
    d'.engine.transferList = if d.faulty wb reads then t :: rest else rest := h.same.transferList

section service

variable {p : Params} {d : Driver} {wb : U32} {reads : RegisterReads}
  (hrun : d.engine.running = true)

def Driver.prepared (p : Params) (d : Driver) (wb : U32) (reads : RegisterReads) : Driver :=
  { d with engine := servicePrepare p d.engine wb reads }

theorem prepared_count : pendingCount (d.prepared p wb reads).engine (serviceCount wb reads) =
    pendingCount d.engine (serviceCount wb reads) := by
  have hdeq := (servicePrepare_spec p d.engine wb reads).2.2.1
  rw [pendingCount, Driver.prepared, hdeq, pendingCount]

theorem prepared_list : (d.prepared p wb reads).engine.transferList = d.engine.transferList :=
  (servicePrepare_spec p d.engine wb reads).1.transferList

include hrun

/-- A call on a running engine services the list, and then lets the engine go on. -/
theorem engineService_running : engineService p d wb reads =
    (serviceQueue p (d.prepared p wb reads) (pendingCount d.engine (serviceCount wb reads))).bind
      fun d₂ => (engineServiceResume p { d₂ with engine := clearWriteback p d₂.engine }).bind
        fun d' => .ok (d',if writebackError wb then -1 else 0) := by
  rw [← @prepared_count p]
  unfold engineService serviceQueue
  cases hloop : engineServiceTransferList (d.prepared p wb reads)
    (d.prepared p wb reads).engine.transferList.head?
    (pendingCount (d.prepared p wb reads).engine (serviceCount wb reads)) with
  | error f =>
    rw [Driver.prepared] at hloop
    simp only [hrun, Bool.not_true, Bool.false_eq_true, if_false, hloop]
    rfl
  | ok r =>
    obtain ⟨d₁,transfer,left⟩ := r
    rw [Driver.prepared] at hloop
    simp only [hrun, Bool.not_true, Bool.false_eq_true, if_false, hloop]
    cases engineServiceFinalTransfer p d₁ transfer left with
    | error f => rfl
    | ok d₂ =>
      simp only [Except.bind]
      cases engineServiceResume p { d₂ with engine := clearWriteback p d₂.engine } <;> rfl

variable (hplain : ∀ t ∈ d.engine.transferList, (d.transfers t).cyclic = false)
include hplain

theorem engineService_bug
    (hsplit : (split d.need d.engine.transferList
      (pendingCount d.engine (serviceCount wb reads))).2.1 = []) :
    ∃ site, engineService p d wb reads = .error (.bug site) := by
  obtain ⟨site,hbug⟩ := serviceQueue_bug (d := d.prepared p wb reads)
    (by rw [prepared_list]; exact hplain) p (by rw [prepared_list]; exact hsplit)
  refine ⟨site,?_⟩
  rw [engineService_running hrun, hbug]
  rfl

theorem engineService_spec (hshut : d.engine.shutdown.has engineShutdownRequest = false)
    {gone rest : List TransferId} {t : TransferId} {left : Nat}
    (hsplit : split d.need d.engine.transferList
      (pendingCount d.engine (serviceCount wb reads)) = (gone,t :: rest,left)) :
    ∃ d', engineService p d wb reads = .ok (d',if writebackError wb then -1 else 0) ∧
      Serviced d wb reads gone t rest left d' := by
  obtain ⟨hsame,hstat,hdeq,hrun'⟩ := servicePrepare_spec p d.engine wb reads
  obtain ⟨d₂,hqueue,hall,htr⟩ := serviceQueue_spec (d := d.prepared p wb reads)
    (by rw [prepared_list]; exact hplain) p (by rw [prepared_list]; exact hsplit)
  have hfaulty : (d.prepared p wb reads).engine.status.has errFlags = d.faulty wb reads :=
    congrArg (fun s => U32.has s errFlags) hstat
  rw [hfaulty] at hall htr
  obtain ⟨hclear,hcrun,hcstat,hcdeq⟩ := clearWriteback_same p d₂.engine
  have hkeep := ((hsame.withList _).trans hall.same).trans hclear
  obtain ⟨d',hres,hd'⟩ := engineServiceResume_spec (p := p)
    (d := { d₂ with engine := clearWriteback p d₂.engine }) (hkeep.shutdown hshut)
  have hrun₂ : (clearWriteback p d₂.engine).running = !d.stops wb reads := by
    have h : d₂.engine.running = (servicePrepare p d.engine wb reads).running := hall.running
    rw [hcrun, h, hrun', hrun, Bool.true_and]
    rfl
  have hlist₂ : (clearWriteback p d₂.engine).transferList = d'.engine.transferList :=
    hd'.same.transferList.symm
  have hdeq₂ : (clearWriteback p d₂.engine).descDequeued = d.engine.descDequeued+
      total d.need (gone ++ if d.faulty wb reads then [] else [t]) := by
    have h : d₂.engine.descDequeued = (servicePrepare p d.engine wb reads).descDequeued+
      total d.need (gone ++ if d.faulty wb reads then [] else [t]) := hall.descDequeued
    rw [hcdeq, h, hdeq]
  obtain ⟨new,hnew,hmap⟩ := hall.notices
  have hrunning := hd'.running
  have hstarted := hd'.started
  have hdequeued := hd'.descDequeued
  simp only [hrun₂, hlist₂, hdeq₂] at hrunning hstarted hdequeued
  refine ⟨d',?_,?_⟩
  · rw [engineService_running hrun, hqueue, Except.bind, hres]
    rfl
  · refine ⟨?_,hd'.removed.trans hall.removed,⟨new,hd'.notices.trans hnew,hmap⟩,hkeep.trans hd'.same,
      hrunning,?_,hdequeued,?_,hd'.queued.trans hall.queued⟩
    · exact hd'.transfers.trans htr
    · rw [hstarted, hall.started]
      cases d.stops wb reads <;> rfl
    · rw [hd'.status, hcstat, hall.status]
      exact hstat

end service

def Driver.withStatus (d : Driver) (status : U32) : Driver :=
  { d with engine := d.engine.statusRead status }

theorem engineService_idle {p : Params} {d : Driver} (hrun : d.engine.running = false) (wb : U32)
    (reads : RegisterReads) :
    engineService p d wb reads =
      .ok (d.withStatus (if wb = 0 then reads.status else d.engine.status),0) := by
  by_cases hwb : wb = 0
  · simp [engineService, hrun, hwb, Driver.withStatus]
  · have hb : (wb == 0) = false := beq_eq_false_iff_ne.mpr hwb
    simp only [engineService, hrun, Bool.not_false, if_true, hb, Bool.false_eq_true, if_false, hwb]
    rfl

structure Queued (d : Driver) (t : TransferId) (d' : Driver) : Prop where
  same : SameQueue { d.engine with transferList := d.engine.transferList ++ [t] } d'.engine
  transfers : d'.transfers = settle d.transfers [t] .submitted
  queued : d'.queued = d.queued ++ [t]
  removed : d'.removed = d.removed
  notices : d'.notices = d.notices
  running : d'.engine.running = true
  started : d'.started =
    d.started ++ if d.engine.running then [] else (d.engine.transferList ++ [t]).head?.toList
  descDequeued : d'.engine.descDequeued = if d.engine.running then d.engine.descDequeued else 0
  status : d'.engine.status = d.engine.status

theorem transferQueue_spec {p : Params} {d : Driver} {t : TransferId}
    (hnum : (d.transfers t).descNum ≠ 0)
    (hshut : d.engine.shutdown.has engineShutdownRequest = false) :
    ∃ d', transferQueue p d t = .ok (d',0) ∧ Queued d t d' := by
  have htr : (d.enlist t).transfers = settle d.transfers [t] .submitted :=
    update_eq_settle d.transfers t .submitted
  have hsame : SameQueue { d.engine with transferList := d.engine.transferList ++ [t] }
    (d.enlist t).engine := ⟨rfl,id,rfl,rfl,fun _ => rfl,id,rfl⟩
  have hrunning : (d.enlist t).engine.running = d.engine.running := rfl
  rcases Bool.eq_false_or_eq_true d.engine.running with hrun | hrun
  · refine ⟨d.enlist t,?_,hsame,htr,rfl,rfl,rfl,hrun,?_,?_,rfl⟩
    · simp [transferQueue, hnum, hshut, hrunning, hrun]
    · simp [Driver.enlist, hrun]
    · simp [Driver.enlist, hrun]
  · obtain ⟨d',hstart,hd'⟩ := engineStart_resumed (p := p) (d := d.enlist t) hrun
      (by simp [Driver.enlist])
    refine ⟨d',?_,hsame.trans hd'.same,hd'.transfers.trans htr,hd'.queued,hd'.removed,hd'.notices,
      ?_,?_,?_,hd'.status⟩
    · simp [transferQueue, hnum, hshut, hrunning, hrun, hstart]
    · simp [hd'.running, Driver.enlist]
    · rw [hd'.started, hrunning, hrun]
      rfl
    · rw [hd'.descDequeued, hrunning, hrun]
      simp [Driver.enlist]

end DmaCamera
