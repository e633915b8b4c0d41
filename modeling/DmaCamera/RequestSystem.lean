import DmaCamera.Completion
import DmaCamera.Threads
set_option autoImplicit false

namespace DmaCamera
open Countdown Runs

/-! Any number of synchronous and asynchronous calls on one engine. -/

inductive AsyncPc where
  | segments (iov : List Iovec)
  | chunk (seg : SegState) (iov : List Iovec)
  | created (x : PlainTransfer) (seg : SegState) (iov : List Iovec)
  | returned (rc : Int)

structure AsyncCall where
  request : AsyncRequest
  pc : AsyncPc
  queued : List TransferId

structure IoSystem where
  data : DataSystem
  requests : Nat → AsyncCall

def IoSystem.driver (s : IoSystem) : Driver := s.data.driver

def IoSystem.setRequest (s : IoSystem) (j : Nat) (r : AsyncCall) : IoSystem :=
  { s with requests := Function.update s.requests j r }

def IoSystem.own (s : IoSystem) (i : Nat) : Option TransferId := (s.data.callers i).pc.own

/-- What happens next: something among the synchronous calls and the engine, or an
asynchronous call goes on, with what it meets there. -/
inductive IoOp where
  | call (op : DataOp)
  | segment (j : Nat) (alignment : Alignment)
  | create (j : Nat) (kernel : Platform)
  | queue (j : Nat)

def segmentNext (e : Engine) (alignment : Alignment) (r : AsyncRequest) : List Iovec → AsyncPc
  | [] => .returned (-eIocbQueued)
  | v :: iov =>
    let rc := checkTransferAlign ⟨e.streaming,e.nonIncrAddr,alignment⟩ v.iovBase v.iovLen r.pos false
    if rc ≠ 0 then .returned rc else .chunk ⟨v.iovBase,v.iovLen,0⟩ iov

def chunkNext (kernel : Platform) (r : AsyncRequest) (seg : SegState) (iov : List Iovec) :
    Option AsyncPc :=
  if 0 < seg.remaining then
    match (r.call seg).run kernel with
    | .ok (some x) => (PlainTransfer.of? (r.mark seg x)).map fun x' => .created x' seg iov
    | _ => none
  else some (.segments iov)

def ioNext (p : Params) (s : IoSystem) : IoOp → Option IoSystem
  | .call op => (dataNext p s.data op).map fun data => { s with data := data }
  | .segment j alignment => match s.requests j with
    | ⟨r,.segments iov,queued⟩ =>
      some (s.setRequest j ⟨r,segmentNext s.driver.engine alignment r iov,queued⟩)
    | _ => none
  | .create j kernel => match s.requests j with
    | ⟨r,.chunk seg iov,queued⟩ =>
      (chunkNext kernel r seg iov).map fun pc => s.setRequest j ⟨r,pc,queued⟩
    | _ => none
  | .queue j => match s.requests j with
    | ⟨r,.created x seg iov,queued⟩ =>
      if s.driver.intact then
        match applyOp p s.driver (.queue x) with
        | .ok (d,_) => some
          { data := { s.data with driver := d }
            requests := Function.update s.requests j
              ⟨r,.chunk seg.next iov,queued ++ [s.driver.queued.length]⟩ }
        | .error _ => none
      else none
    | _ => none

def IoSystem.services (s : IoSystem) : IoOp → Option (U32 × RegisterReads)
  | .call (.service i o) => match (s.data.callers i).pc with
    | .polled _ descWb => some (descWb,o.reads)
    | _ => none
  | .call (.interrupt o) => some (0,o.reads)
  | _ => none

structure IoSystem.Starting (s : IoSystem) : Prop where
  data : DmaCamera.Starting s.data
  freed : s.driver.destroyed = []
  requests : ∀ j, ∃ r iov, (∀ v ∈ iov, v.iovLen < 2^63) ∧ s.requests j = ⟨r,.segments iov,[]⟩

def Driver.writtenBack (d : Driver) (value : U32) : Driver :=
  { d with engine := { d.engine with pollModeWriteback := value } }

def SameRequests (s s' : IoSystem) : Prop := ∀ j, (s'.requests j).queued = (s.requests j).queued

def IoOp.passes : IoOp → Bool
  | .call (.queue _) => false
  | .call (.service _ _) => false
  | .call (.account _ _) => false
  | .call (.interrupt _) => false
  | .queue _ => false
  | _ => true

inductive IoStep (p : Params) (s : IoSystem) (op : IoOp) (s' : IoSystem) : Prop where
  | serviced (wb : U32) (reads : RegisterReads) (hop : s.services op = some (wb,reads))
    (hstep : opStep p s.driver (.service wb reads) s'.driver) (hown : s'.own = s.own)
    (hrequests : SameRequests s s')
  | queued (i : Nat) (x : PlainTransfer) (data : DataState) (hop : op = .call (.queue i))
    (hpc : s.data.callers i = ⟨.created x,data⟩)
    (hstep : opStep p s.driver (.queue x) s'.driver)
    (hown : s'.own = Function.update s.own i (some s.driver.queued.length))
    (hrequests : SameRequests s s')
  | submitted (j : Nat) (x : PlainTransfer) (seg : SegState) (iov : List Iovec) (hop : op = .queue j)
    (hpc : (s.requests j).pc = .created x seg iov)
    (hstep : opStep p s.driver (.queue x) s'.driver) (hown : s'.own = s.own)
    (hmine : (s'.requests j).queued = (s.requests j).queued ++ [s.driver.queued.length])
    (hothers : ∀ k, k ≠ j → (s'.requests k).queued = (s.requests k).queued)
  | left (i : Nat) (t : TransferId) (rc : Int) (status : U32) (hop : op = .call (.account i status))
    (hpc : (s.data.callers i).pc = .monitored t rc)
    (hdriver : s'.driver = leaveTransfer s.driver t rc status)
    (hown : s'.own = Function.update s.own i none) (hrequests : SameRequests s s')
  | passed (value : U32) (hop : op.passes = true) (hdriver : s'.driver = s.driver.writtenBack value)
    (hown : s'.own = s.own) (hrequests : SameRequests s s')

theorem passes_services {s : IoSystem} {op : IoOp} (h : op.passes = true) :
    s.services op = none ∧ ∀ j, op ≠ .queue j := by
  cases op with
  | call op => cases op <;> simp [IoOp.passes, IoSystem.services] at h ⊢
  | queue j => cases h
  | _ => exact ⟨rfl,fun _ h => by cases h⟩

theorem setCaller_own (s : DataSystem) (d : Driver) (i : Nat) (c : Caller) :
    (fun k => ((s.setCaller d i c).callers k).pc.own) =
      Function.update (fun k => (s.callers k).pc.own) i c.pc.own := by
  funext k
  by_cases hk : k = i
  · subst k
    simp [DataSystem.setCaller]
  · simp [DataSystem.setCaller, hk]

theorem setCaller_own_same {s : DataSystem} {i : Nat} {c : Caller} (d : Driver)
    (h : c.pc.own = (s.callers i).pc.own) :
    (fun k => ((s.setCaller d i c).callers k).pc.own) = fun k => (s.callers k).pc.own := by
  rw [setCaller_own, h]
  exact Function.update_eq_self i _

theorem createNext_own {s s' : DataSystem} {i : Nat} {data : DataState} {kernel : Platform}
    (hpc : s.callers i = ⟨.loop,data⟩) (h : createNext s i data kernel = some s') :
    s'.driver = s.driver ∧
      (fun k => (s'.callers k).pc.own) = fun k => (s.callers k).pc.own := by
  unfold createNext at h
  split at h
  · split at h
    · cases h
    · cases h
      exact ⟨rfl,setCaller_own_same _ (by rw [hpc])⟩
    · obtain ⟨x',_,rfl⟩ := Option.map_eq_some_iff.mp h
      exact ⟨rfl,setCaller_own_same _ (by rw [hpc]; rfl)⟩
  · cases h
    exact ⟨rfl,setCaller_own_same _ (by rw [hpc]; rfl)⟩

theorem setRequest_queued {s : IoSystem} {j : Nat} {r : AsyncCall}
    (h : r.queued = (s.requests j).queued) : SameRequests s (s.setRequest j r) := by
  intro k
  by_cases hk : k = j
  · subst k
    simpa [IoSystem.setRequest] using h
  · simp [IoSystem.setRequest, hk]

theorem ioNext_call {p : Params} {s s' : IoSystem} {op : DataOp}
    (hc : s.driver.engine.rxTransferCyclic = none) (h : ioNext p s (.call op) = some s') :
    IoStep p s (.call op) s' := by
  replace h := Option.map_eq_some_iff.mp h
  obtain ⟨t,h,rfl⟩ := h
  have hsame : SameRequests s { s with data := t } := fun _ => rfl
  cases op with
  | create i kernel =>
    simp only [dataNext] at h
    split at h
    · rename_i data hpc
      obtain ⟨hd,hown⟩ := createNext_own hpc h
      exact .passed s.driver.engine.pollModeWriteback rfl hd hown hsame
    · cases h
  | queue i =>
    simp only [dataNext] at h
    split at h
    · rename_i x data hpc
      split at h
      · split at h
        · rename_i d rc hcall
          cases h
          exact .queued i x data rfl hpc ⟨rc,hcall⟩ (setCaller_own _ _ _ _) hsame
        · cases h
      · cases h
    · cases h
  | monitor i =>
    simp only [dataNext] at h
    split at h
    · rename_i t data hpc
      split at h
      · cases h
        refine .passed s.driver.engine.pollModeWriteback rfl rfl (setCaller_own_same _ ?_) hsame
        rw [hpc]
        split <;> rfl
      · cases h
    · cases h
  | poll i timeout =>
    simp only [dataNext] at h
    split at h
    · rename_i t expected data hpc
      obtain ⟨descWb,_,rfl⟩ := Option.map_eq_some_iff.mp h
      exact .passed s.driver.engine.pollModeWriteback rfl rfl
        (setCaller_own_same _ (by rw [hpc]; rfl)) hsame
    · cases h
  | service i o =>
    simp only [dataNext] at h
    split at h
    · rename_i t descWb data hpc
      split at h
      · split at h
        · rename_i d rc hcall
          cases h
          refine .serviced descWb o.reads ?_ ⟨rc,engineServiceLocked_ok hc hcall⟩
            (setCaller_own_same _ (by rw [hpc]; rfl)) hsame
          simp [IoSystem.services, hpc]
        · cases h
      · cases h
    · cases h
  | wait i signal =>
    simp only [dataNext] at h
    split at h
    · rename_i t data hpc
      split at h
      · cases h
        exact .passed s.driver.engine.pollModeWriteback rfl rfl
          (setCaller_own_same _ (by rw [hpc]; rfl)) hsame
      · cases h
    · cases h
  | account i status =>
    simp only [dataNext] at h
    split at h
    · rename_i t rc data hpc
      cases h
      exact .left i t rc status rfl (by rw [hpc]) rfl (setCaller_own _ _ _ _) hsame
    · cases h
  | writeBack value =>
    cases h
    exact .passed value rfl rfl rfl hsame
  | interrupt o =>
    simp only [dataNext] at h
    split at h
    · split at h
      · rename_i d rc hcall
        cases h
        exact .serviced 0 o.reads rfl ⟨rc,engineServiceLocked_ok hc hcall⟩ rfl hsame
      · cases h
    · cases h

theorem ioNext_step {p : Params} {s s' : IoSystem} {op : IoOp}
    (hc : s.driver.engine.rxTransferCyclic = none) (h : ioNext p s op = some s') :
    IoStep p s op s' := by
  cases op with
  | call op => exact ioNext_call hc h
  | segment j alignment =>
    simp only [ioNext] at h
    split at h
    · rename_i r iov queued hpc
      cases h
      exact .passed s.driver.engine.pollModeWriteback rfl rfl rfl (setRequest_queued (by rw [hpc]))
    · cases h
  | create j kernel =>
    simp only [ioNext] at h
    split at h
    · rename_i r seg iov queued hpc
      obtain ⟨pc,_,rfl⟩ := Option.map_eq_some_iff.mp h
      exact .passed s.driver.engine.pollModeWriteback rfl rfl rfl (setRequest_queued (by rw [hpc]))
    · cases h
  | queue j =>
    simp only [ioNext] at h
    split at h
    · rename_i r x seg iov queued hpc
      split at h
      · split at h
        · rename_i d rc hcall
          cases h
          refine .submitted j x seg iov rfl (by rw [hpc]) ⟨rc,hcall⟩ rfl ?_ fun k hk => ?_
          · simp [hpc]
          · simp [hk]
        · cases h
      · cases h
    · cases h

inductive AsyncStep (p : Params) (s : IoSystem) (op : IoOp) (s' : IoSystem) (j : Nat) : Prop where
  | same (h : s'.requests j = s.requests j)
  | segment (alignment : Alignment) (r : AsyncRequest) (iov : List Iovec) (queued : List TransferId)
    (hop : op = .segment j alignment) (hpc : s.requests j = ⟨r,.segments iov,queued⟩)
    (hnext : s'.requests j = ⟨r,segmentNext s.driver.engine alignment r iov,queued⟩)
  | create (kernel : Platform) (r : AsyncRequest) (seg : SegState) (iov : List Iovec) (pc : AsyncPc)
    (queued : List TransferId) (hop : op = .create j kernel)
    (hpc : s.requests j = ⟨r,.chunk seg iov,queued⟩) (hchunk : chunkNext kernel r seg iov = some pc)
    (hnext : s'.requests j = ⟨r,pc,queued⟩)
  | queue (r : AsyncRequest) (x : PlainTransfer) (seg : SegState) (iov : List Iovec) (rc : Int)
    (queued : List TransferId) (hop : op = .queue j)
    (hpc : s.requests j = ⟨r,.created x seg iov,queued⟩)
    (hcall : applyOp p s.driver (.queue x) = .ok (s'.driver,rc))
    (hnext : s'.requests j = ⟨r,.chunk seg.next iov,queued ++ [s.driver.queued.length]⟩)

theorem ioNext_request {p : Params} {s s' : IoSystem} {op : IoOp}
    (hstep : ioNext p s op = some s') (j : Nat) : AsyncStep p s op s' j := by
  cases op with
  | call op =>
    obtain ⟨t,_,rfl⟩ := Option.map_eq_some_iff.mp hstep
    exact .same rfl
  | segment k alignment =>
    simp only [ioNext] at hstep
    split at hstep
    · rename_i r iov queued hpc
      cases hstep
      by_cases hk : j = k
      · subst k
        exact .segment alignment r iov queued rfl hpc (Function.update_self _ _ _)
      · exact .same (Function.update_of_ne hk _ _)
    · cases hstep
  | create k kernel =>
    simp only [ioNext] at hstep
    split at hstep
    · rename_i r seg iov queued hpc
      obtain ⟨pc,hchunk,rfl⟩ := Option.map_eq_some_iff.mp hstep
      by_cases hk : j = k
      · subst k
        exact .create kernel r seg iov pc queued rfl hpc hchunk (Function.update_self _ _ _)
      · exact .same (Function.update_of_ne hk _ _)
    · cases hstep
  | queue k =>
    simp only [ioNext] at hstep
    split at hstep
    · rename_i r x seg iov queued hpc
      split at hstep
      · split at hstep
        · rename_i d rc hcall
          cases hstep
          by_cases hk : j = k
          · subst k
            exact .queue r x seg iov rc queued rfl hpc hcall (Function.update_self _ _ _)
          · exact .same (Function.update_of_ne hk _ _)
        · cases hstep
      · cases hstep
    · cases hstep

theorem ioNext_callers {p : Params} {s s' : IoSystem} {op : IoOp}
    (hstep : ioNext p s op = some s') (hop : ∀ o, op ≠ .call o) :
    s'.data.callers = s.data.callers := by
  cases op with
  | call op => exact absurd rfl (hop op)
  | segment k alignment =>
    simp only [ioNext] at hstep
    split at hstep
    · cases hstep
      rfl
    · cases hstep
  | create k kernel =>
    simp only [ioNext] at hstep
    split at hstep
    · obtain ⟨pc,_,rfl⟩ := Option.map_eq_some_iff.mp hstep
      rfl
    · cases hstep
  | queue k =>
    simp only [ioNext] at hstep
    repeat' split at hstep
    all_goals cases hstep
    rfl

end DmaCamera
