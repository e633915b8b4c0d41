import DmaCamera.Cyclic
import DmaCamera.TransferData
set_option autoImplicit false

namespace DmaCamera

/-! Asynchronous requests, and how they differ from the synchronous ones. -/

structure Iovec where
  iovBase : Nat
  iovLen : Nat
  len_lt : iovLen < 2^64

structure Alignment where
  addrAlign : U32
  lenGranularity : U32
  deriving DecidableEq, Repr

/-- What the alignments register asks for, or the defaults if it is empty. -/
def engineAlignments (w : U32) : Alignment :=
  if w ≠ 0 then ⟨(w &&& 0x00ff0000) >>> 16,(w &&& 0x0000ff00) >>> 8⟩ else ⟨1,1⟩

structure AlignMode where
  streaming : Bool
  nonIncrAddr : Bool
  alignment : Alignment

def checkTransferAlign (m : AlignMode) (buf count : Nat) (pos : Int) (sync : Bool) : Int :=
  let mask := m.alignment.addrAlign-1
  let bufLsb := BitVec.ofNat 32 buf &&& mask
  let posLsb := BitVec.ofInt 32 pos &&& mask
  if m.streaming || m.nonIncrAddr then
    let lenLsb := BitVec.ofNat 64 count &&& (m.alignment.lenGranularity.setWidth 64-1)
    if bufLsb ≠ 0 then -eInval
    else if !m.streaming && posLsb != 0 && sync then -eInval
    else if lenLsb ≠ 0 then -eInval
    else 0
  else if bufLsb ≠ posLsb then -eInval
  else 0

deriving instance DecidableEq for BuildMode

structure CreateCall where
  start : Nat
  cnt : Nat
  epAddr : U64
  mode : BuildMode
  deriving DecidableEq

def CreateCall.run (c : CreateCall) (k : Platform) : Except Fault (Option XdmaTransfer) :=
  transferCreate k c.start c.cnt c.epAddr c.mode

structure AsyncRequest where
  iocb : Kiocb
  pos : Int
  dirToDev : Bool

structure SegState where
  transferAddr : Nat
  remaining : Nat
  done : Nat

/-- Neither the position nor the addressing mode of the engine gets into it. -/
def AsyncRequest.call (r : AsyncRequest) (s : SegState) : CreateCall :=
  ⟨s.transferAddr,chunkLength s.remaining,BitVec.ofInt 64 r.pos,⟨r.dirToDev,false,false,true⟩⟩

def AsyncRequest.mark (r : AsyncRequest) (s : SegState) (x : XdmaTransfer) : XdmaTransfer :=
  let x := { x with iocb := some r.iocb }
  if chunkLength s.remaining ≥ s.remaining then
    { x with lastInRequest := true, sizeOfRequest := s.done+chunkLength s.remaining }
  else x

def SegState.next (s : SegState) : SegState where
  transferAddr := (s.transferAddr+chunkLength s.remaining) % 2^64
  remaining := s.remaining-chunkLength s.remaining
  done := s.done+chunkLength s.remaining

theorem SegState.next_remaining (s : SegState) (h : 0 < s.remaining) :
    s.next.remaining < s.remaining := by
  have hlen := chunkLength_bounds h
  simp only [next]
  omega

structure Submission where
  call : CreateCall
  transfer : XdmaTransfer

/-- The loop over a segment: what it queues, the `i`-th chunk of the request first. -/
def asyncSegment (env : Nat → Platform) (r : AsyncRequest) (i : Nat) (s : SegState) :
    Except Fault (List Submission) :=
  if _h : 0 < s.remaining then
    match (r.call s).run (env i) with
    | .error f => .error f
    | .ok none => .error (.bug .sgAioReadWrite)
    | .ok (some x) => (asyncSegment env r (i+1) s.next).map (⟨r.call s,r.mark s x⟩ :: ·)
  else .ok []
termination_by s.remaining
decreasing_by exact s.next_remaining _h

def eIocbQueued : Int := 529

/-- The loop over the segments. A segment that fails its check ends the call,
with those in front of it queued. -/
def asyncSegments (env : Nat → Platform) (m : AlignMode) (r : AsyncRequest) :
    Nat → List Iovec → Except Fault (Int × List Submission)
  | _, [] => .ok (-eIocbQueued,[])
  | i, iov :: iovs =>
    let rc := checkTransferAlign m iov.iovBase iov.iovLen r.pos false
    if rc ≠ 0 then .ok (rc,[]) else
      match asyncSegment env r i ⟨iov.iovBase,iov.iovLen,0⟩ with
      | .error f => .error f
      | .ok queued => (asyncSegments env m r (i+queued.length) iovs).map fun q => (q.1,queued ++ q.2)

/-- What the call returns, and what it has handed to `transfer_queue`. -/
def sgAioReadWrite (env : Nat → Platform) (m : AlignMode) (r : AsyncRequest) (iov : List Iovec) :
    Except Fault (Int × List Submission) := asyncSegments env m r 0 iov

def XdmaTransfer.completes (x : XdmaTransfer) : Option (Kiocb × Nat) :=
  x.asyncLast.map fun iocb => (iocb,x.sizeOfRequest)

def Notice.completes : Notice → Option (Kiocb × Nat)
  | .wake _ => none
  | .aioComplete _ iocb done => some (iocb,done)

def completeInOrder (d : Driver) (ts : List TransferId) : Driver :=
  ts.foldl (fun d t => retire d t .completed) d

def CompletedOnce (iocb : Kiocb) (size : Nat) (completed : List (Option (Kiocb × Nat))) : Prop :=
  ∃ front, completed = front ++ [some (iocb,size)] ∧ ∀ c ∈ front, c.map Prod.fst ≠ some iocb

theorem retire_notice (d : Driver) (t : TransferId) (s : TransferState) :
    ∃ n, (retire d t s).notices = d.notices ++ [n] ∧ n.completes = (d.transfers t).completes := by
  unfold retire engineTransferCompletion XdmaTransfer.completes
  simp only [Function.update_self]
  have hsame : ({ d.transfers t with state := s } : XdmaTransfer).asyncLast =
    (d.transfers t).asyncLast := rfl
  rw [hsame]
  cases (d.transfers t).asyncLast with
  | none => exact ⟨.wake t,rfl,rfl⟩
  | some iocb => exact ⟨_,rfl,rfl⟩

theorem update_completes (f : TransferId → XdmaTransfer) (t : TransferId) (s : TransferState)
    (v : TransferId) :
    (Function.update f t ((f t).inState s) v).completes = (f v).completes := by
  rw [update_eq_settle, settle]
  split <;> rfl

theorem retire_completes (d : Driver) (t : TransferId) (s : TransferState) (v : TransferId) :
    ((retire d t s).transfers v).completes = (d.transfers v).completes := by
  rw [retire_transfers]
  exact update_completes d.transfers t s v

theorem completeInOrder_notices (d : Driver) (ts : List TransferId) :
    ∃ new, (completeInOrder d ts).notices = d.notices ++ new ∧
      new.map Notice.completes = ts.map fun t => (d.transfers t).completes := by
  induction ts generalizing d with
  | nil => exact ⟨[],(List.append_nil _).symm,rfl⟩
  | cons t ts ih =>
    obtain ⟨n,hn,hc⟩ := retire_notice d t .completed
    obtain ⟨new,hnew,hmap⟩ := ih (retire d t .completed)
    refine ⟨n :: new,?_,?_⟩
    · rw [completeInOrder, List.foldl_cons]
      rw [completeInOrder, hn, List.append_assoc] at hnew
      exact hnew
    · simp only [retire_completes] at hmap
      rw [List.map_cons, List.map_cons, hc, hmap]

theorem transferCreate_unmarked {k : Platform} {start cnt : Nat} {ep : U64} {m : BuildMode}
    {x : XdmaTransfer} (h : transferCreate k start cnt ep m = .ok (some x)) :
    x.lastInRequest = false ∧ x.cyclic = false ∧ 1 ≤ x.descNum ∧ x.descNum < 2^31 := by
  obtain ⟨sgm,nents,bus,d,d',last,rfl,hlast,hsmall,_,_⟩ := transferCreate_some h
  exact ⟨rfl,rfl,Nat.le_add_left 1 last,Nat.lt_of_le_of_lt hlast hsmall⟩

/-- Only the last transfer of a segment completes anything. -/
theorem asyncSegment_completes {env : Nat → Platform} {r : AsyncRequest} {i : Nat} {s : SegState}
    {q : List Submission} (h : asyncSegment env r i s = .ok q) :
    (s.remaining = 0 → q = []) ∧ (0 < s.remaining → CompletedOnce r.iocb (s.done+s.remaining)
      (q.map fun x => x.transfer.completes)) := by
  fun_induction asyncSegment env r i s generalizing q with
  | case1 i s hmore f hrun => cases h
  | case2 i s hmore hrun => cases h
  | case3 i s hmore x hrun ih =>
    obtain ⟨rest,hrest,rfl⟩ := Except.map_ok h
    obtain ⟨hnil,hcons⟩ := ih hrest
    refine ⟨fun h0 => by omega,fun _ => ?_⟩
    have hlen := chunkLength_bounds hmore
    by_cases hlast : chunkLength s.remaining ≥ s.remaining
    · have h0 : s.next.remaining = 0 := by
        simp only [SegState.next]
        omega
      have heq : chunkLength s.remaining = s.remaining := by omega
      refine ⟨[],?_,by simp⟩
      rw [hnil h0, List.map_singleton, List.nil_append]
      simp [AsyncRequest.mark, XdmaTransfer.completes, XdmaTransfer.asyncLast, heq]
    · have hpos : 0 < s.next.remaining := by
        simp only [SegState.next]
        omega
      obtain ⟨front,hfront,hnone⟩ := hcons hpos
      have hsum : s.next.done+s.next.remaining = s.done+s.remaining := by
        simp only [SegState.next]
        omega
      rw [hsum] at hfront
      refine ⟨(r.mark s x).completes :: front,?_,?_⟩
      · rw [List.map_cons, hfront, List.cons_append]
      · intro c hc
        rcases List.mem_cons.mp hc with rfl | hc
        · have hx : x.lastInRequest = false := (transferCreate_unmarked hrun).1
          simp [AsyncRequest.mark, if_neg hlast, XdmaTransfer.completes, XdmaTransfer.asyncLast, hx]
        · exact hnone c hc
  | case4 i s hmore =>
    cases h
    exact ⟨fun _ => rfl,fun hpos => absurd hpos hmore⟩

def Iovec.nonEmpty (iov : Iovec) : Bool := 0 < iov.iovLen

def requestSize (iov : List Iovec) : Nat := Countdown.total Iovec.iovLen iov

theorem CompletedOnce.count {iocb : Kiocb} {size : Nat} {completed : List (Option (Kiocb × Nat))}
    (h : CompletedOnce iocb size completed) :
    completed.countP (fun c => c.map Prod.fst == some iocb) = 1 := by
  obtain ⟨front,rfl,hfront⟩ := h
  have hzero : front.countP (fun c => c.map Prod.fst == some iocb) = 0 := by
    rw [List.countP_eq_zero]
    intro c hc
    simpa using hfront c hc
  simp [hzero]

theorem checkTransferAlign_rc (m : AlignMode) (buf count : Nat) (pos : Int) (sync : Bool) :
    checkTransferAlign m buf count pos sync = 0 ∨
      checkTransferAlign m buf count pos sync = -eInval := by
  unfold checkTransferAlign
  simp only
  repeat' split
  all_goals simp

theorem asyncSegments_cons {env : Nat → Platform} {m : AlignMode} {r : AsyncRequest} {v : Iovec}
    {iov : List Iovec} {i : Nat} {q : List Submission}
    (h : asyncSegments env m r i (v :: iov) = .ok (-eIocbQueued,q)) :
    ∃ queued rest, asyncSegment env r i ⟨v.iovBase,v.iovLen,0⟩ = .ok queued ∧
      asyncSegments env m r (i+queued.length) iov = .ok (-eIocbQueued,rest) ∧ q = queued ++ rest := by
  simp only [asyncSegments] at h
  split at h
  · rename_i hrc
    simp only [Except.ok.injEq, Prod.mk.injEq] at h
    rcases checkTransferAlign_rc m v.iovBase v.iovLen r.pos false with h0 | hinval
    · exact absurd h0 hrc
    · rw [hinval] at h
      exact absurd h.1 (by decide)
  · split at h
    · cases h
    · rename_i queued hseg
      obtain ⟨⟨rc,rest⟩,hrest,heq⟩ := Except.map_ok h
      simp only [Prod.mk.injEq] at heq
      obtain ⟨rfl,rfl⟩ := heq
      exact ⟨queued,rest,hseg,hrest,rfl⟩

/-- Every segment with bytes in it completes the control block once. -/
theorem asyncSegments_count {env : Nat → Platform} {m : AlignMode} {r : AsyncRequest}
    {iov : List Iovec} {i : Nat} {q : List Submission}
    (h : asyncSegments env m r i iov = .ok (-eIocbQueued,q)) :
    (q.map fun x => x.transfer.completes).countP (fun c => c.map Prod.fst == some r.iocb) =
      iov.countP Iovec.nonEmpty := by
  induction iov generalizing i q with
  | nil =>
    cases h
    rfl
  | cons v iov ih =>
    obtain ⟨queued,rest,hseg,hrest,rfl⟩ := asyncSegments_cons h
    obtain ⟨hnil,hcons⟩ := asyncSegment_completes hseg
    rw [List.map_append, List.countP_append, ih hrest, List.countP_cons, Nat.add_comm]
    congr 1
    by_cases hpos : 0 < v.iovLen
    · rw [(hcons hpos).count]
      simp [Iovec.nonEmpty, hpos]
    · rw [hnil (Nat.eq_zero_of_not_pos hpos)]
      simp [Iovec.nonEmpty, hpos]

theorem asyncSegments_empty {env : Nat → Platform} {m : AlignMode} {r : AsyncRequest}
    {iov : List Iovec} {i : Nat} {q : List Submission}
    (h : asyncSegments env m r i iov = .ok (-eIocbQueued,q)) (h0 : iov.countP Iovec.nonEmpty = 0) :
    q = [] ∧ requestSize iov = 0 := by
  induction iov generalizing i q with
  | nil =>
    cases h
    exact ⟨rfl,rfl⟩
  | cons v iov ih =>
    obtain ⟨queued,rest,hseg,hrest,rfl⟩ := asyncSegments_cons h
    rw [List.countP_cons, Nat.add_eq_zero_iff] at h0
    obtain ⟨hrest0,hlen⟩ := ih hrest h0.1
    have hv : v.iovLen = 0 := by simpa [Iovec.nonEmpty] using h0.2
    refine ⟨?_,?_⟩
    · rw [(asyncSegment_completes hseg).1 hv, hrest0]
      rfl
    · rw [requestSize, Countdown.total_cons, hv, Nat.zero_add]
      exact hlen

theorem asyncSegments_once {env : Nat → Platform} {m : AlignMode} {r : AsyncRequest}
    {iov : List Iovec} {i : Nat} {q : List Submission}
    (h : asyncSegments env m r i iov = .ok (-eIocbQueued,q)) (h1 : iov.countP Iovec.nonEmpty = 1) :
    CompletedOnce r.iocb (requestSize iov) (q.map fun x => x.transfer.completes) := by
  induction iov generalizing i q with
  | nil => cases h1
  | cons v iov ih =>
    obtain ⟨queued,rest,hseg,hrest,rfl⟩ := asyncSegments_cons h
    obtain ⟨hnil,hcons⟩ := asyncSegment_completes hseg
    rw [List.countP_cons] at h1
    rw [requestSize, Countdown.total_cons]
    by_cases hpos : 0 < v.iovLen
    · have h0 : iov.countP Iovec.nonEmpty = 0 := by
        simpa [Iovec.nonEmpty, hpos] using h1
      obtain ⟨hr,hsize⟩ := asyncSegments_empty hrest h0
      have hsize' : Countdown.total Iovec.iovLen iov = 0 := hsize
      have honce := hcons hpos
      rw [Nat.zero_add] at honce
      rw [hr, List.append_nil, hsize', Nat.add_zero]
      exact honce
    · have hv : v.iovLen = 0 := Nat.eq_zero_of_not_pos hpos
      rw [hnil hv, hv, Nat.zero_add, List.nil_append]
      exact ih hrest (by simpa [Iovec.nonEmpty, hpos] using h1)

theorem completeInOrder_queued {q : List Submission} {d : Driver} {ts : List TransferId}
    (hts : ts.map d.transfers = q.map fun x => x.transfer.inState .submitted) :
    ∃ new, (completeInOrder d ts).notices = d.notices ++ new ∧
      new.map Notice.completes = q.map fun x => x.transfer.completes := by
  obtain ⟨new,hnew,hmap⟩ := completeInOrder_notices d ts
  have hfun := congrArg (List.map XdmaTransfer.completes) hts
  rw [List.map_map, List.map_map] at hfun
  exact ⟨new,hnew,hmap.trans hfun⟩

/-- A request is completed once, at its end and with all its bytes, exactly if one
of its segments, and no other, has bytes in it. -/
theorem sgAioReadWrite_completes {env : Nat → Platform} {m : AlignMode} {r : AsyncRequest}
    {iov : List Iovec} {q : List Submission}
    (h : sgAioReadWrite env m r iov = .ok (-eIocbQueued,q)) (d : Driver) (ts : List TransferId)
    (hts : ts.map d.transfers = q.map fun x => x.transfer.inState .submitted) :
    ∃ new, (completeInOrder d ts).notices = d.notices ++ new ∧
      (CompletedOnce r.iocb (requestSize iov) (new.map Notice.completes) ↔
        iov.countP Iovec.nonEmpty = 1) := by
  obtain ⟨new,hnew,hq⟩ := completeInOrder_queued hts
  refine ⟨new,hnew,?_⟩
  rw [hq]
  exact ⟨fun honce => (asyncSegments_count h).symm.trans honce.count,asyncSegments_once h⟩

theorem asyncSegment_returns {env : Nat → Platform} {dma : Nat → U64} (hk : ∀ i, (env i).Maps dma)
    (r : AsyncRequest) (i : Nat) (s : SegState) (hs : s.transferAddr+s.remaining < 2^64) :
    ∃ q, asyncSegment env r i s = .ok q := by
  obtain ⟨n,hn⟩ : ∃ n, n = s.remaining := ⟨_,rfl⟩
  induction n using Nat.strongRecOn generalizing i s with
  | ind n ih =>
    rw [asyncSegment]
    by_cases hmore : 0 < s.remaining
    · obtain ⟨h1,hmax,hle⟩ := chunkLength_bounds hmore
      obtain ⟨x,hx,_⟩ := transferCreate_moves (hk i) h1 hmax
        (Nat.lt_of_le_of_lt (Nat.add_le_add_left hle _) hs) (BitVec.ofInt 64 r.pos) r.dirToDev
      have haddr : s.next.transferAddr+s.next.remaining < 2^64 := by
        simp only [SegState.next]
        omega
      obtain ⟨rest,hrest⟩ := ih _ (by rw [hn]; exact s.next_remaining hmore) (i+1) s.next haddr rfl
      have hrun : (r.call s).run (env i) = .ok (some x) := hx
      exact ⟨_,by simp only [dif_pos hmore, hrun, hrest]; rfl⟩
    · exact ⟨[],by rw [dif_neg hmore]⟩

theorem asyncSegments_returns {env : Nat → Platform} {dma : Nat → U64} (hk : ∀ i, (env i).Maps dma)
    (r : AsyncRequest) (i : Nat) (iov : List Iovec) (hs : ∀ v ∈ iov, v.iovBase+v.iovLen < 2^64) :
    ∃ q, asyncSegments env ⟨false,false,⟨1,1⟩⟩ r i iov = .ok (-eIocbQueued,q) := by
  induction iov generalizing i with
  | nil => exact ⟨[],rfl⟩
  | cons v iov ih =>
    obtain ⟨queued,hseg⟩ := asyncSegment_returns hk r i ⟨v.iovBase,v.iovLen,0⟩ (hs v (by simp))
    obtain ⟨rest,hrest⟩ := ih (i+queued.length) fun w hw => hs w (by simp [hw])
    have hcheck : checkTransferAlign ⟨false,false,⟨1,1⟩⟩ v.iovBase v.iovLen r.pos false = 0 := by
      simp [checkTransferAlign]
    exact ⟨queued ++ rest,by simp only [asyncSegments, hcheck, hseg, hrest]; rfl⟩

def Driver.accepted (q : List Submission) : Driver :=
  .withEngine (engineCreate ⟨false,false⟩ 0 false false) fun t =>
    match q[t]? with
    | some x => x.transfer.inState .submitted
    | none => default

theorem accepted_transfers (q : List Submission) :
    (List.range q.length).map (Driver.accepted q).transfers =
      q.map fun x => x.transfer.inState .submitted := by
  apply List.ext_getElem
  · simp
  · intro i h₁ h₂
    have hi : i < q.length := by simpa using h₂
    simp [Driver.accepted, Driver.withEngine, hi]

def identityKernel (_ : Nat) : Platform := .ample fun page => BitVec.ofNat 64 (page*pageSize)

theorem identityKernel_maps (i : Nat) :
    (identityKernel i).Maps fun page => BitVec.ofNat 64 (page*pageSize) := Platform.ample_maps _

/-- Two segments complete their request twice, with a page each. -/
theorem sgAioReadWrite_completes_twice : ¬ ∀ (env : Nat → Platform) (m : AlignMode)
    (r : AsyncRequest) (iov : List Iovec) (q : List Submission),
    sgAioReadWrite env m r iov = .ok (-eIocbQueued,q) →
    ∀ (d : Driver) (ts : List TransferId),
      ts.map d.transfers = q.map (fun x => x.transfer.inState .submitted) →
      ∃ new, (completeInOrder d ts).notices = d.notices ++ new ∧
        CompletedOnce r.iocb (requestSize iov) (new.map Notice.completes) := by
  intro hall
  obtain ⟨q,hq⟩ := asyncSegments_returns identityKernel_maps ⟨1,0,false⟩ 0
    [⟨0x10000,4096,by decide⟩,⟨0x20000,4096,by decide⟩] (by decide)
  obtain ⟨new,hnew,honce⟩ := hall _ _ _ _ q hq _ _ (accepted_transfers q)
  obtain ⟨new',hnew',hmap⟩ := completeInOrder_queued (accepted_transfers q)
  rw [hnew] at hnew'
  rw [List.append_cancel_left hnew', hmap] at honce
  have hcount := (asyncSegments_count hq).symm.trans honce.count
  exact absurd hcount (by decide)

theorem sgAioReadWrite_completes_one : ∃ q new,
    sgAioReadWrite identityKernel ⟨false,false,⟨1,1⟩⟩ ⟨1,0,false⟩
      [⟨0,0,by decide⟩,⟨0x10000,4096,by decide⟩] = .ok (-eIocbQueued,q) ∧
    (completeInOrder (.accepted q) (List.range q.length)).notices = new ∧
      CompletedOnce 1 4096 (new.map Notice.completes) := by
  obtain ⟨q,hq⟩ := asyncSegments_returns identityKernel_maps ⟨1,0,false⟩ 0
    [⟨0,0,by decide⟩,⟨0x10000,4096,by decide⟩] (by decide)
  obtain ⟨new,hnew,hiff⟩ := sgAioReadWrite_completes hq _ _ (accepted_transfers q)
  exact ⟨q,new,hq,hnew,hiff.mpr (by decide)⟩

end DmaCamera
