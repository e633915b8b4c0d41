import DmaCamera.AsyncOutcome
set_option autoImplicit false

namespace DmaCamera
open Countdown Runs

def AlignMode.accepts (m : AlignMode) (pos : Int) (v : Iovec) : Bool :=
  checkTransferAlign m v.iovBase v.iovLen pos false == 0

/-- No segment is refused, or those in front of the first that is are empty. -/
def refusedFirst (m : AlignMode) (pos : Int) (iov : List Iovec) : Prop :=
  (∀ v ∈ iov, m.accepts pos v = true) ∨ ∀ v ∈ iov.takeWhile (m.accepts pos), v.iovLen = 0

def IoOp.checks (j : Nat) : IoOp → Option Alignment
  | .segment k alignment => if k = j then some alignment else none
  | _ => none

deriving instance DecidableEq for AlignMode

def checkedWith (j : Nat) (m : AlignMode) (s : IoSystem) (op : IoOp) : Prop :=
  ∀ a ∈ op.checks j, m = ⟨s.driver.engine.streaming,s.driver.engine.nonIncrAddr,a⟩

instance (j : Nat) (m : AlignMode) (s : IoSystem) (op : IoOp) : Decidable (checkedWith j m s op) :=
  inferInstanceAs (Decidable (∀ a ∈ op.checks j, _))

/-- How far a call has come: the segments in front have been accepted, and it has
queued nothing exactly if there was nothing in them. -/
inductive AsyncCall.Checked (m : AlignMode) (r : AsyncRequest) (iov : List Iovec) :
    AsyncCall → Prop
  | segments (front rest : List Iovec) (queued : List TransferId) (hcut : iov = front ++ rest)
    (hok : ∀ v ∈ front, m.accepts r.pos v = true)
    (hq : queued = [] ↔ ∀ v ∈ front, v.iovLen = 0) : Checked m r iov ⟨r,.segments rest,queued⟩
  | chunk (front : List Iovec) (v : Iovec) (rest : List Iovec) (seg : SegState)
    (queued : List TransferId) (hcut : iov = front ++ v :: rest)
    (hok : ∀ u ∈ front ++ [v], m.accepts r.pos u = true)
    (hlen : seg.done+seg.remaining = v.iovLen)
    (hq : queued = [] ↔ (∀ u ∈ front, u.iovLen = 0) ∧ seg.done = 0) :
    Checked m r iov ⟨r,.chunk seg rest,queued⟩
  | created (front : List Iovec) (v : Iovec) (rest : List Iovec) (x : PlainTransfer) (seg : SegState)
    (queued : List TransferId) (hcut : iov = front ++ v :: rest)
    (hok : ∀ u ∈ front ++ [v], m.accepts r.pos u = true)
    (hlen : seg.done+seg.remaining = v.iovLen) (hmore : 0 < seg.remaining) :
    Checked m r iov ⟨r,.created x seg rest,queued⟩
  | done (queued : List TransferId) (hok : ∀ v ∈ iov, m.accepts r.pos v = true) :
    Checked m r iov ⟨r,.returned (-eIocbQueued),queued⟩
  | refused (front : List Iovec) (v : Iovec) (rest : List Iovec) (queued : List TransferId) (rc : Int)
    (hcut : iov = front ++ v :: rest) (hok : ∀ v ∈ front, m.accepts r.pos v = true)
    (hno : m.accepts r.pos v = false) (hrc : rc ≠ -eIocbQueued)
    (hq : queued = [] ↔ ∀ v ∈ front, v.iovLen = 0) : Checked m r iov ⟨r,.returned rc,queued⟩

section checked

variable {m : AlignMode} {r : AsyncRequest} {iov : List Iovec}

theorem AsyncCall.Checked.segmentNext {front rest : List Iovec} {queued : List TransferId}
    {e : Engine} {a : Alignment} (hm : m = ⟨e.streaming,e.nonIncrAddr,a⟩) (hcut : iov = front ++ rest)
    (hok : ∀ v ∈ front, m.accepts r.pos v = true)
    (hq : queued = [] ↔ ∀ v ∈ front, v.iovLen = 0) :
    Checked m r iov ⟨r,DmaCamera.segmentNext e a r rest,queued⟩ := by
  cases rest with
  | nil =>
    rw [List.append_nil] at hcut
    subst hcut
    exact .done queued hok
  | cons v rest =>
    unfold DmaCamera.segmentNext
    rw [← hm]
    dsimp only
    split
    · rename_i hrc
      have hno : m.accepts r.pos v = false := by simpa [AlignMode.accepts] using hrc
      refine .refused front v rest queued _ hcut hok hno ?_ hq
      rcases checkTransferAlign_rc m v.iovBase v.iovLen r.pos false with h | h
      · exact absurd h hrc
      · rw [h]
        decide
    · rename_i hrc
      have hyes : m.accepts r.pos v = true := by simpa [AlignMode.accepts] using hrc
      refine .chunk front v rest _ queued hcut ?_ (Nat.zero_add _) (by simpa using hq)
      intro u hu
      rcases List.mem_append.mp hu with hu | hu
      · exact hok u hu
      · rw [List.mem_singleton.mp hu]
        exact hyes

theorem AsyncCall.Checked.chunkNext {front rest : List Iovec} {v : Iovec} {seg : SegState}
    {queued : List TransferId} {kernel : Platform} {pc : AsyncPc} (hcut : iov = front ++ v :: rest)
    (hok : ∀ u ∈ front ++ [v], m.accepts r.pos u = true)
    (hlen : seg.done+seg.remaining = v.iovLen)
    (hq : queued = [] ↔ (∀ u ∈ front, u.iovLen = 0) ∧ seg.done = 0)
    (h : DmaCamera.chunkNext kernel r seg rest = some pc) : Checked m r iov ⟨r,pc,queued⟩ := by
  unfold DmaCamera.chunkNext at h
  split at h
  · rename_i hmore
    split at h
    · obtain ⟨x,_,rfl⟩ := Option.map_eq_some_iff.mp h
      exact .created front v rest x seg queued hcut hok hlen hmore
    · cases h
  · rename_i hdone
    cases h
    have hdone : seg.done = v.iovLen := by omega
    refine .segments (front ++ [v]) rest queued (by simp [hcut]) hok ?_
    rw [hq, hdone]
    simp [or_imp, forall_and]

theorem AsyncCall.Checked.queue {front rest : List Iovec} {v : Iovec} {seg : SegState}
    (queued : List TransferId) (t : TransferId) (hcut : iov = front ++ v :: rest)
    (hok : ∀ u ∈ front ++ [v], m.accepts r.pos u = true)
    (hlen : seg.done+seg.remaining = v.iovLen) (hmore : 0 < seg.remaining) :
    Checked m r iov ⟨r,.chunk seg.next rest,queued ++ [t]⟩ := by
  obtain ⟨h1,_,hle⟩ := chunkLength_bounds hmore
  refine .chunk front v rest seg.next _ hcut hok ?_ ?_
  · simp only [SegState.next]
    omega
  · have hsome : seg.next.done ≠ 0 := by
      simp only [SegState.next]
      omega
    simp [hsome]

theorem AsyncCall.Checked.step {p : Params} {s s' : IoSystem} {op : IoOp} {j : Nat}
    (h : (s.requests j).Checked m r iov) (hm : checkedWith j m s op)
    (hstep : ioNext p s op = some s') : (s'.requests j).Checked m r iov := by
  cases ioNext_request hstep j with
  | same hsame =>
    rw [hsame]
    exact h
  | segment a r' rest queued hop hpc hnext =>
    rw [hpc] at h
    rw [hnext]
    cases h with
    | segments front _ _ hcut hok hq =>
      have hset := hm a (by rw [hop]; exact if_pos rfl)
      exact segmentNext hset hcut hok hq
  | create kernel r' seg rest pc queued hop hpc hchunk hnext =>
    rw [hpc] at h
    rw [hnext]
    cases h with
    | chunk front v _ _ _ hcut hok hlen hq => exact chunkNext hcut hok hlen hq hchunk
  | queue r' x seg rest rc queued hop hpc hcall hnext =>
    rw [hpc] at h
    rw [hnext]
    cases h with
    | created front v _ _ _ _ hcut hok hlen hmore => exact queue queued _ hcut hok hlen hmore

theorem takeWhile_accepted {front rest : List Iovec} {v : Iovec} {pos : Int}
    (hok : ∀ v ∈ front, m.accepts pos v = true) (hno : m.accepts pos v = false) :
    (front ++ v :: rest).takeWhile (m.accepts pos) = front := by
  rw [List.takeWhile_append_of_pos hok, List.takeWhile_cons, hno]
  simp

theorem AsyncCall.Checked.returned {queued : List TransferId} {rc : Int}
    (h : Checked m r iov ⟨r,.returned rc,queued⟩) :
    (rc ≠ -eIocbQueued → queued = []) ↔ refusedFirst m r.pos iov := by
  cases h with
  | done _ hok => exact iff_of_true (fun hrc => absurd rfl hrc) (Or.inl hok)
  | refused front v rest _ _ hcut hok hno hrc hq =>
    subst hcut
    rw [refusedFirst, takeWhile_accepted hok hno, ← hq]
    constructor
    · exact fun hnone => Or.inr (hnone hrc)
    · rintro (hall | hnone)
      · have hv := hall v (by simp)
        rw [hno] at hv
        cases hv
      · exact fun _ => hnone

end checked

/-- A call that returns an error has queued nothing, and is not completed again, exactly
if no segment was refused behind one with bytes in it. -/
theorem sgAioReadWrite_refused {p : Params} {s₀ s : IoSystem} {ops : List IoOp} {j : Nat}
    {m : AlignMode} {r : AsyncRequest} {iov : List Iovec} {rc : Int} {queued : List TransferId}
    (hj : s₀.requests j = ⟨r,.segments iov,[]⟩)
    (run : Run (stepOf (ioNext p)) (checkedWith j m) s₀ ops s)
    (hret : s.requests j = ⟨r,.returned rc,queued⟩) :
    (rc ≠ -eIocbQueued → (s.requests j).queued = [] ∧ s.completions j = []) ↔
      refusedFirst m r.pos iov := by
  have h₀ : (s₀.requests j).Checked m r iov := by
    rw [hj]
    exact .segments [] iov [] rfl (by simp) (by simp)
  have h := run.invariant (fun s => (s.requests j).Checked m r iov) h₀
    fun _ _ _ hs hm hstep => hs.step hm hstep
  rw [hret] at h
  rw [← h.returned, hret]
  refine forall_congr' fun _ => and_iff_left_of_imp fun hnone => ?_
  rw [IoSystem.completions, hret]
  simp only at hnone ⊢
  simp [hnone]

def IoSystem.reading (iov : List Iovec) : IoSystem :=
  { IoSystem.pages with requests := fun j => ⟨⟨j,0,false⟩,.segments iov,[]⟩ }

theorem sgAioReadWrite_refused_first : ∃ s,
    Run (stepOf (ioNext ⟨false,false⟩)) (checkedWith 0 ⟨false,false,⟨8,1⟩⟩)
      (.reading [⟨0x10001,4096,by decide⟩]) [.segment 0 ⟨8,1⟩] s ∧
    (-eInval ≠ -eIocbQueued → (s.requests 0).queued = [] ∧ s.completions 0 = []) := by
  have hrun : Run (stepOf (ioNext ⟨false,false⟩)) (checkedWith 0 ⟨false,false,⟨8,1⟩⟩)
      (.reading [⟨0x10001,4096,by decide⟩]) [.segment 0 ⟨8,1⟩] _ := replay_ok (by decide +kernel)
  exact ⟨_,hrun,(sgAioReadWrite_refused rfl hrun rfl).mpr (Or.inr (by decide))⟩

def IoSystem.lateRefusal : List IoOp :=
  [.segment 0 ⟨8,1⟩,.create 0 (identityKernel 0),.queue 0,.create 0 (identityKernel 0),
    .segment 0 ⟨8,1⟩,.call (.interrupt ⟨⟨0,1⟩,[]⟩)]

/-- The call has returned an error when the service handler completes its control block. -/
theorem lateRefusal_completed : ∃ s,
    Run (stepOf (ioNext ⟨false,false⟩)) (checkedWith 0 ⟨false,false,⟨8,1⟩⟩)
      (.reading [⟨0x10000,4096,by decide⟩,⟨0x20001,4096,by decide⟩]) IoSystem.lateRefusal s ∧
    (s.requests 0).pc = .returned (-eInval) ∧ (s.requests 0).queued = [0] ∧
      s.completions 0 = [4096] :=
  ⟨_,replay_ok (by decide +kernel),rfl,rfl,by decide +kernel⟩

end DmaCamera
