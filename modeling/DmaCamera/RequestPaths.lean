import DmaCamera.AsyncRequest
set_option autoImplicit false

namespace DmaCamera

def syncCall (m : BuildMode) (s : DataState) : CreateCall :=
  ⟨s.transferAddr,chunkLength s.remaining,BitVec.ofInt 64 s.pos,m⟩

theorem syncCall_run (m : BuildMode) (s : DataState) (k : Platform) :
    (syncCall m s).run k = s.create k m := rfl

def syncCalls (m : BuildMode) (env : Nat → ChunkEnv) (i : Nat) (s : DataState) : List CreateCall :=
  if _h : s.res = 0 ∧ 0 < s.remaining then
    match hs : transferDataStep m (env i) s with
    | .error _ => [syncCall m s]
    | .ok s' => syncCall m s :: syncCalls m env (i+1) s'
  else []
termination_by s.remaining
decreasing_by exact transferDataStep_remaining _h.2 hs

/-- The device addresses where the segments with bytes in them start, and their
lengths, read off what was submitted for them. -/
def segmentStarts : List Iovec → List Submission → List (U64 × Nat)
  | [], _ => []
  | v :: iov, q =>
    if v.nonEmpty then
      match q with
      | [] => []
      | x :: _ => (x.call.epAddr,v.iovLen) ::
        segmentStarts iov (q.drop ((v.iovLen+xdmaTransferMaxBytes-1)/xdmaTransferMaxBytes))
    else segmentStarts iov q

def Contiguous (starts : List (U64 × Nat)) : Prop :=
  starts.IsChain fun a b => b.1 = a.1+BitVec.ofNat 64 a.2

theorem ofInt_bmod (pos : Int) : BitVec.ofInt 64 (Int.bmod pos (2^64)) = BitVec.ofInt 64 pos := by
  apply BitVec.eq_of_toInt_eq
  rw [BitVec.toInt_ofInt, BitVec.toInt_ofInt, Int.bmod_bmod]

theorem transferDataStep_next {m : BuildMode} {c : ChunkEnv} {s s' : DataState}
    (h : transferDataStep m c s = .ok s') : s'.res ≠ 0 ∨
      (s'.remaining = s.remaining-chunkLength s.remaining ∧
        BitVec.ofInt 64 s'.pos =
          BitVec.ofInt 64 s.pos+BitVec.ofNat 64 (chunkLength s.remaining)) := by
  rcases transferDataStep_ok h with ⟨_,rfl⟩ | ⟨x,_,⟨hv,rfl⟩ | ⟨_,rfl⟩⟩
  · exact Or.inl (by simp [eIo])
  · exact Or.inl hv
  · refine Or.inr ⟨rfl,?_⟩
    simp only [DataState.advance, DataState.build]
    rw [ofInt_bmod, ← ofInt_add_cast]
    rfl

theorem transferDataLoop_next {m : BuildMode} {env : Nat → ChunkEnv} {i : Nat} {s t : DataState}
    (hmore : s.res = 0 ∧ 0 < s.remaining) (h : transferDataLoop m env i s = .ok t) (ht : t.res = 0) :
    ∃ s', transferDataStep m (env i) s = .ok s' ∧ s'.res = 0 := by
  rw [transferDataLoop, dif_pos hmore] at h
  split at h
  · cases h
  · rename_i s' hs
    refine ⟨s',hs,?_⟩
    by_contra hres
    rw [transferDataLoop_done fun hm => hres hm.1] at h
    cases h
    exact hres ht

theorem syncCalls_done {m : BuildMode} {env : Nat → ChunkEnv} {i : Nat} {s : DataState}
    (h : ¬ (s.res = 0 ∧ 0 < s.remaining)) : syncCalls m env i s = [] := by
  rw [syncCalls, dif_neg h]

theorem syncCalls_more {m : BuildMode} {env : Nat → ChunkEnv} {i : Nat} {s s' : DataState}
    (h : s.res = 0 ∧ 0 < s.remaining) (hs : transferDataStep m (env i) s = .ok s') :
    syncCalls m env i s = syncCall m s :: syncCalls m env (i+1) s' := by
  rw [syncCalls, dif_pos h]
  split
  · rename_i f hf
    rw [hs] at hf
    cases hf
  · rename_i t ht
    rw [hs] at ht
    cases ht
    rfl

theorem syncCall_mem {m : BuildMode} {env : Nat → ChunkEnv} {i : Nat} {s : DataState}
    (h : s.res = 0 ∧ 0 < s.remaining) : syncCall m s ∈ syncCalls m env i s := by
  rw [syncCalls, dif_pos h]
  split <;> simp

theorem asyncSegment_more {env : Nat → Platform} {r : AsyncRequest} {i : Nat} {s : SegState}
    {q : List Submission} (hmore : 0 < s.remaining) (h : asyncSegment env r i s = .ok q) :
    ∃ x rest, asyncSegment env r (i+1) s.next = .ok rest ∧ q = ⟨r.call s,r.mark s x⟩ :: rest := by
  rw [asyncSegment, dif_pos hmore] at h
  split at h
  · cases h
  · cases h
  · rename_i x _
    obtain ⟨rest,hrest,rfl⟩ := Except.map_ok h
    exact ⟨x,rest,hrest,rfl⟩

theorem asyncSegment_done {env : Nat → Platform} {r : AsyncRequest} {i : Nat} {s : SegState}
    {q : List Submission} (hdone : s.remaining = 0) (h : asyncSegment env r i s = .ok q) :
    q = [] := (asyncSegment_completes h).1 hdone

theorem chunk_moves (a : U64) {n : Nat} (h0 : 0 < n) (hlt : n < 2^64) :
    a+BitVec.ofNat 64 n ≠ a := by
  intro h
  have hz := congrArg BitVec.toNat h
  rw [BitVec.toNat_add, BitVec.toNat_ofNat] at hz
  have := a.isLt
  omega

/-- A whole buffer: the two sequences of calls are the same for one chunk in the
incremental mode, and for no other. -/
theorem calls_eq_iff {dir nonIncr : Bool} {senv : Nat → ChunkEnv} {aenv : Nat → Platform}
    {r : AsyncRequest} {s t : DataState} {q : List Submission} (hdir : r.dirToDev = dir)
    (hpos : s.pos = r.pos) (hres : s.res = 0) (hmore : 0 < s.remaining)
    (hsync : transferDataLoop ⟨dir,nonIncr,false,true⟩ senv 0 s = .ok t) (ht : t.res = 0)
    (hasync : asyncSegment aenv r 0 ⟨s.transferAddr,s.remaining,0⟩ = .ok q) :
    syncCalls ⟨dir,nonIncr,false,true⟩ senv 0 s = q.map Submission.call ↔
      nonIncr = false ∧ s.remaining ≤ xdmaTransferMaxBytes := by
  obtain ⟨s',hs',hres'⟩ := transferDataLoop_next ⟨hres,hmore⟩ hsync ht
  obtain ⟨x,rest,hrest,rfl⟩ := asyncSegment_more hmore hasync
  obtain ⟨h1,hmax,hle⟩ := chunkLength_bounds hmore
  rw [syncCalls_more ⟨hres,hmore⟩ hs', List.map_cons, List.cons_eq_cons]
  have hhead : syncCall ⟨dir,nonIncr,false,true⟩ s = r.call ⟨s.transferAddr,s.remaining,0⟩ ↔
      nonIncr = false := by
    simp [syncCall, AsyncRequest.call, hpos, hdir]
  obtain ⟨hleft,hdev⟩ := (transferDataStep_next hs').resolve_left fun h => h hres'
  rw [hhead]
  refine and_congr_right fun hincr => ?_
  by_cases hone : s.remaining ≤ xdmaTransferMaxBytes
  · have hlen : chunkLength s.remaining = s.remaining := if_neg (Nat.not_lt.mpr hone)
    have h0 : s'.remaining = 0 := by omega
    have hnil : rest = [] := asyncSegment_done (by simp only [SegState.next]; omega) hrest
    rw [syncCalls_done (by omega), hnil]
    simp [hone]
  · -- the second chunk: one path has moved on, the other has not
    have hlen : chunkLength s.remaining = xdmaTransferMaxBytes := if_pos (Nat.not_le.mp hone)
    have hpos' : 0 < s'.remaining := by omega
    have hmoreA : 0 < (SegState.next ⟨s.transferAddr,s.remaining,0⟩).remaining := by
      simp only [SegState.next]
      omega
    obtain ⟨y,rest',_,rfl⟩ := asyncSegment_more hmoreA hrest
    simp only [hone, iff_false]
    intro heq
    have hep : (syncCall ⟨dir,nonIncr,false,true⟩ s').epAddr = BitVec.ofInt 64 r.pos := by
      rw [syncCalls] at heq
      split at heq
      · split at heq
        · exact congrArg CreateCall.epAddr (List.cons_eq_cons.mp heq).1
        · exact congrArg CreateCall.epAddr (List.cons_eq_cons.mp heq).1
      · cases heq
    have hmoved : BitVec.ofInt 64 s'.pos = BitVec.ofInt 64 r.pos := hep
    rw [hdev, hpos] at hmoved
    exact chunk_moves _ (by omega) (by rw [hlen]; decide) hmoved

theorem chunkCount_succ {n : Nat} (h : xdmaTransferMaxBytes < n) :
    (n+xdmaTransferMaxBytes-1)/xdmaTransferMaxBytes =
      (n-xdmaTransferMaxBytes+xdmaTransferMaxBytes-1)/xdmaTransferMaxBytes+1 := by
  unfold xdmaTransferMaxBytes at *
  omega

theorem asyncSegment_length {env : Nat → Platform} {r : AsyncRequest} {i : Nat} {s : SegState}
    {q : List Submission} (h : asyncSegment env r i s = .ok q) :
    q.length = (s.remaining+xdmaTransferMaxBytes-1)/xdmaTransferMaxBytes := by
  fun_induction asyncSegment env r i s generalizing q with
  | case1 i s hmore f hrun => cases h
  | case2 i s hmore hrun => cases h
  | case3 i s hmore x hrun ih =>
    obtain ⟨rest,hrest,rfl⟩ := Except.map_ok h
    have hih := ih hrest
    rw [List.length_cons, hih]
    simp only [SegState.next]
    by_cases hone : s.remaining ≤ xdmaTransferMaxBytes
    · have hlen : chunkLength s.remaining = s.remaining := if_neg (Nat.not_lt.mpr hone)
      rw [hlen]
      unfold xdmaTransferMaxBytes at *
      omega
    · have hlen : chunkLength s.remaining = xdmaTransferMaxBytes := if_pos (Nat.not_le.mp hone)
      rw [hlen, chunkCount_succ (Nat.not_le.mp hone)]
  | case4 i s hmore =>
    cases h
    have h0 : s.remaining = 0 := by omega
    rw [h0]
    rfl

/-- Every segment starts at the position of the request. -/
theorem segmentStarts_async {env : Nat → Platform} {m : AlignMode} {r : AsyncRequest}
    {iov : List Iovec} {i : Nat} {q : List Submission}
    (h : asyncSegments env m r i iov = .ok (-eIocbQueued,q)) :
    segmentStarts iov q =
      (iov.filter Iovec.nonEmpty).map fun v => (BitVec.ofInt 64 r.pos,v.iovLen) := by
  induction iov generalizing i q with
  | nil => rfl
  | cons v iov ih =>
    obtain ⟨queued,rest,hseg,hrest,rfl⟩ := asyncSegments_cons h
    by_cases hpos : 0 < v.iovLen
    · have hne : v.nonEmpty = true := by simpa [Iovec.nonEmpty] using hpos
      have hlen := asyncSegment_length hseg
      obtain ⟨x,tail,_,rfl⟩ := asyncSegment_more hpos hseg
      have hdrop : ((⟨r.call ⟨v.iovBase,v.iovLen,0⟩,r.mark ⟨v.iovBase,v.iovLen,0⟩ x⟩ :: tail) ++
          rest).drop ((v.iovLen+xdmaTransferMaxBytes-1)/xdmaTransferMaxBytes) = rest := by
        rw [← hlen, List.drop_left]
      rw [List.filter_cons_of_pos hne, List.map_cons, ← ih hrest]
      rw [List.cons_append] at hdrop ⊢
      simp only [segmentStarts, hne, if_true, hdrop]
      rfl
    · have hnil := asyncSegment_done (Nat.eq_zero_of_not_pos hpos) hseg
      have hempty : v.nonEmpty = false := by simpa [Iovec.nonEmpty] using hpos
      rw [hnil, List.nil_append, List.filter_cons_of_neg (by simp [hempty]), ← ih hrest]
      simp only [segmentStarts, hempty, Bool.false_eq_true, if_false]

theorem contiguous_const {a : U64} {ls : List Nat} (h : ∀ l ∈ ls, 0 < l ∧ l < 2^64) :
    Contiguous (ls.map fun l => (a,l)) ↔ ls.length ≤ 1 := by
  cases ls with
  | nil => simp [Contiguous]
  | cons l ls =>
    cases ls with
    | nil => simp [Contiguous]
    | cons l' ls =>
      have hl := h l (by simp)
      have hne : a ≠ a+BitVec.ofNat 64 l := fun he => chunk_moves a hl.1 hl.2 he.symm
      simp [Contiguous, hne]

theorem segments_contiguous_iff {env : Nat → Platform} {m : AlignMode} {r : AsyncRequest}
    {iov : List Iovec} {i : Nat} {q : List Submission}
    (h : asyncSegments env m r i iov = .ok (-eIocbQueued,q)) :
    Contiguous (segmentStarts iov q) ↔ iov.countP Iovec.nonEmpty ≤ 1 := by
  have hmap : (iov.filter Iovec.nonEmpty).map (fun v => (BitVec.ofInt 64 r.pos,v.iovLen)) =
      ((iov.filter Iovec.nonEmpty).map Iovec.iovLen).map fun l => (BitVec.ofInt 64 r.pos,l) := by
    rw [List.map_map]
    rfl
  rw [segmentStarts_async h, hmap, contiguous_const, List.length_map, List.countP_eq_length_filter]
  intro l hl
  obtain ⟨v,hv,rfl⟩ := List.mem_map.mp hl
  have hne := (List.mem_filter.mp hv).2
  exact ⟨by simpa [Iovec.nonEmpty] using hne,v.len_lt⟩

theorem chunkVerdict_nonpos (state : TransferState) (rc : Int) : chunkVerdict state rc ≤ 0 := by
  unfold chunkVerdict
  repeat' split
  all_goals simp [eIo, eRestartSys]

theorem transferDataStep_nonpos {m : BuildMode} {c : ChunkEnv} {s s' : DataState}
    (h : transferDataStep m c s = .ok s') : s'.res ≤ 0 := by
  rcases transferDataStep_ok h with ⟨_,rfl⟩ | ⟨x,_,⟨_,rfl⟩ | ⟨_,rfl⟩⟩
  · simp [eIo]
  · exact chunkVerdict_nonpos c.state c.rc
  · exact Int.le_refl 0

theorem transferDataLoop_nonpos {m : BuildMode} {env : Nat → ChunkEnv} {i : Nat} {s t : DataState}
    (hs : s.res ≤ 0) (h : transferDataLoop m env i s = .ok t) : t.res ≤ 0 := by
  fun_induction transferDataLoop m env i s with
  | case1 i s hmore f hstep => cases h
  | case2 i s hmore s' hstep ih => exact ih (transferDataStep_nonpos hstep) h
  | case3 i s hdone =>
    cases h
    exact hs

theorem transferData_complete {dir nonIncr : Bool} {env : Nat → ChunkEnv} {start count : Nat}
    {pos pos' : Int} {built : List XdmaTransfer} (hc : 1 ≤ count)
    (h : transferData dir nonIncr env start count pos = .ok (count,pos',built)) :
    ∃ t, transferDataLoop ⟨dir,nonIncr,false,true⟩ env 0 ⟨0,0,start,count,pos,[]⟩ = .ok t ∧
      t.res = 0 := by
  unfold transferData at h
  split at h
  · cases h
  · rename_i t ht
    have hle := transferDataLoop_nonpos (Int.le_refl 0) ht
    refine ⟨t,ht,?_⟩
    by_contra hres
    rw [if_pos hres] at h
    have hcount : t.res = count := by simpa using congrArg Prod.fst (Except.ok.inj h)
    omega

theorem sgAioReadWrite_one {env : Nat → Platform} {m : AlignMode} {r : AsyncRequest} {v : Iovec}
    {q : List Submission} (h : sgAioReadWrite env m r [v] = .ok (-eIocbQueued,q)) :
    asyncSegment env r 0 ⟨v.iovBase,v.iovLen,0⟩ = .ok q := by
  obtain ⟨queued,rest,hseg,hrest,rfl⟩ := asyncSegments_cons h
  cases hrest
  rw [List.append_nil]
  exact hseg

/-- The two paths make the same calls for a buffer exactly if one chunk of an
incremental engine takes it, and segments follow each other exactly if there is
only one, the engine being incremental. -/
theorem bothPaths_agree {dir : Bool} {m : AlignMode} {senv : Nat → ChunkEnv}
    {aenv : Nat → Platform} {iocb : Kiocb} {v : Iovec} {pos pos' : Int} {built : List XdmaTransfer}
    {q q' : List Submission} {iov : List Iovec} (hc : 1 ≤ v.iovLen)
    (hsync : transferData dir m.nonIncrAddr senv v.iovBase v.iovLen pos =
      .ok (v.iovLen,pos',built))
    (hasync : sgAioReadWrite aenv m ⟨iocb,pos,dir⟩ [v] = .ok (-eIocbQueued,q))
    (hiov : sgAioReadWrite aenv m ⟨iocb,pos,dir⟩ iov = .ok (-eIocbQueued,q')) :
    (syncCalls ⟨dir,m.nonIncrAddr,false,true⟩ senv 0 ⟨0,0,v.iovBase,v.iovLen,pos,[]⟩ =
        q.map Submission.call ↔ m.nonIncrAddr = false ∧ v.iovLen ≤ xdmaTransferMaxBytes) ∧
      ((m.nonIncrAddr = false → Contiguous (segmentStarts iov q')) ↔
        m.nonIncrAddr = true ∨ iov.countP Iovec.nonEmpty ≤ 1) := by
  obtain ⟨t,hloop,ht⟩ := transferData_complete hc hsync
  refine ⟨calls_eq_iff rfl rfl rfl hc hloop ht (sgAioReadWrite_one hasync),?_⟩
  rw [segments_contiguous_iff hiov]
  cases m.nonIncrAddr <;> simp

def completingEnv (i : Nat) : ChunkEnv := ⟨identityKernel i,0,.completed⟩

theorem transferData_completing (v : Iovec) (hs : v.iovBase+v.iovLen < 2^64)
    (hp : v.iovLen < 2^63) :
    ∃ t, transferDataLoop ⟨true,false,false,true⟩ completingEnv 0
        ⟨0,0,v.iovBase,v.iovLen,0,[]⟩ = .ok t ∧ t.res = 0 ∧
      transferData true false completingEnv v.iovBase v.iovLen 0 =
        .ok (v.iovLen,v.iovLen,t.built) := by
  have hk : ∀ i, (completingEnv i).kernel.Maps fun page => BitVec.ofNat 64 (page*pageSize) :=
    identityKernel_maps
  have hc : ∀ i, (completingEnv i).state = .completed := fun _ => rfl
  have h0 : Moved true (fun page => BitVec.ofNat 64 (page*pageSize)) v.iovBase v.iovLen 0
      ⟨0,0,v.iovBase,v.iovLen,0,[]⟩ := ⟨rfl,rfl,Nat.zero_add _,rfl,by simp,rfl⟩
  obtain ⟨t,hloop,hm,hr⟩ := transferDataLoop_moved hk hc hs (Int.le_refl 0) (by omega) 0 _ h0
  have hdone : t.done = v.iovLen := by
    have h := hm.left
    omega
  refine ⟨t,hloop,hm.res,?_⟩
  simp only [transferData, hloop, hm.res, hm.position, hdone, ne_eq, not_true_eq_false, if_false,
    Int.zero_add]

/-- A chunk and a page from device address 0 on: the second chunk goes to another
address on each path. -/
theorem bothPaths_agree_not : ¬ ∀ (dir : Bool) (m : AlignMode) (senv : Nat → ChunkEnv)
    (aenv : Nat → Platform) (iocb : Kiocb) (v : Iovec) (pos pos' : Int) (built : List XdmaTransfer)
    (q q' : List Submission) (iov : List Iovec), 1 ≤ v.iovLen →
    checkTransferAlign m v.iovBase v.iovLen pos true = 0 →
    transferData dir m.nonIncrAddr senv v.iovBase v.iovLen pos = .ok (v.iovLen,pos',built) →
    sgAioReadWrite aenv m ⟨iocb,pos,dir⟩ [v] = .ok (-eIocbQueued,q) →
    sgAioReadWrite aenv m ⟨iocb,pos,dir⟩ iov = .ok (-eIocbQueued,q') →
    syncCalls ⟨dir,m.nonIncrAddr,false,true⟩ senv 0 ⟨0,0,v.iovBase,v.iovLen,pos,[]⟩ =
        q.map Submission.call ∧
      (m.nonIncrAddr = false → Contiguous (segmentStarts iov q')) := by
  intro hall
  let v : Iovec := ⟨0x10000,xdmaTransferMaxBytes+4096,by decide⟩
  obtain ⟨t,hloop,hres,hsync⟩ := transferData_completing v (by decide) (by decide)
  obtain ⟨q,hq⟩ := asyncSegments_returns identityKernel_maps ⟨1,0,true⟩ 0 [v] (by decide)
  have hcheck : checkTransferAlign ⟨false,false,⟨1,1⟩⟩ v.iovBase v.iovLen 0 true = 0 := by decide
  have hsame := (hall true ⟨false,false,⟨1,1⟩⟩ completingEnv identityKernel 1 v 0 _ _ q q [v]
    (by decide) hcheck hsync hq hq).1
  have hmore : 0 < (⟨0,0,v.iovBase,v.iovLen,0,[]⟩ : DataState).remaining := by decide
  have hiff := calls_eq_iff rfl rfl rfl hmore hloop hres (sgAioReadWrite_one hq)
  exact absurd (hiff.mp hsame).2 (by decide)

theorem bothPaths_agree_page : ∃ built q,
    transferData true false completingEnv 0x10000 4096 0 = .ok ((4096 : Nat),(4096 : Nat),built) ∧
    sgAioReadWrite identityKernel ⟨false,false,⟨1,1⟩⟩ ⟨1,0,true⟩ [⟨0x10000,4096,by decide⟩] =
      .ok (-eIocbQueued,q) ∧
    syncCalls ⟨true,false,false,true⟩ completingEnv 0 ⟨0,0,0x10000,4096,0,[]⟩ =
      q.map Submission.call := by
  let v : Iovec := ⟨0x10000,4096,by decide⟩
  obtain ⟨t,_,_,hsync⟩ := transferData_completing v (by decide) (by decide)
  obtain ⟨q,hq⟩ := asyncSegments_returns identityKernel_maps ⟨1,0,true⟩ 0 [v] (by decide)
  have hiff := (bothPaths_agree (m := ⟨false,false,⟨1,1⟩⟩) (by decide) hsync hq hq).1
  exact ⟨t.built,q,hsync,hq,hiff.mpr ⟨rfl,by decide⟩⟩

end DmaCamera
