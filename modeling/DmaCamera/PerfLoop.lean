import DmaCamera.DescriptorAlignment
import DmaCamera.Stream
set_option autoImplicit false

namespace DmaCamera
open Loops

def perfBufferSize (sizeInDesc : Nat) : Nat :=
  if sizeInDesc*128 > perfMaxSize then perfMaxSize else sizeInDesc*128

/-- A byte of the buffer, if there is one; its allocation is not checked. -/
def InPerfBuffer (env : PerfEnv) (allocated : Bool) (sizeInDesc : Nat) (a : U64) : Prop :=
  allocated = true ∧ env.bufferBus.toNat ≤ a.toNat ∧
    a.toNat < env.bufferBus.toNat+perfBufferSize sizeInDesc

structure TestLoop (env : PerfEnv) (allocated : Bool) (sizeInDesc : Nat) (x : XdmaTransfer) :
    Prop where
  nonempty : 1 ≤ x.descNum
  follow : ∀ memory : U64 → XdmaDesc, (∀ i < x.descNum, memory (x.busAt i) = x.descVirt i) →
    ∀ n, (fun addr => (memory addr).next)^[n] x.descBus = x.busAt (n % x.descNum)
  length : ∀ i < x.descNum,
    1 ≤ (x.descVirt i).bytes.toNat ∧ (x.descVirt i).bytes.toNat ≤ xdmaDescMaxBytes
  inside : ∀ i < x.descNum, ∀ k < (x.descVirt i).bytes.toNat,
    InPerfBuffer env allocated sizeInDesc ((x.descVirt i).hostAddr x.dirToDev+BitVec.ofNat 64 k)

def perfStartsOrFails (p : Params) (s : StreamEngine) (request : XdmaPerformanceIoctl)
    (env : PerfEnv) (allocated : Bool) : Prop :=
  ∃ s' rc, ioctlDoPerfStart p s request env = .ok (s',rc) ∧ (rc < 0 ∨ ∃ t,
    s'.engine.transferList = s.engine.transferList ++ [t] ∧
      TestLoop env allocated request.transferSize.toNat (s'.driver.transfers t))

structure PerfGranted (s : StreamEngine) (request : XdmaPerformanceIoctl) (env : PerfEnv)
    (allocated : Bool) : Prop where
  size : 1 ≤ request.transferSize.toNat ∧ request.transferSize.toNat ≤ xdmaDescMaxBytes
  accepts : s.engine.shutdown.has engineShutdownRequest = false
  buffer : allocated = true
  transfer : env.kzallocTransfer = true
  descriptors : env.pciAllocConsistent.isSome = true

section transfer

variable {dir : Bool} {size : Nat} {env : PerfEnv} {x : XdmaTransfer}

theorem perfDescNum_pos (h : size ≤ perfMaxSize) : 1 ≤ perfDescNum size := by
  unfold perfDescNum
  split
  · rename_i hlarge
    exact Nat.div_pos h (by omega)
  · decide

theorem perfDescNum_fits : perfDescNum size*size ≤ perfBufferSize size := by
  unfold perfDescNum perfBufferSize
  split
  · exact Nat.div_mul_le_self _ _
  · exact Nat.le_of_eq (Nat.mul_comm _ _)

structure TestTransfer (dir : Bool) (size : Nat) (env : PerfEnv) (x : XdmaTransfer) : Prop where
  dirToDev : x.dirToDev = dir
  descNum : x.descNum = perfDescNum size
  next : ∀ i < x.descNum, (x.descVirt i).next = x.busAt ((i+1) % x.descNum)
  bytes : ∀ i < x.descNum, (x.descVirt i).bytes = BitVec.ofNat 32 size
  hostAddr : ∀ i < x.descNum,
    (x.descVirt i).hostAddr x.dirToDev = env.bufferBus+BitVec.ofNat 64 (size*i)

structure FilledDesc (dir : Bool) (host : U64) (size : Nat) (next : U64) (desc : XdmaDesc) : Prop where
  next : desc.next = next
  bytes : desc.bytes = BitVec.ofNat 32 size
  hostAddr : desc.hostAddr dir = host

theorem xdmaDescSet_filled (desc : XdmaDesc) (host : U64) :
    FilledDesc dir host size desc.next (xdmaDescSet desc host 0 size dir) := by
  refine ⟨xdmaDescSet_next .., xdmaDescSet_bytes ..,?_⟩
  cases dir <;> simp [XdmaDesc.hostAddr]

theorem FilledDesc.link {host next : U64} {desc : XdmaDesc} (h : FilledDesc dir host size next desc)
    (bus : U64) : FilledDesc dir host size bus (xdmaDescLink desc (some bus)) :=
  ⟨xdmaDescLink_some_next desc bus,h.bytes,h.hostAddr⟩

theorem performanceTransfer_test (h : performanceTransfer dir size env = .ok x) :
    TestTransfer dir size env x := by
  unfold performanceTransfer at h
  split at h
  · cases h
  · rename_i hguard
    simp only [Bool.or_eq_true, decide_eq_true_eq, not_or, Nat.not_lt] at hguard
    dsimp only at h
    split at h
    · cases h
    · cases h
    · rename_i bus d halloc
      have hnum : 1 ≤ perfDescNum size := perfDescNum_pos hguard.1
      obtain ⟨_,hd⟩ := xdmaDescAlloc_some halloc
      obtain ⟨d₁,hd₁⟩ : ∃ d₁, d₁ = forLoop (perfDescNum size) (fun i d => Function.update d i
          (xdmaDescSet (d i) (env.bufferBus+BitVec.ofNat 64 (size*i)) 0 size dir)) d := ⟨_,rfl⟩
      obtain ⟨d₂,hd₂⟩ : ∃ d₂, d₂ = Function.update d₁ 0 (xdmaDescControl (d₁ 0) 0) := ⟨_,rfl⟩
      have hset : ∀ i < perfDescNum size, FilledDesc dir (env.bufferBus+BitVec.ofNat 64 (size*i))
          size (d i).next (d₂ i) := by
        intro i hi
        have hfilled : FilledDesc dir (env.bufferBus+BitVec.ofNat 64 (size*i)) size (d i).next
            (d₁ i) := by
          rw [hd₁, forLoop_update (perfDescNum size) fun i e =>
            xdmaDescSet e (env.bufferBus+BitVec.ofNat 64 (size*i)) 0 size dir, if_pos hi]
          exact xdmaDescSet_filled _ _
        by_cases h0 : i = 0
        · subst h0
          rw [hd₂, Function.update_self]
          exact ⟨hfilled.next,hfilled.bytes,hfilled.hostAddr⟩
        · rw [hd₂, Function.update_of_ne h0]
          exact hfilled
      have hall : ∀ i < perfDescNum size, FilledDesc dir (env.bufferBus+BitVec.ofNat 64 (size*i))
          size (bus+BitVec.ofNat 64 (32*((i+1) % perfDescNum size))) (x.descVirt i) := by
        intro i hi
        rw [← hd₁, ← hd₂] at h
        cases h
        by_cases hlast : i = perfDescNum size-1
        · have hmod : (i+1) % perfDescNum size = 0 := by
            rw [hlast, Nat.sub_add_cancel hnum, Nat.mod_self]
          have hlinked := (hset i hi).link bus
          simp only [← hlast, Function.update_self]
          rw [hmod]
          simpa using hlinked
        · have hmod : (i+1) % perfDescNum size = i+1 := Nat.mod_eq_of_lt (by omega)
          have hnext : (d i).next = bus+BitVec.ofNat 64 (32*(i+1)) :=
            (hd.chained i (by omega)).next
          simp only [Function.update_of_ne hlast]
          rw [hmod, ← hnext]
          exact hset i hi
      cases h
      exact ⟨rfl,rfl,fun i hi => (hall i hi).next,fun i hi => (hall i hi).bytes,
        fun i hi => (hall i hi).hostAddr⟩

theorem performanceTransfer_ok_iff : (∃ x, performanceTransfer dir size env = .ok x) ↔
    size ≤ perfMaxSize ∧ env.kzallocTransfer = true ∧ env.pciAllocConsistent.isSome = true := by
  unfold performanceTransfer
  by_cases hguard : (decide (size > perfMaxSize) || !env.kzallocTransfer) = true
  · rw [if_pos hguard]
    simp only [Bool.or_eq_true, decide_eq_true_eq, Bool.not_eq_true'] at hguard
    constructor
    · rintro ⟨x,h⟩
      cases h
    · rintro ⟨hsize,hkz,_⟩
      rcases hguard with hlarge | hno
      · omega
      · simp [hkz] at hno
  · rw [if_neg hguard]
    simp only [Bool.or_eq_true, decide_eq_true_eq, Bool.not_eq_true', not_or, Nat.not_lt,
      Bool.not_eq_false] at hguard
    have hnum := perfDescNum_pos hguard.1
    simp only [hguard.1, hguard.2, true_and]
    cases halloc : env.pciAllocConsistent with
    | none => simp [xdmaDescAlloc, Nat.not_lt.mpr hnum]
    | some p =>
      obtain ⟨d,hd,_⟩ := xdmaDescAlloc_spec hnum p.1 p.2
      simp [hd]

theorem TestTransfer.inState (h : TestTransfer dir size env x) (state : TransferState) :
    TestTransfer dir size env (x.inState state) :=
  ⟨h.dirToDev,h.descNum,h.next,h.bytes,h.hostAddr⟩

theorem TestTransfer.follow (h : TestTransfer dir size env x) (hnum : 1 ≤ x.descNum)
    {memory : U64 → XdmaDesc} (hm : ∀ i < x.descNum, memory (x.busAt i) = x.descVirt i) (n : Nat) :
    (fun addr => (memory addr).next)^[n] x.descBus = x.busAt (n % x.descNum) := by
  rw [← busAt_zero x]
  refine Circular.iterate_round hnum (fun i hi => ?_) n
  rw [hm i hi, h.next i hi]

/-- The loop is as it should be for sizes that fit a descriptor, in a buffer that there is. -/
theorem TestTransfer.loop_iff {allocated : Bool} (h : TestTransfer dir size env x)
    (hmax : size ≤ perfMaxSize)
    (hwrap : allocated = true → env.bufferBus.toNat+perfBufferSize size ≤ 2^64) :
    TestLoop env allocated size x ↔ (1 ≤ size ∧ size ≤ xdmaDescMaxBytes) ∧ allocated = true := by
  have hpos : 1 ≤ x.descNum := h.descNum ▸ perfDescNum_pos hmax
  have hword : (BitVec.ofNat 32 size).toNat = size := by
    apply Nat.mod_eq_of_lt
    unfold perfMaxSize at hmax
    omega
  constructor
  · intro hloop
    have hlen := hloop.length 0 hpos
    have hin := hloop.inside 0 hpos
    rw [h.bytes 0 hpos, hword] at hlen hin
    exact ⟨hlen,(hin 0 hlen.1).1⟩
  · rintro ⟨hsize,halloc⟩
    refine ⟨hpos,fun memory hm n => h.follow hpos hm n,fun i hi => ?_,fun i hi k hk => ?_⟩
    · rw [h.bytes i hi, hword]
      exact hsize
    · rw [h.bytes i hi, hword] at hk
      have hfits := @perfDescNum_fits size
      have hblock : size*i+size ≤ perfDescNum size*size := by
        rw [h.descNum] at hi
        calc size*i+size = (i+1)*size := by rw [Nat.succ_mul, Nat.mul_comm]
          _ ≤ perfDescNum size*size := Nat.mul_le_mul_right size hi
      have hend := hwrap halloc
      have haddr : ((x.descVirt i).hostAddr x.dirToDev+BitVec.ofNat 64 k).toNat =
          env.bufferBus.toNat+size*i+k := by
        rw [h.hostAddr i hi]
        simp only [BitVec.toNat_add, BitVec.toNat_ofNat]
        omega
      rw [InPerfBuffer, haddr]
      exact ⟨halloc,by omega,by omega⟩

end transfer

section start

variable {p : Params} {s : StreamEngine} {request : XdmaPerformanceIoctl} {env : PerfEnv}

theorem ioctlDoPerfStart_refused (h : perfSubmits s request env = false) :
    ∃ s' rc, ioctlDoPerfStart p s request env = .ok (s',rc) ∧ rc < 0 := by
  unfold ioctlDoPerfStart
  split
  · exact ⟨_,_,rfl,by decide⟩
  · rename_i hperf
    split
    · exact ⟨_,_,rfl,by decide⟩
    · rename_i halloc
      dsimp only
      split
      · exact ⟨_,_,rfl,by decide⟩
      · rename_i hversion
        simp only [perfSubmits] at h
        simp_all

theorem ioctlDoPerfStart_submits (h : perfSubmits s request env = true) :
    ioctlDoPerfStart p s request env =
      (performanceTransfer s.engine.dirToDev request.transferSize.toNat env).bind fun x =>
        ((s.withEngine { s.engine with xdmaPerf := some request }).submit p x).map fun s => (s,0) := by
  simp only [perfSubmits, Bool.and_eq_true, beq_iff_eq] at h
  obtain ⟨⟨hperf,halloc⟩,hversion⟩ := h
  have hnone : ¬ s.engine.xdmaPerf.isSome = true := by
    rw [Option.isNone_iff_eq_none] at hperf
    simp [hperf]
  have hdir : (s.withEngine { s.engine with xdmaPerf := some request }).engine.dirToDev =
      s.engine.dirToDev := rfl
  unfold ioctlDoPerfStart
  rw [if_neg hnone, if_neg (by simp [halloc])]
  dsimp only
  rw [if_neg (not_not.mpr hversion), hdir]
  cases performanceTransfer s.engine.dirToDev request.transferSize.toNat env <;> rfl

theorem submit_cases (p : Params) (s : StreamEngine) {x : XdmaTransfer} (hx : 1 ≤ x.descNum) :
    ∃ s', s.submit p x = .ok s' ∧
      ((s.engine.shutdown.has engineShutdownRequest = true ∧
          s'.engine.transferList = s.engine.transferList) ∨
        (s.engine.shutdown.has engineShutdownRequest = false ∧
          s'.engine.transferList = s.engine.transferList ++ [s.created] ∧
          s'.driver.transfers s.created = x.inState .submitted)) := by
  have hnew : (s.adopt x).driver.transfers s.created = x := Function.update_self ..
  have hnum : ((s.adopt x).driver.transfers s.created).descNum ≠ 0 := by
    rw [hnew]
    exact Nat.ne_of_gt hx
  cases hshut : s.engine.shutdown.has engineShutdownRequest with
  | true =>
    have hd : (s.adopt x).driver.engine.shutdown.has engineShutdownRequest = true := hshut
    refine ⟨s.adopt x,?_,Or.inl ⟨rfl,rfl⟩⟩
    rw [StreamEngine.submit, transferQueue, if_neg hnum, if_pos hd]
    rfl
  | false =>
    obtain ⟨d,hq,hqueued⟩ := transferQueue_spec (p := p) hnum hshut
    refine ⟨{ s.adopt x with driver := d },?_,Or.inr ⟨rfl,hqueued.same.transferList,?_⟩⟩
    · rw [StreamEngine.submit, hq]
      rfl
    · have hset : d.transfers s.created = settle (s.adopt x).driver.transfers [s.created]
          .submitted s.created := congrFun hqueued.transfers s.created
      rw [settle_mem (List.mem_singleton.mpr rfl), hnew] at hset
      exact hset

/-- PERF_START does what it should exactly if it is refused, or granted all it asks for. -/
theorem ioctlDoPerfStart_loops {allocated : Bool} (p : Params) (s : StreamEngine)
    (hwrap : allocated = true →
      env.bufferBus.toNat+perfBufferSize request.transferSize.toNat ≤ 2^64) :
    perfStartsOrFails p s request env allocated ↔
      perfSubmits s request env = false ∨ PerfGranted s request env allocated := by
  cases hsub : perfSubmits s request env with
  | false =>
    obtain ⟨s',rc,hok,hneg⟩ := ioctlDoPerfStart_refused (p := p) hsub
    exact ⟨fun _ => Or.inl rfl,fun _ => ⟨s',rc,hok,Or.inl hneg⟩⟩
  | true =>
    simp only [Bool.true_eq_false, false_or]
    have hrun := ioctlDoPerfStart_submits (p := p) hsub
    cases hx : performanceTransfer s.engine.dirToDev request.transferSize.toNat env with
    | error f =>
      rw [hx] at hrun
      constructor
      · rintro ⟨s',rc,hok,_⟩
        rw [hrun] at hok
        cases hok
      · intro hg
        have hsize : request.transferSize.toNat ≤ perfMaxSize :=
          Nat.le_trans hg.size.2 (by decide)
        obtain ⟨x,hx'⟩ := (@performanceTransfer_ok_iff s.engine.dirToDev _ _).mpr
          ⟨hsize,hg.transfer,hg.descriptors⟩
        rw [hx] at hx'
        cases hx'
    | ok x =>
      obtain ⟨hmax,htransfer,hdescs⟩ := performanceTransfer_ok_iff.mp ⟨x,hx⟩
      have htest := performanceTransfer_test hx
      have hpos : 1 ≤ x.descNum := htest.descNum ▸ perfDescNum_pos hmax
      obtain ⟨s',hsubmit,hcases⟩ := submit_cases p
        (s.withEngine { s.engine with xdmaPerf := some request }) hpos
      rw [hx] at hrun
      have hok : ioctlDoPerfStart p s request env = .ok (s',0) := by
        rw [hrun]
        simp only [Except.bind, hsubmit]
        rfl
      have hloop := (htest.inState .submitted).loop_iff hmax hwrap
      rcases hcases with ⟨hshut,hlist⟩ | ⟨hshut,hlist,hnew⟩
      · constructor
        · rintro ⟨s₁,rc,hok₁,hend⟩
          rw [hok] at hok₁
          cases hok₁
          rcases hend with hneg | ⟨t,ht,_⟩
          · exact absurd hneg (by decide)
          · have hsame : s.engine.transferList = s.engine.transferList ++ [t] := hlist.symm.trans ht
            simp at hsame
        · intro hg
          have hno : s.engine.shutdown.has engineShutdownRequest = true := hshut
          rw [hg.accepts] at hno
          cases hno
      · constructor
        · rintro ⟨s₁,rc,hok₁,hend⟩
          rw [hok] at hok₁
          cases hok₁
          rcases hend with hneg | ⟨t,ht,htl⟩
          · exact absurd hneg (by decide)
          · have hsame : s.engine.transferList ++ [t] = s.engine.transferList ++ [s.created] :=
              ht.symm.trans hlist
            have hid : t = s.created := by simpa using hsame
            rw [hid] at htl
            have hnew' : s'.driver.transfers s.created = x.inState .submitted := hnew
            rw [hnew', hloop] at htl
            exact ⟨htl.1,hshut,htl.2,htransfer,hdescs⟩
        · intro hg
          refine ⟨s',0,hok,Or.inr ⟨s.created,hlist,?_⟩⟩
          have hnew' : s'.driver.transfers s.created = x.inState .submitted := hnew
          rw [hnew', hloop]
          exact ⟨hg.size,hg.buffer⟩

end start

theorem ioctlDoPerfStart_loops_page : perfStartsOrFails ⟨false,false⟩ (.fresh ⟨false,false⟩)
    ⟨perfVersion,4096,0,0,0,0,0⟩ .ample true :=
  (@ioctlDoPerfStart_loops ⟨perfVersion,4096,0,0,0,0,0⟩ .ample true ⟨false,false⟩
    (.fresh ⟨false,false⟩) (fun _ => by decide)).mpr
    (Or.inr ⟨by decide,by decide,rfl,rfl,rfl⟩)

theorem oversizeTest_bug : ioctlDoPerfStart ⟨false,false⟩ (.fresh ⟨false,false⟩)
    ⟨perfVersion,0x400001,0,0,0,0,0⟩ .ample = .error (.bug .xdmaPerformanceSubmit) := rfl

end DmaCamera
