import DmaCamera.AsyncRequest
import DmaCamera.Threads
set_option autoImplicit false

namespace DmaCamera
open Loops Runs

/-- The flag is what `get_user` reads, if it can, and the bit is set or cleared in
the control register; the alignments are read again in any case. -/
def ioctlDoAddrmodeSet (e : Engine) (dst : Option U32) (alignments : U32) :
    Engine × Alignment × Int :=
  match dst with
  | none => (e,engineAlignments alignments,-eFault)
  | some dst =>
    let control := if dst != 0 then e.regs.control ||| xdmaCtrlNonIncrAddr
      else e.regs.control &&& ~~~xdmaCtrlNonIncrAddr
    ({ e with nonIncrAddr := dst != 0, regs := { e.regs with control := control } },
      engineAlignments alignments,0)

def XdmaDesc.deviceAddr (desc : XdmaDesc) (dirToDev : Bool) : U64 :=
  if dirToDev then desc.dst else desc.src

def XdmaTransfer.At (x : XdmaTransfer) (addr : U64) : Prop :=
  ∀ j < x.descNum, (x.descVirt j).deviceAddr x.dirToDev = addr

structure WordSystem where
  data : DataSystem
  words : List U32

def WordSystem.after (s : WordSystem) (t : DataSystem) : WordSystem where
  data := t
  words := s.words ++
    if t.driver.started.length = s.data.driver.started.length then []
    else [t.driver.engine.regs.control]

def wordNext (p : Params) (s : WordSystem) (op : DataOp) : Option WordSystem :=
  (dataNext p s.data op).map s.after

/-- An idle engine that has served any number of transfers, set to the
non-incremental mode, and calls that have not begun; `count` is an `ssize_t`. -/
structure FixedStart (s : DataSystem) : Prop where
  sound : Sound s.driver
  notCyclic : s.driver.engine.rxTransferCyclic = none
  idle : s.driver.engine.running = false
  mode : ∃ e dst alignments, dst ≠ 0 ∧
    (ioctlDoAddrmodeSet e (some dst) alignments).1 = s.driver.engine
  callers : ∀ i, ∃ addr count pos, count < 2^63 ∧ s.callers i = ⟨.loop,⟨0,0,addr,count,pos,[]⟩⟩

/-- All descriptors of call `i` carry the position it began at, and all control
words have the bit. -/
structure FixedAddress (s₀ : DataSystem) (s : WordSystem) : Prop where
  built : ∀ i, ∀ x ∈ (s.data.callers i).data.built,
    x.At (BitVec.ofInt 64 (s₀.callers i).data.pos)
  words : ∀ w ∈ s.words, w.has xdmaCtrlNonIncrAddr = true

/-- No call builds a transfer once it has counted a chunk, and none is queued
in poll mode. -/
def oneChunk (p : Params) (s : WordSystem) : DataOp → Prop
  | .create i kernel => ∀ data, s.data.callers i = ⟨.loop,data⟩ → data.res = 0 →
      0 < data.remaining → kernel.kzallocTransfer = true → data.done = 0
  | .queue _ => p.pollMode = false
  | _ => True

theorem transferBlocks_at {m : BuildMode} (hm : (m.userspace && m.nonIncrAddr) = true)
    (es : List SgEntry) (b : Block) : ∀ b' ∈ transferBlocks m es b, b'.epAddr = b.epAddr := by
  fun_induction transferBlocks m es b with
  | case1 b => simp
  | case2 entry b =>
    intro b' hb
    rw [List.mem_singleton.mp hb]
    rfl
  | case3 entry next rest b b₁ hnew ih =>
    have hep : (b₁.advance m next).epAddr = b.epAddr := by
      simp only [Block.advance, hm, if_true]
      rfl
    intro b' hb
    rcases List.mem_cons.mp hb with rfl | hb
    · rfl
    · exact (ih b' hb).trans hep
  | case4 entry next rest b b₁ hnew ih => exact ih

theorem Block.write_deviceAddr (b : Block) (dir : Bool) (desc : XdmaDesc) :
    (b.write dir desc).deviceAddr dir = b.epAddr := by
  cases dir <;> simp [Block.write, XdmaDesc.deviceAddr]

theorem filledIn_deviceAddr (m : BuildMode) (sgm : SgMapping) (nents : Nat) (bus : U64)
    (d : Nat → XdmaDesc) (last i : Nat) (dir : Bool) :
    ((filledIn m sgm nents bus d last).descVirt i).deviceAddr dir = (d i).deviceAddr dir := by
  have hadj : ∀ e : Nat → XdmaDesc,
      (fillAdjacent (last+1) e i).deviceAddr dir = (e i).deviceAddr dir := by
    intro e
    rw [fillAdjacent, forLoop_update (last+1) fun i e => xdmaDescAdjacent e (last+1-i-1)]
    split <;> rfl
  simp only [filledIn, hadj]
  by_cases hi : i = last
  · rw [hi, transferPerf, Function.update_self]
    rfl
  · rw [transferPerf, Function.update_of_ne hi]

theorem transferCreate_at {k : Platform} {start cnt : Nat} {ep : U64} {m : BuildMode}
    {x : XdmaTransfer} (hm : (m.userspace && m.nonIncrAddr) = true)
    (h : transferCreate k start cnt ep m = .ok (some x)) : x.At ep := by
  obtain ⟨sgm,nents,bus,d,d',last,rfl,_,_,_,_,sgl,hbuild⟩ := transferCreate_some h
  intro j hj
  obtain ⟨b,hb,hj⟩ := transferBuild_written hbuild (Nat.le_of_lt_succ hj)
  rw [filledIn_deviceAddr]
  simp only [filledIn]
  rw [hj, Block.write_deviceAddr, transferBlocks_at hm _ _ b hb]
  rfl

theorem XdmaTransfer.At.unique {x : XdmaTransfer} {a b : U64} (h : x.At a) (hb : x.At b)
    (hnum : 1 ≤ x.descNum) : a = b := (h 0 hnum).symm.trans (hb 0 hnum)

theorem markLast_at (x : XdmaTransfer) (s : DataState) (a : U64) :
    (markLast x s).At a ↔ x.At a := by
  unfold markLast
  split <;> exact Iff.rfl

theorem engineStartModeConfig_word (p : Params) (e : Engine) :
    (engineStartModeConfig p e).regs.control.has xdmaCtrlNonIncrAddr =
      (!p.pollMode && e.nonIncrAddr) := by
  simp only [engineStartModeConfig]
  generalize (e.streaming && !e.dirToDev) = streamIn
  generalize e.xdmaPerf.isSome = perf
  generalize e.nonIncrAddr = nonIncr
  generalize p.pollMode = poll
  revert streamIn perf nonIncr poll
  decide

structure Starts (p : Params) (d d' : Driver) : Prop where
  mode : d'.engine.nonIncrAddr = d.engine.nonIncrAddr
  started : d'.started = d.started ∨ (∃ t, d'.started = d.started ++ [t]) ∧
    d'.engine.regs.control.has xdmaCtrlNonIncrAddr = (!p.pollMode && d.engine.nonIncrAddr)

theorem Starts.after {p : Params} {d d₁ d' : Driver} (h : Starts p d₁ d')
    (hmode : d₁.engine.nonIncrAddr = d.engine.nonIncrAddr) (hstarted : d₁.started = d.started) :
    Starts p d d' := by
  refine ⟨h.mode.trans hmode,?_⟩
  rw [← hmode, ← hstarted]
  exact h.started

theorem engineStart_starts {p : Params} {d d' : Driver} (h : engineStart p d = .ok d') :
    Starts p d d' := by
  unfold engineStart at h
  split at h
  · cases h
  · split at h
    · cases h
    · rename_i t rest hlist
      cases h
      exact ⟨rfl,Or.inr ⟨⟨t,rfl⟩,engineStartModeConfig_word p _⟩⟩

theorem transferQueue_starts {p : Params} {d d' : Driver} {t : TransferId} {rc : Int}
    (h : transferQueue p d t = .ok (d',rc)) : Starts p d d' := by
  unfold transferQueue at h
  simp only at h
  split at h
  · cases h
  · split at h
    · cases h
      exact ⟨rfl,Or.inl rfl⟩
    · split at h
      · split at h
        · cases h
        · rename_i d₁ hstart
          cases h
          exact (engineStart_starts hstart).after rfl rfl
      · cases h
        exact ⟨rfl,Or.inl rfl⟩

theorem engineServiceResume_starts {p : Params} {d d' : Driver}
    (h : engineServiceResume p d = .ok d') : Starts p d d' := by
  unfold engineServiceResume at h
  split at h
  · split at h
    · cases h
      exact ⟨rfl,Or.inl rfl⟩
    · split at h
      · exact engineStart_starts h
      · cases h
        exact ⟨rfl,Or.inl rfl⟩
  · cases h
    exact ⟨rfl,Or.inl rfl⟩

def SameStarts (d d' : Driver) : Prop :=
  d'.engine.nonIncrAddr = d.engine.nonIncrAddr ∧ d'.started = d.started

theorem SameStarts.trans {d₁ d₂ d₃ : Driver} (h : SameStarts d₁ d₂) (h' : SameStarts d₂ d₃) :
    SameStarts d₁ d₃ := ⟨h'.1.trans h.1,h'.2.trans h.2⟩

theorem retire_starts (d : Driver) (t : TransferId) (state : TransferState) :
    SameStarts d (retire d t state) := by
  unfold retire engineTransferCompletion
  split <;> exact ⟨rfl,rfl⟩

theorem serviceListLoop_starts (ts : List TransferId) (d : Driver) (n : Nat) :
    SameStarts d (serviceListLoop ts d n).1 := by
  induction ts generalizing d n with
  | nil => exact ⟨rfl,rfl⟩
  | cons t rest ih =>
    unfold serviceListLoop
    split
    · exact (retire_starts d t .completed).trans (ih _ _)
    · exact ⟨rfl,rfl⟩

theorem engineServiceFinalTransfer_starts {p : Params} {d d' : Driver} {transfer : Option TransferId}
    {n : Nat} (h : engineServiceFinalTransfer p d transfer n = .ok d') : SameStarts d d' := by
  unfold engineServiceFinalTransfer at h
  split at h
  · cases h
  · split at h
    · cases h
      exact ⟨rfl,rfl⟩
    · cases h
      exact retire_starts _ _ _

theorem servicePrepare_mode (p : Params) (e : Engine) (wb : U32) (reads : RegisterReads) :
    (servicePrepare p e wb reads).nonIncrAddr = e.nonIncrAddr := by
  unfold servicePrepare
  simp only
  repeat' split
  all_goals rfl

theorem engineService_starts {p : Params} {d d' : Driver} {wb : U32} {reads : RegisterReads}
    {rc : Int} (h : engineService p d wb reads = .ok (d',rc)) : Starts p d d' := by
  unfold engineService at h
  simp only at h
  split at h
  · split at h <;> cases h <;> exact ⟨rfl,Or.inl rfl⟩
  · split at h
    · cases h
    · rename_i d₁ transfer n hlist
      have h₁ : SameStarts d d₁ := by
        unfold engineServiceTransferList at hlist
        split at hlist
        · cases hlist
        · have hd₁ : _ = d₁ := congrArg Prod.fst (Except.ok.inj hlist)
          rw [← hd₁]
          refine SameStarts.trans ?_ (serviceListLoop_starts _ _ _)
          exact ⟨servicePrepare_mode p d.engine wb reads,rfl⟩
      split at h
      · cases h
      · rename_i d₂ hfinal
        have h₂ := h₁.trans (engineServiceFinalTransfer_starts hfinal)
        split at h
        · cases h
        · rename_i d₃ hresume
          cases h
          have hclear : (clearWriteback p d₂.engine).nonIncrAddr = d₂.engine.nonIncrAddr := by
            unfold clearWriteback
            split <;> rfl
          exact (engineServiceResume_starts hresume).after (hclear.trans h₂.1) h₂.2

inductive DriverStep (p : Params) (op : DataOp) (d d' : Driver) : Prop where
  | queue (i : Nat) (x : PlainTransfer) : op = .queue i → opStep p d (.queue x) d' →
    DriverStep p op d d'
  | service (wb : U32) (reads : RegisterReads) : opStep p d (.service wb reads) d' →
    DriverStep p op d d'
  | leave (t : TransferId) (rc : Int) (status : U32) : d' = leaveTransfer d t rc status →
    DriverStep p op d d'
  | writeBack (value : U32) :
    d' = { d with engine := { d.engine with pollModeWriteback := value } } → DriverStep p op d d'
  | same : d' = d → DriverStep p op d d'

theorem createNext_driver {s s' : DataSystem} {i : Nat} {data : DataState} {kernel : Platform}
    (h : createNext s i data kernel = some s') : s'.driver = s.driver := by
  unfold createNext at h
  split at h
  · split at h
    · cases h
    · cases h
      rfl
    · obtain ⟨x',_,rfl⟩ := Option.map_eq_some_iff.mp h
      rfl
  · cases h
    rfl

theorem dataNext_driver {p : Params} {s s' : DataSystem} {op : DataOp}
    (hc : s.driver.engine.rxTransferCyclic = none) (h : dataNext p s op = some s') :
    DriverStep p op s.driver s'.driver := by
  cases op with
  | create i kernel =>
    simp only [dataNext] at h
    split at h
    · exact .same (createNext_driver h)
    · cases h
  | queue i =>
    simp only [dataNext] at h
    split at h
    · split at h
      · split at h
        · rename_i d rc hcall
          cases h
          exact .queue i _ rfl ⟨rc,hcall⟩
        · cases h
      · cases h
    · cases h
  | monitor i =>
    simp only [dataNext] at h
    split at h
    · split at h
      · cases h
        exact .same rfl
      · cases h
    · cases h
  | poll i timeout =>
    simp only [dataNext] at h
    split at h
    · obtain ⟨descWb,_,rfl⟩ := Option.map_eq_some_iff.mp h
      exact .same rfl
    · cases h
  | service i o =>
    simp only [dataNext] at h
    split at h
    · split at h
      · split at h
        · rename_i d rc hcall
          cases h
          exact .service _ _ ⟨rc,engineServiceLocked_ok hc hcall⟩
        · cases h
      · cases h
    · cases h
  | wait i signal =>
    simp only [dataNext] at h
    split at h
    · split at h
      · cases h
        exact .same rfl
      · cases h
    · cases h
  | account i status =>
    simp only [dataNext] at h
    split at h
    · rename_i t rc data hpc
      cases h
      exact .leave t rc status rfl
    · cases h
  | writeBack value =>
    cases h
    exact .writeBack value rfl
  | interrupt o =>
    simp only [dataNext] at h
    split at h
    · split at h
      · rename_i d rc hcall
        cases h
        exact .service _ _ ⟨rc,engineServiceLocked_ok hc hcall⟩
      · cases h
    · cases h

theorem leaveTransfer_engine (d : Driver) (t : TransferId) (rc : Int) (status : U32) :
    (leaveTransfer d t rc status).started = d.started ∧
      ((leaveTransfer d t rc status).engine = d.engine ∨
        (leaveTransfer d t rc status).engine = d.engine.statusRead status) := by
  unfold leaveTransfer
  split
  · exact ⟨rfl,Or.inl rfl⟩
  · split
    · exact ⟨rfl,Or.inr rfl⟩
    · exact ⟨rfl,Or.inl rfl⟩

theorem DriverStep.sound {p : Params} {op : DataOp} {d d' : Driver} (h : DriverStep p op d d') (hd : Sound d)
    (hc : d.engine.rxTransferCyclic = none) : Sound d' ∧ d'.engine.rxTransferCyclic = none := by
  cases h with
  | queue i x _ hop => exact ⟨hd.step hop,(opStep_later hd hop).2.trans hc⟩
  | service wb reads hop => exact ⟨hd.step hop,(opStep_later hd hop).2.trans hc⟩
  | leave t rc status h =>
    obtain ⟨hs,_,hrx⟩ := leaveTransfer_sound hd t rc status
    rw [h]
    exact ⟨hs,hrx.trans hc⟩
  | writeBack value h =>
    rw [h]
    exact ⟨⟨hd.order,hd.ids,hd.plain,hd.nonempty,hd.shutdown,hd.listed,hd.settled,hd.known,
      hd.behind,hd.idle,hd.progress,hd.notified⟩,hc⟩
  | same h =>
    rw [h]
    exact ⟨hd,hc⟩

theorem DriverStep.starts {p : Params} {op : DataOp} {d d' : Driver} (h : DriverStep p op d d') :
    Starts p d d' := by
  cases h with
  | queue i x _ hop =>
    obtain ⟨rc,hop⟩ := hop
    exact (transferQueue_starts hop).after rfl rfl
  | service wb reads hop =>
    obtain ⟨rc,hop⟩ := hop
    exact engineService_starts hop
  | leave t rc status h =>
    obtain ⟨hs,he⟩ := leaveTransfer_engine d t rc status
    rw [h]
    refine ⟨?_,Or.inl hs⟩
    rcases he with he | he
    · rw [he]
    · rw [he]
      rfl
  | writeBack value h =>
    rw [h]
    exact ⟨rfl,Or.inl rfl⟩
  | same h =>
    rw [h]
    exact ⟨rfl,Or.inl rfl⟩

theorem opStep_queue_started {p : Params} {d d' : Driver} {x : PlainTransfer} (hd : Sound d)
    (hrun : d.engine.running = false) (h : opStep p d (.queue x) d') : d'.started ≠ d.started := by
  have hq := (opStep_queue hd h).started
  rw [hq]
  simp [Driver.submit, hrun, hd.idle hrun]

theorem DriverStep.idle {p : Params} {op : DataOp} {d d' : Driver} (h : DriverStep p op d d')
    (hd : Sound d) (hrun : d.engine.running = false) :
    (d'.engine.running = false ∧ d'.started = d.started) ∨
      (d'.started ≠ d.started ∧ ∃ i, op = .queue i) := by
  cases h with
  | queue i x hop hstep => exact Or.inr ⟨opStep_queue_started hd hrun hstep,i,hop⟩
  | service wb reads hop =>
    rcases opStep_service hd hop with ⟨_,rfl⟩ | ⟨hr,_⟩
    · exact Or.inl ⟨hrun,rfl⟩
    · cases hrun.symm.trans hr
  | leave t rc status h =>
    obtain ⟨hs,he⟩ := leaveTransfer_engine d t rc status
    rw [h]
    refine Or.inl ⟨?_,hs⟩
    rcases he with he | he
    · rw [he]
      exact hrun
    · rw [he]
      exact hrun
  | writeBack value h =>
    rw [h]
    exact Or.inl ⟨hrun,rfl⟩
  | same h =>
    rw [h]
    exact Or.inl ⟨hrun,rfl⟩

/-- What a step may do to the variables of call `j`. -/
inductive DataStep (s : DataSystem) (op : DataOp) (j : Nat) (data : DataState) : Prop where
  | same : data = (s.callers j).data → DataStep s op j data
  | failed : data = { (s.callers j).data with remaining := 0, res := -eIo } → DataStep s op j data
  | account (res : Int) : data = (s.callers j).data.account res → DataStep s op j data
  | build (kernel : Platform) (x : XdmaTransfer) : op = .create j kernel →
    (s.callers j).pc = .loop → (s.callers j).data.res = 0 → 0 < (s.callers j).data.remaining →
    (s.callers j).data.create kernel (engineMode s.driver.engine) = .ok (some x) →
    data = (s.callers j).data.build x → DataStep s op j data

theorem setCaller_data {s : DataSystem} {d : Driver} {i j : Nat} {c : Caller} {op : DataOp}
    (h : DataStep s op i c.data) : DataStep s op j ((s.setCaller d i c).callers j).data := by
  by_cases hj : j = i
  · subst j
    simpa [DataSystem.setCaller] using h
  · exact .same (by simp [DataSystem.setCaller, hj])

theorem dataNext_data {p : Params} {s s' : DataSystem} {op : DataOp}
    (h : dataNext p s op = some s') (j : Nat) : DataStep s op j (s'.callers j).data := by
  cases op with
  | create i kernel =>
    simp only [dataNext] at h
    split at h
    · rename_i data hpc
      unfold createNext at h
      split at h
      · rename_i hmore
        split at h
        · cases h
        · cases h
          exact setCaller_data (.failed (by rw [hpc]))
        · rename_i x hx
          obtain ⟨x',_,rfl⟩ := Option.map_eq_some_iff.mp h
          exact setCaller_data (.build kernel x rfl (by rw [hpc]) (by rw [hpc]; exact hmore.1)
            (by rw [hpc]; exact hmore.2) (by rw [hpc]; exact hx) (by rw [hpc]))
      · cases h
        exact setCaller_data (.same (by rw [hpc]))
    · cases h
  | account i status =>
    simp only [dataNext] at h
    split at h
    · rename_i t rc data hpc
      cases h
      exact setCaller_data (.account _ (by rw [hpc]))
    · cases h
  | poll i timeout =>
    simp only [dataNext] at h
    split at h
    · rename_i t expected data hpc
      obtain ⟨descWb,_,rfl⟩ := Option.map_eq_some_iff.mp h
      exact setCaller_data (.same (by rw [hpc]))
    · cases h
  | writeBack value =>
    cases h
    exact .same rfl
  | interrupt o =>
    simp only [dataNext] at h
    repeat' split at h
    all_goals cases h
    exact .same rfl
  | _ i =>
    simp only [dataNext] at h
    split at h
    · rename_i hpc
      repeat' split at h
      all_goals cases h
      all_goals exact setCaller_data (.same (by rw [hpc]))
    · cases h

structure Moving (data₀ data : DataState) : Prop where
  pos : BitVec.ofInt 64 data.pos = BitVec.ofInt 64 data₀.pos+BitVec.ofNat 64 data.done
  bound : data.done+data.remaining < 2^63

structure InMode (p : Params) (s₀ : DataSystem) (s : WordSystem) : Prop where
  sound : Sound s.data.driver
  notCyclic : s.data.driver.engine.rxTransferCyclic = none
  mode : s.data.driver.engine.nonIncrAddr = true
  words : ∀ w ∈ s.words, w.has xdmaCtrlNonIncrAddr = !p.pollMode
  idle : s.words = [] → s.data.driver.engine.running = false
  calls : ∀ i, Moving (s₀.callers i).data (s.data.callers i).data

theorem FixedStart.inMode {s : DataSystem} (h : FixedStart s) (p : Params) : InMode p s ⟨s,[]⟩ := by
  obtain ⟨e,dst,alignments,hdst,he⟩ := h.mode
  refine ⟨h.sound,h.notCyclic,?_,by simp,fun _ => h.idle,fun i => ?_⟩
  · rw [← he]
    simpa [ioctlDoAddrmodeSet] using hdst
  · obtain ⟨addr,count,pos,hcount,hi⟩ := h.callers i
    rw [hi]
    exact ⟨by simp,by simpa using hcount⟩

theorem Moving.account {data₀ data : DataState} (h : Moving data₀ data) (res : Int) :
    Moving data₀ (data.account res) := by
  obtain ⟨hpos,hbound⟩ := h
  unfold DataState.account
  split
  · exact ⟨hpos,by simp only; omega⟩
  · have hlen : chunkLength data.remaining ≤ data.remaining := by
      by_cases h0 : 0 < data.remaining
      · exact (chunkLength_bounds h0).2.2
      · have hz : data.remaining = 0 := by omega
        rw [hz]
        decide
    have hmoved : BitVec.ofInt 64 (Int.bmod (data.pos+chunkLength data.remaining) (2^64)) =
        BitVec.ofInt 64 data₀.pos+BitVec.ofNat 64 (data.done+chunkLength data.remaining) := by
      have hof : BitVec.ofInt 64 (Int.bmod (data.pos+chunkLength data.remaining) (2^64)) =
          BitVec.ofInt 64 (data.pos+chunkLength data.remaining) := by
        apply BitVec.eq_of_toInt_eq
        rw [BitVec.toInt_ofInt, BitVec.toInt_ofInt, Int.bmod_bmod]
      rw [hof, BitVec.ofInt_add, BitVec.ofInt_natCast, hpos, BitVec.ofNat_add, BitVec.add_assoc]
    exact ⟨hmoved,by simp only; omega⟩

theorem Moving.step {s : DataSystem} {op : DataOp} {j : Nat} {data₀ data : DataState}
    (h : Moving data₀ (s.callers j).data) (hs : DataStep s op j data) : Moving data₀ data := by
  cases hs with
  | same hd =>
    rw [hd]
    exact h
  | failed hd =>
    have hb := h.bound
    rw [hd]
    exact ⟨h.pos,by simp only; omega⟩
  | account res hd =>
    rw [hd]
    exact h.account res
  | build kernel x _ _ _ _ _ hd =>
    rw [hd]
    exact ⟨h.pos,h.bound⟩

theorem Moving.atStart {data₀ data : DataState} (h : Moving data₀ data) :
    BitVec.ofInt 64 data.pos = BitVec.ofInt 64 data₀.pos ↔ data.done = 0 := by
  have hb := h.bound
  rw [h.pos]
  refine ⟨fun he => ?_,fun h0 => by rw [h0]; simp⟩
  have hz := congrArg BitVec.toNat he
  rw [BitVec.toNat_add, BitVec.toNat_ofNat] at hz
  have := (BitVec.ofInt 64 data₀.pos).isLt
  omega

theorem WordSystem.after_words {p : Params} {s : WordSystem} {t : DataSystem}
    (h : Starts p s.data.driver t.driver) :
    (t.driver.started = s.data.driver.started ∧ (s.after t).words = s.words) ∨
      ∃ w, (s.after t).words = s.words ++ [w] ∧
        w.has xdmaCtrlNonIncrAddr = (!p.pollMode && s.data.driver.engine.nonIncrAddr) := by
  rcases h.started with hs | ⟨⟨v,hs⟩,hw⟩
  · exact Or.inl ⟨hs,by simp [WordSystem.after, hs]⟩
  · exact Or.inr ⟨_,by simp [WordSystem.after, hs],hw⟩

theorem wordNext_step {p : Params} {s s' : WordSystem} {op : DataOp}
    (h : wordNext p s op = some s') : ∃ t, dataNext p s.data op = some t ∧ s' = s.after t := by
  obtain ⟨t,ht,rfl⟩ := Option.map_eq_some_iff.mp h
  exact ⟨t,ht,rfl⟩

theorem InMode.step {p : Params} {s₀ : DataSystem} {s s' : WordSystem} {op : DataOp}
    (h : InMode p s₀ s) (hs : wordNext p s op = some s') : InMode p s₀ s' := by
  obtain ⟨t,ht,rfl⟩ := wordNext_step hs
  have hd := dataNext_driver h.notCyclic ht
  obtain ⟨hsound,hcyclic⟩ := hd.sound h.sound h.notCyclic
  have hmode : t.driver.engine.nonIncrAddr = true := hd.starts.mode.trans h.mode
  refine ⟨hsound,hcyclic,hmode,?_,?_,fun i => (h.calls i).step (dataNext_data ht i)⟩
  · rcases WordSystem.after_words hd.starts with ⟨_,hw⟩ | ⟨w,hw,hbit⟩
    · rw [hw]
      exact h.words
    · rw [hw]
      intro v hv
      rcases List.mem_append.mp hv with hv | hv
      · exact h.words v hv
      · rw [List.mem_singleton.mp hv, hbit, h.mode, Bool.and_true]
  · intro hnil
    rcases WordSystem.after_words hd.starts with ⟨hst,hw⟩ | ⟨w,hw,_⟩
    · rw [hw] at hnil
      exact ((hd.idle h.sound (h.idle hnil)).resolve_right fun hq => hq.1 hst).1
    · rw [hw] at hnil
      simp at hnil

theorem transferCreate_alloc {k : Platform} {start cnt : Nat} {ep : U64} {m : BuildMode}
    {x : Option XdmaTransfer} (h : transferCreate k start cnt ep m = .ok x) :
    x.isSome = k.kzallocTransfer := by
  simp only [transferCreate] at h
  split at h
  · rename_i halloc
    cases h
    simpa using halloc
  · rename_i halloc
    have hk : k.kzallocTransfer = true := by simpa using halloc
    rw [hk]
    repeat' split at h
    all_goals cases h
    all_goals rfl

theorem InMode.created_at {p : Params} {s₀ : DataSystem} {s : WordSystem} {i : Nat}
    {kernel : Platform} {x : XdmaTransfer} (h : InMode p s₀ s)
    (hx : (s.data.callers i).data.create kernel (engineMode s.data.driver.engine) = .ok (some x)) :
    (markLast x (s.data.callers i).data).At (BitVec.ofInt 64 (s₀.callers i).data.pos) ↔
      (s.data.callers i).data.done = 0 := by
  have hm : ((engineMode s.data.driver.engine).userspace &&
      (engineMode s.data.driver.engine).nonIncrAddr) = true := by
    simp [engineMode, h.mode]
  have hat := transferCreate_at hm hx
  have hnum := (transferCreate_unmarked hx).2.2.1
  rw [markLast_at, ← (h.calls i).atStart]
  refine ⟨fun h₀ => hat.unique h₀ hnum,fun he => ?_⟩
  rw [← he]
  exact hat

theorem dataNext_create_loop {p : Params} {s t : DataSystem} {i : Nat} {kernel : Platform}
    (h : dataNext p s (.create i kernel) = some t) : s.callers i = ⟨.loop,(s.callers i).data⟩ := by
  simp only [dataNext] at h
  split at h
  · rename_i data hpc
    rw [hpc]
  · cases h

/-- A chunk that is built joins the others exactly if it is the first. -/
theorem InMode.built_iff {p : Params} {s₀ : DataSystem} {s : WordSystem} {t : DataSystem}
    {i : Nat} {kernel : Platform} (h : InMode p s₀ s)
    (ht : dataNext p s.data (.create i kernel) = some t) :
    (∀ j, ∀ x ∈ (t.callers j).data.built, x.At (BitVec.ofInt 64 (s₀.callers j).data.pos)) ↔
      (∀ j, ∀ x ∈ (s.data.callers j).data.built,
        x.At (BitVec.ofInt 64 (s₀.callers j).data.pos)) ∧ oneChunk p s (.create i kernel) := by
  simp only [dataNext] at ht
  split at ht
  · rename_i data hpc
    have hdata : (s.data.callers i).data = data := by rw [hpc]
    subst hdata
    have hother : ∀ (d : Driver) (c : Caller), c.data.built = (s.data.callers i).data.built →
        ∀ j, ((s.data.setCaller d i c).callers j).data.built = (s.data.callers j).data.built := by
      intro d c hc j
      by_cases hj : j = i
      · rw [hj]
        simpa [DataSystem.setCaller] using hc
      · simp [DataSystem.setCaller, hj]
    unfold createNext at ht
    split at ht
    · rename_i hmore
      split at ht
      · cases ht
      · rename_i hnone
        cases ht
        simp only [hother _ ⟨.loop,{ (s.data.callers i).data with remaining := 0, res := -eIo }⟩ rfl]
        refine (and_iff_left fun data' hpc' _ _ halloc => ?_).symm
        have hk := transferCreate_alloc hnone
        rw [halloc] at hk
        cases hk
      · rename_i x hx
        obtain ⟨x',_,rfl⟩ := Option.map_eq_some_iff.mp ht
        have hat := h.created_at hx
        have hone : oneChunk p s (.create i kernel) ↔ (s.data.callers i).data.done = 0 := by
          refine ⟨fun hok => hok _ hpc hmore.1 hmore.2 (transferCreate_alloc hx).symm,
            fun h0 data' hpc' _ _ _ => ?_⟩
          rw [hpc'] at h0
          exact h0
        rw [hone, ← hat]
        have hnew : ((s.data.setCaller s.data.driver i
            ⟨.created x',(s.data.callers i).data.build x⟩).callers i).data.built =
            (s.data.callers i).data.built ++ [markLast x (s.data.callers i).data] := by
          simp [DataSystem.setCaller, DataState.build]
        refine ⟨fun hall => ⟨fun j y hy => ?_,?_⟩,fun hall j y hy => ?_⟩
        · by_cases hj : j = i
          · subst j
            refine hall i y ?_
            rw [hnew]
            exact List.mem_append_left _ hy
          · exact hall j y (by simpa [DataSystem.setCaller, hj] using hy)
        · refine hall i _ ?_
          rw [hnew]
          exact List.mem_append_right _ (List.mem_singleton_self _)
        · by_cases hj : j = i
          · subst j
            rw [hnew] at hy
            rcases List.mem_append.mp hy with hy | hy
            · exact hall.1 i y hy
            · rw [List.mem_singleton.mp hy]
              exact hall.2
          · exact hall.1 j y (by simpa [DataSystem.setCaller, hj] using hy)
    · rename_i hdone
      cases ht
      simp only [hother _ ⟨.returned,(s.data.callers i).data⟩ rfl]
      refine (and_iff_left fun data' hpc' hres hrem _ => ?_).symm
      have hd' : (s.data.callers i).data = data' := by rw [hpc']
      exact absurd ⟨hd' ▸ hres,hd' ▸ hrem⟩ hdone
  · cases ht

theorem dataNext_built {p : Params} {s t : DataSystem} {op : DataOp}
    (ht : dataNext p s op = some t) (hop : ∀ i kernel, op ≠ .create i kernel) (j : Nat) :
    (t.callers j).data.built = (s.callers j).data.built := by
  cases dataNext_data ht j with
  | same hd => rw [hd]
  | failed hd => rw [hd]
  | account res hd =>
    rw [hd]
    unfold DataState.account
    split <;> rfl
  | build kernel x he => exact absurd he (hop j kernel)

theorem dataNext_queue {p : Params} {s t : DataSystem} {i : Nat}
    (h : dataNext p s (.queue i) = some t) : ∃ x, opStep p s.driver (.queue x) t.driver := by
  simp only [dataNext] at h
  split at h
  · rename_i x data hpc
    split at h
    · split at h
      · rename_i d rc hcall
        cases h
        exact ⟨x,rc,hcall⟩
      · cases h
    · cases h
  · cases h

/-- In poll mode the first transfer that is queued starts the engine. -/
theorem InMode.words_iff {p : Params} {s₀ : DataSystem} {s : WordSystem} {t : DataSystem}
    {op : DataOp} (h : InMode p s₀ s) (ht : dataNext p s.data op = some t) :
    (∀ w ∈ (s.after t).words, w.has xdmaCtrlNonIncrAddr = true) ↔
      (∀ w ∈ s.words, w.has xdmaCtrlNonIncrAddr = true) ∧
        ((∃ i, op = .queue i) → p.pollMode = false) := by
  have hnext : InMode p s₀ (s.after t) := h.step (by rw [wordNext, ht]; rfl)
  cases hp : p.pollMode with
  | false =>
    have hs := h.words
    have ht' := hnext.words
    simp only [hp, Bool.not_false] at hs ht'
    exact ⟨fun _ => ⟨hs,fun _ => rfl⟩,fun _ => ht'⟩
  | true =>
    have hnil : ∀ u : WordSystem, InMode p s₀ u →
        ((∀ w ∈ u.words, w.has xdmaCtrlNonIncrAddr = true) ↔ u.words = []) := by
      intro u hu
      refine ⟨fun hw => List.eq_nil_iff_forall_not_mem.mpr fun w hm => ?_,fun hn => by simp [hn]⟩
      have hbit := hu.words w hm
      rw [hw w hm, hp] at hbit
      cases hbit
    rw [hnil _ hnext, hnil _ h]
    have hd := dataNext_driver h.notCyclic ht
    rcases WordSystem.after_words hd.starts with ⟨hst,hw⟩ | ⟨w,hw,_⟩
    · rw [hw]
      refine (and_iff_left_of_imp fun hn ⟨i,hi⟩ => ?_).symm
      subst hi
      obtain ⟨x,hq⟩ := dataNext_queue ht
      exact absurd hst (opStep_queue_started h.sound (h.idle hn) hq)
    · rw [hw]
      refine ⟨fun hn => by simp at hn,fun ⟨hn,hq⟩ => ?_⟩
      rcases hd.idle h.sound (h.idle hn) with ⟨_,hst⟩ | ⟨_,hi⟩
      · have hlen : (s.after t).words = s.words := by simp [WordSystem.after, hst]
        rw [hlen] at hw
        simp at hw
      · cases hq hi

theorem InMode.kept {p : Params} {s₀ : DataSystem} {s s' : WordSystem} {op : DataOp}
    (h : InMode p s₀ s) (hs : wordNext p s op = some s') :
    FixedAddress s₀ s' ↔ FixedAddress s₀ s ∧ oneChunk p s op := by
  obtain ⟨t,ht,rfl⟩ := wordNext_step hs
  have hwords := h.words_iff ht
  by_cases hop : ∃ i kernel, op = .create i kernel
  · obtain ⟨i,kernel,rfl⟩ := hop
    have hbuilt := h.built_iff ht
    have hnoq : (∃ j, DataOp.create i kernel = .queue j) → p.pollMode = false := by simp
    rw [and_iff_left hnoq] at hwords
    refine ⟨fun hf => ?_,fun ⟨hf,hok⟩ => ⟨hbuilt.mpr ⟨hf.built,hok⟩,hwords.mpr hf.words⟩⟩
    obtain ⟨hb,hok⟩ := hbuilt.mp hf.built
    exact ⟨⟨hb,hwords.mp hf.words⟩,hok⟩
  · have hsame := dataNext_built ht fun i kernel he => hop ⟨i,kernel,he⟩
    have hone : oneChunk p s op ↔ ((∃ i, op = .queue i) → p.pollMode = false) := by
      cases op with
      | create i kernel => exact absurd ⟨i,kernel,rfl⟩ hop
      | queue i => exact ⟨fun hok _ => hok,fun hok => hok ⟨i,rfl⟩⟩
      | _ => simp [oneChunk]
    rw [hone]
    have hbuilt : (∀ i, ∀ x ∈ (t.callers i).data.built,
        x.At (BitVec.ofInt 64 (s₀.callers i).data.pos)) ↔ ∀ i, ∀ x ∈ (s.data.callers i).data.built,
        x.At (BitVec.ofInt 64 (s₀.callers i).data.pos) := by
      simp only [hsame]
    refine ⟨fun hf => ?_,fun ⟨hf,hq⟩ => ⟨hbuilt.mpr hf.built,hwords.mpr ⟨hf.words,hq⟩⟩⟩
    obtain ⟨hw,hq⟩ := hwords.mp hf.words
    exact ⟨⟨hbuilt.mp hf.built,hw⟩,hq⟩

theorem FixedStart.run {p : Params} {s₀ : DataSystem} {s : WordSystem} {ops : List DataOp}
    (h₀ : FixedStart s₀) (r : Run (stepOf (wordNext p)) anyStep ⟨s₀,[]⟩ ops s) : InMode p s₀ s :=
  r.invariant (InMode p s₀) (h₀.inMode p) fun _ _ _ hs _ ht => hs.step ht

/-- All descriptors and all control words of the requests are those of the mode
exactly if no request gets to a second chunk and, in poll mode, none to its first
`transfer_queue`. -/
theorem transferData_fixedAddress {p : Params} {s₀ : DataSystem} {s : WordSystem}
    {ops : List DataOp} (h₀ : FixedStart s₀)
    (r : Run (stepOf (wordNext p)) anyStep ⟨s₀,[]⟩ ops s) :
    FixedAddress s₀ s ↔ Run (stepOf (wordNext p)) (oneChunk p) ⟨s₀,[]⟩ ops s := by
  refine (Run.kept_iff (InMode p s₀) (FixedAddress s₀) (h₀.inMode p) ?_ ?_ r).2
  · refine ⟨fun i x hx => ?_,by simp⟩
    obtain ⟨addr,count,pos,_,hi⟩ := h₀.callers i
    rw [hi] at hx
    cases hx
  · exact fun s op t h ht => ⟨h.step ht,h.kept ht⟩

def DataSystem.fixed (p : Params) (count : Nat) : DataSystem :=
  ⟨.withEngine (ioctlDoAddrmodeSet (engineCreate p 0 false true) (some 1) 0).1 fun _ => .zero,
    fun i => ⟨.loop,⟨0,0,i*count,count,0x1000,[]⟩⟩⟩

theorem fixedStart_fixed (p : Params) {count : Nat} (h : count < 2^63) :
    FixedStart (.fixed p count) :=
  ⟨Fresh.sound ⟨rfl,rfl,rfl,rfl,rfl,rfl,rfl⟩,rfl,rfl,⟨_,1,0,by decide,rfl⟩,
    fun _ => ⟨_,_,_,h,rfl⟩⟩

def createRequest : DataOp := .create 0 (identityKernel 0)
def serveRequest (descs : U32) : List DataOp :=
  [.queue 0,.interrupt ⟨⟨0,descs⟩,[]⟩,.wait 0 false,.account 0 0]

theorem transferData_fixedAddress_page : ∃ s,
    Run (stepOf (wordNext ⟨false,false⟩)) anyStep ⟨.fixed ⟨false,false⟩ pageSize,[]⟩
      (createRequest :: serveRequest 1) s ∧
    FixedAddress (.fixed ⟨false,false⟩ pageSize) s ∧ s.words.length = 1 := by
  obtain ⟨s₁,hs₁⟩ : ∃ s₁, s₁ = replay (wordNext ⟨false,false⟩)
    ⟨.fixed ⟨false,false⟩ pageSize,[]⟩ [createRequest] := ⟨_,rfl⟩
  obtain ⟨s,hs⟩ : ∃ s, s = replay (wordNext ⟨false,false⟩) s₁ (serveRequest 1) := ⟨_,rfl⟩
  have hcreate : stepOf (wordNext ⟨false,false⟩) ⟨.fixed ⟨false,false⟩ pageSize,[]⟩ createRequest
      s₁ := by
    rw [hs₁]
    exact replay_step (by decide +kernel)
  have hserve : Run (stepOf (wordNext ⟨false,false⟩)) anyStep s₁ (serveRequest 1) s := by
    rw [hs, hs₁]
    exact replay_run (by decide +kernel)
  have hfirst : oneChunk ⟨false,false⟩ ⟨.fixed ⟨false,false⟩ pageSize,[]⟩ createRequest := by
    intro data hpc _ _ _
    have hdata := congrArg Caller.data hpc
    rw [← show (⟨0,0,0*pageSize,pageSize,0x1000,[]⟩ : DataState) = data from hdata]
  have hfixed := (transferData_fixedAddress (fixedStart_fixed _ (by decide))
    (Run.cons trivial hcreate hserve)).mpr (Run.cons hfirst hcreate
      (hserve.labels (by simp [serveRequest, oneChunk])))
  refine ⟨s,Run.cons trivial hcreate hserve,hfixed,?_⟩
  rw [hs, hs₁]
  decide +kernel

/-- In poll mode the start of the same page is written without the bit; in
interrupt mode the descriptors of a second chunk are 8 MiB further on. -/
theorem transferData_fixedAddress_not :
    (∃ s, Run (stepOf (wordNext ⟨true,false⟩)) anyStep ⟨.fixed ⟨true,false⟩ pageSize,[]⟩
      [createRequest,.queue 0] s ∧ ¬FixedAddress (.fixed ⟨true,false⟩ pageSize) s) ∧
    ∃ s, Run (stepOf (wordNext ⟨false,false⟩)) anyStep
      ⟨.fixed ⟨false,false⟩ (xdmaTransferMaxBytes+pageSize),[]⟩
      (createRequest :: serveRequest 33 ++ [createRequest]) s ∧
      ¬FixedAddress (.fixed ⟨false,false⟩ (xdmaTransferMaxBytes+pageSize)) s := by
  constructor
  · obtain ⟨s,hs⟩ : ∃ s, s = replay (wordNext ⟨true,false⟩) ⟨.fixed ⟨true,false⟩ pageSize,[]⟩
      [createRequest,.queue 0] := ⟨_,rfl⟩
    have r : Run (stepOf (wordNext ⟨true,false⟩)) anyStep ⟨.fixed ⟨true,false⟩ pageSize,[]⟩
        [createRequest,.queue 0] s := by
      rw [hs]
      exact replay_run (by decide +kernel)
    have hone : s.words.length = 1 := by
      rw [hs]
      decide +kernel
    refine ⟨s,r,fun h => ?_⟩
    have hmode := (fixedStart_fixed _ (by decide)).run r
    obtain ⟨w,hw⟩ := List.length_eq_one_iff.mp hone
    have hmem : w ∈ s.words := by
      rw [hw]
      exact List.mem_singleton_self _
    cases (hmode.words w hmem).symm.trans (h.words w hmem)
  · obtain ⟨s,hs⟩ : ∃ s, s = replay (wordNext ⟨false,false⟩)
      ⟨.fixed ⟨false,false⟩ (xdmaTransferMaxBytes+pageSize),[]⟩
      (createRequest :: serveRequest 33) := ⟨_,rfl⟩
    have r : Run (stepOf (wordNext ⟨false,false⟩)) anyStep
        ⟨.fixed ⟨false,false⟩ (xdmaTransferMaxBytes+pageSize),[]⟩
        (createRequest :: serveRequest 33) s := by
      rw [hs]
      exact replay_run (by decide +kernel)
    obtain ⟨t,ht⟩ : ∃ t, wordNext ⟨false,false⟩ s createRequest = some t := by
      rw [← Option.isSome_iff_exists, hs]
      decide +kernel
    refine ⟨t,r.snoc trivial ht,fun h => ?_⟩
    have hdata : (s.data.callers 0).data.res = 0 ∧ (s.data.callers 0).data.remaining = pageSize ∧
        (s.data.callers 0).data.done = xdmaTransferMaxBytes := by
      rw [hs]
      decide +kernel
    obtain ⟨u,hu,_⟩ := wordNext_step ht
    have hone := ((((fixedStart_fixed _ (by decide)).run r).kept ht).mp h).2
    have hdone := hone _ (dataNext_create_loop hu) hdata.1 (by rw [hdata.2.1]; decide) rfl
    rw [hdata.2.2] at hdone
    cases hdone

end DmaCamera
