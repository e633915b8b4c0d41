import DmaCamera.FixedAddress
import DmaCamera.Stream
set_option autoImplicit false

namespace DmaCamera
open Runs

def ioctlCode (dir nr size : Nat) : U32 :=
  BitVec.ofNat 32 (dir <<< 30 ||| size <<< 16 ||| 0x71 <<< 8 ||| nr)

def ioctlXdmaPerfStart : U32 := ioctlCode 1 1 8
def ioctlXdmaPerfStop : U32 := ioctlCode 1 2 8
def ioctlXdmaPerfGet : U32 := ioctlCode 2 3 8
def ioctlXdmaAddrmodeSet : U32 := ioctlCode 1 4 4
def ioctlXdmaAddrmodeGet : U32 := ioctlCode 2 5 4
def ioctlXdmaAlignGet : U32 := ioctlCode 2 6 4

structure IoctlEngine where
  device : StreamEngine
  alignment : Alignment

/-- What a call meets outside the driver: the block it is given and the kernel's
answers, the registers of the measurement, whether user space can be written, the
word `get_user` reads, and the alignments register. -/
structure IoctlEnv where
  request : XdmaPerformanceIoctl
  perf : PerfEnv
  regs : PerfRegs
  written : Bool
  dst : Option U32
  alignments : U32

inductive IoctlOut where
  | perf (x : XdmaPerformanceIoctl)
  | word (w : U32)

def ioctlDoPerfGet (s : StreamEngine) (regs : PerfRegs) (copied : Bool) : StreamEngine × Int :=
  if s.engine.xdmaPerf.isNone then (s,-eProto) else
    let s := s.withEngine { s.engine with xdmaPerf := s.engine.xdmaPerf.map (getPerfStats regs) }
    if copied then (s,0) else (s,-eInval)

def putUser (written : Bool) (w : U32) : Int × Option IoctlOut :=
  if written then (0,some (.word w)) else (-eFault,none)

def ioctlDoAddrmodeGet (e : Engine) (written : Bool) : Int × Option IoctlOut :=
  putUser written (if e.nonIncrAddr then 1 else 0)

def ioctlDoAlignGet (a : Alignment) (written : Bool) : Int × Option IoctlOut :=
  putUser written a.addrAlign

def perfOut (s : StreamEngine) (regs : PerfRegs) (rc : Int) : Option IoctlOut :=
  if rc = 0 then s.engine.xdmaPerf.map fun perf => .perf (getPerfStats regs perf) else none

def charSgdmaIoctl (p : Params) (s : IoctlEngine) (cmd : U32) (env : IoctlEnv) :
    Except Fault (IoctlEngine × Int × Option IoctlOut) :=
  if cmd = ioctlXdmaPerfStart then
    (ioctlDoPerfStart p s.device env.request env.perf).map fun r =>
      ({ s with device := r.1 },r.2,none)
  else if cmd = ioctlXdmaPerfStop then
    let r := ioctlDoPerfStop p s.device env.regs env.written
    .ok ({ s with device := r.1 },r.2,perfOut s.device env.regs r.2)
  else if cmd = ioctlXdmaPerfGet then
    let r := ioctlDoPerfGet s.device env.regs env.written
    .ok ({ s with device := r.1 },r.2,perfOut s.device env.regs r.2)
  else if cmd = ioctlXdmaAddrmodeSet then
    let r := ioctlDoAddrmodeSet s.device.engine env.dst env.alignments
    .ok (⟨s.device.withEngine r.1,r.2.1⟩,r.2.2,none)
  else if cmd = ioctlXdmaAddrmodeGet then .ok (s,ioctlDoAddrmodeGet s.device.engine env.written)
  else if cmd = ioctlXdmaAlignGet then .ok (s,ioctlDoAlignGet s.alignment env.written)
  else .ok (s,-eInval,none)

/-- An engine and the calls on it: a measurement goes on since PERF_START returned
0, until PERF_STOP does. -/
structure IoctlSystem where
  engine : IoctlEngine
  measuring : Bool

/-- A call, or time that passes for the rest of the driver, which neither allocates
nor frees `xdma_perf`. -/
inductive IoctlOp where
  | call (cmd : U32) (env : IoctlEnv)
  | elapse (engine : IoctlEngine)

def IoctlSystem.after (s : IoctlSystem) (cmd : U32) (t : IoctlEngine) (rc : Int) : IoctlSystem where
  engine := t
  measuring :=
    if rc = 0 ∧ cmd = ioctlXdmaPerfStart then true
    else if rc = 0 ∧ cmd = ioctlXdmaPerfStop then false
    else s.measuring

def ioctlNext (p : Params) (s : IoctlSystem) : IoctlOp → Option IoctlSystem
  | .call cmd env => match charSgdmaIoctl p s.engine cmd env with
    | .error _ => none
    | .ok (t,rc,_) => some (s.after cmd t rc)
  | .elapse t =>
    if t.device.engine.xdmaPerf.isSome = s.engine.device.engine.xdmaPerf.isSome then
      some { s with engine := t }
    else none

structure SamePerf (s t : StreamEngine) : Prop where
  xdmaPerf : t.engine.xdmaPerf = s.engine.xdmaPerf
  nonIncrAddr : t.engine.nonIncrAddr = s.engine.nonIncrAddr
  transferList : t.engine.transferList = s.engine.transferList
  transfers : ∀ x ∈ s.engine.transferList, t.driver.transfers x = s.driver.transfers x
  running : t.engine.running = s.engine.running

/-- A call that fails changes nothing, and PERF_START finds the engine busy only
with a measurement. -/
def failsClean (p : Params) (s : IoctlSystem) : IoctlOp → Prop
  | .call cmd env => ∀ t rc out, charSgdmaIoctl p s.engine cmd env = .ok (t,rc,out) → rc < 0 →
    SamePerf s.engine.device t.device ∧
      (cmd = ioctlXdmaPerfStart → rc = -eBusy → s.measuring = true)
  | .elapse _ => True

def XdmaPerformanceIoctl.Shows (perf : XdmaPerformanceIoctl) (regs : PerfRegs) : Prop :=
  perf.iterations = regs.completedDescCount ∧
    perf.clockCycleCount = buildU64 regs.perfCycHi regs.perfCycLo ∧
    perf.dataCycleCount = buildU64 regs.perfDatHi regs.perfDatLo ∧
    perf.pendingCount = buildU64 regs.perfPndHi regs.perfPndLo

/-- A cyclic transfer in front of the queue has the stop flag on its last
descriptor already. -/
def Driver.Stopping (d : Driver) : Prop :=
  ∀ t ∈ d.engine.transferList.head?, (d.transfers t).cyclic = true →
    ((d.transfers t).descVirt ((d.transfers t).descNum-1)).control &&& lsByteMask =
      xdmaDescCompleted ||| xdmaDescStopped

/-- What keeps each call from failing half-way. PERF_START: the version, once the
block is allocated. PERF_STOP and PERF_GET with a measurement: user space that can
be written, or nothing new to tell, and nothing to stop. -/
def wholeCall (s : IoctlSystem) : IoctlOp → Prop
  | .call cmd env =>
    let e := s.engine.device.engine
    (cmd = ioctlXdmaPerfStart → e.xdmaPerf = none → env.perf.kzallocPerf = true →
      env.request.version = perfVersion) ∧
    (cmd = ioctlXdmaPerfStop ∨ cmd = ioctlXdmaPerfGet → env.written = false →
      ∀ perf ∈ e.xdmaPerf, perf.Shows env.regs) ∧
    (cmd = ioctlXdmaPerfStop → env.written = false → e.xdmaPerf.isSome = true →
      s.engine.device.driver.Stopping)
  | .elapse _ => True

section calls

variable {p : Params} {s s' : StreamEngine} {env : PerfEnv} {request : XdmaPerformanceIoctl}
  {regs : PerfRegs} {rc : Int}

theorem SamePerf.refl (s : StreamEngine) : SamePerf s s := ⟨rfl,rfl,rfl,fun _ _ => rfl,rfl⟩

theorem transferQueue_perf {d d' : Driver} {t : TransferId} (h : transferQueue p d t = .ok (d',rc)) :
    d'.engine.xdmaPerf = d.engine.xdmaPerf := by
  unfold transferQueue engineStart at h
  simp only at h
  split at h
  · cases h
  · split at h
    · cases h
      rfl
    · split at h
      · split at h
        · cases h
        · rename_i d₁ hstart
          cases h
          split at hstart
          · cases hstart
          · split at hstart
            · cases hstart
            · cases hstart
              rfl
      · cases h
        rfl

theorem submit_perf {x : XdmaTransfer} (h : s.submit p x = .ok s') :
    s'.engine.xdmaPerf = s.engine.xdmaPerf := by
  obtain ⟨⟨d,rc⟩,hq,rfl⟩ := Except.map_ok h
  have hperf := transferQueue_perf hq
  exact hperf

inductive PerfStartEnd (s : StreamEngine) (request : XdmaPerformanceIoctl) (env : PerfEnv) :
    StreamEngine → Int → Prop
  | busy (hperf : s.engine.xdmaPerf.isSome = true) : PerfStartEnd s request env s (-eBusy)
  | noMem (hperf : s.engine.xdmaPerf = none) (halloc : env.kzallocPerf = false) :
      PerfStartEnd s request env s (-eNoMem)
  | version (hperf : s.engine.xdmaPerf = none) (halloc : env.kzallocPerf = true)
      (hversion : request.version ≠ perfVersion) : PerfStartEnd s request env
        (s.withEngine { s.engine with xdmaPerf := some request }) (-eInval)
  | started {s' : StreamEngine} (hversion : request.version = perfVersion)
      (hperf : s'.engine.xdmaPerf = some request) : PerfStartEnd s request env s' 0

theorem ioctlDoPerfStart_ends (h : ioctlDoPerfStart p s request env = .ok (s',rc)) :
    PerfStartEnd s request env s' rc := by
  unfold ioctlDoPerfStart at h
  split at h
  · rename_i hperf
    cases h
    exact .busy hperf
  · rename_i hperf
    have hnone : s.engine.xdmaPerf = none := by simpa using hperf
    split at h
    · rename_i halloc
      cases h
      exact .noMem hnone (by simpa using halloc)
    · rename_i halloc
      dsimp only at h
      split at h
      · rename_i hversion
        cases h
        exact .version hnone (by simpa using halloc) hversion
      · rename_i hversion
        split at h
        · cases h
        · obtain ⟨u,hu,heq⟩ := Except.map_ok h
          cases heq
          exact .started (not_not.mp hversion) (submit_perf hu)

theorem getPerfStats_eq_iff (perf : XdmaPerformanceIoctl) :
    getPerfStats regs perf = perf ↔ perf.Shows regs := by
  obtain ⟨version,size,stopped,iterations,cyc,dat,pnd⟩ := perf
  simp only [getPerfStats, XdmaPerformanceIoctl.Shows, XdmaPerformanceIoctl.mk.injEq, true_and]
  constructor
  · rintro ⟨rfl,rfl,rfl,rfl⟩
    exact ⟨rfl,rfl,rfl,rfl⟩
  · rintro ⟨rfl,rfl,rfl,rfl⟩
    exact ⟨rfl,rfl,rfl,rfl⟩

theorem xdmaDescControl_eq_iff (desc : XdmaDesc) {flags : U32} (hflags : flags &&& lsByteMask = flags) :
    xdmaDescControl desc flags = desc ↔ desc.control &&& lsByteMask = flags := by
  have hcontrol : xdmaDescControl desc flags = desc ↔
      (desc.control &&& ~~~lsByteMask) ||| flags = desc.control := by
    cases desc
    simp [xdmaDescControl]
  rw [hcontrol]
  constructor
  · intro h
    rw [← h, BitVec.and_or_distrib_right, BitVec.and_assoc, hflags]
    simp
  · intro h
    rw [← h, ← BitVec.and_or_distrib_left, BitVec.not_or_self, BitVec.and_allOnes]

theorem engineCyclicStop_engine (p : Params) (d : Driver) :
    (engineCyclicStop p d).engine.xdmaPerf = d.engine.xdmaPerf ∧
      (engineCyclicStop p d).engine.nonIncrAddr = d.engine.nonIncrAddr ∧
      (engineCyclicStop p d).engine.transferList = d.engine.transferList ∧
      (engineCyclicStop p d).engine.running = d.engine.running := by
  unfold engineCyclicStop
  split
  · exact ⟨rfl,rfl,rfl,rfl⟩
  · dsimp only
    split
    · exact ⟨rfl,rfl,rfl,rfl⟩
    · exact ⟨rfl,rfl,rfl,rfl⟩

theorem stopLast_eq_iff {x : XdmaTransfer} (hcyclic : x.cyclic = true) :
    stopLast x = x ↔ (x.descVirt (x.descNum-1)).control &&& lsByteMask =
      xdmaDescCompleted ||| xdmaDescStopped := by
  rw [← xdmaDescControl_eq_iff _ (by decide)]
  have hlast := Function.update_eq_self_iff (f := x.descVirt) (a := x.descNum-1)
    (b := xdmaDescControl (x.descVirt (x.descNum-1)) (xdmaDescCompleted ||| xdmaDescStopped))
  rw [← hlast]
  cases x
  simp_all [stopLast]

/-- The queued transfers stay as they are exactly if there is nothing to stop. -/
theorem engineCyclicStop_transfers (p : Params) (d : Driver) :
    (∀ x ∈ d.engine.transferList, (engineCyclicStop p d).transfers x = d.transfers x) ↔
      d.Stopping := by
  unfold engineCyclicStop Driver.Stopping
  split
  · rename_i hlist
    simp [hlist]
  · rename_i t rest hlist
    dsimp only
    split
    · rename_i hcyclic
      rw [hlist]
      simp only [List.head?_cons, Option.mem_some_iff, forall_eq', hcyclic, forall_true_left,
        ← stopLast_eq_iff hcyclic]
      constructor
      · intro hall
        simpa using hall t (List.mem_cons_self ..)
      · intro hstop x _
        rw [hstop, Function.update_eq_self]
    · rename_i hcyclic
      simp [hlist, hcyclic]

theorem ioctlDoPerfStop_none (h : s.engine.xdmaPerf = none) (copied : Bool) :
    ioctlDoPerfStop p s regs copied = (s,-eInval) := by
  rw [ioctlDoPerfStop, if_pos (by rw [h]; rfl)]

theorem ioctlDoPerfGet_none (h : s.engine.xdmaPerf = none) (copied : Bool) :
    ioctlDoPerfGet s regs copied = (s,-eProto) := by
  rw [ioctlDoPerfGet, if_pos (by rw [h]; rfl)]

theorem ioctlDoPerfStop_fails {perf : XdmaPerformanceIoctl} (h : s.engine.xdmaPerf = some perf) :
    (ioctlDoPerfStop p s regs false).2 = -eInval ∧
      (ioctlDoPerfStop p s regs false).1.engine.xdmaPerf = some (getPerfStats regs perf) ∧
      (SamePerf s (ioctlDoPerfStop p s regs false).1 ↔ perf.Shows regs ∧ s.driver.Stopping) := by
  obtain ⟨hperf,hmode,hlist,hrunning⟩ := engineCyclicStop_engine p s.driver
  have hsome : (engineCyclicStop p s.driver).engine.xdmaPerf = some perf := hperf.trans h
  rw [ioctlDoPerfStop, if_neg (by rw [h]; simp)]
  simp only [Bool.false_eq_true, if_false, StreamEngine.withEngine, StreamEngine.engine, hsome,
    Option.map_some, true_and]
  rw [← getPerfStats_eq_iff, ← engineCyclicStop_transfers p s.driver]
  constructor
  · intro hsame
    have hp := hsame.xdmaPerf
    rw [h] at hp
    exact ⟨Option.some.inj hp,hsame.transfers⟩
  · rintro ⟨hstats,htransfers⟩
    refine ⟨?_,hmode,hlist,htransfers,hrunning⟩
    rw [h]
    exact congrArg some hstats

theorem ioctlDoPerfStop_stops {perf : XdmaPerformanceIoctl} (h : s.engine.xdmaPerf = some perf) :
    (ioctlDoPerfStop p s regs true).2 = 0 ∧
      (ioctlDoPerfStop p s regs true).1.engine.xdmaPerf = none := by
  rw [ioctlDoPerfStop, if_neg (by rw [h]; simp)]
  exact ⟨rfl,rfl⟩

theorem ioctlDoPerfGet_some {perf : XdmaPerformanceIoctl} (h : s.engine.xdmaPerf = some perf)
    (copied : Bool) : ioctlDoPerfGet s regs copied =
      (s.withEngine { s.engine with xdmaPerf := some (getPerfStats regs perf) },
        if copied then 0 else -eInval) := by
  rw [ioctlDoPerfGet, if_neg (by rw [h]; simp)]
  simp only [h, Option.map_some]
  split <;> rfl

theorem samePerf_stats {perf : XdmaPerformanceIoctl} (h : s.engine.xdmaPerf = some perf) :
    SamePerf s (s.withEngine { s.engine with xdmaPerf := some (getPerfStats regs perf) }) ↔
      perf.Shows regs := by
  rw [← getPerfStats_eq_iff]
  constructor
  · intro hsame
    have hp := hsame.xdmaPerf
    rw [h] at hp
    exact Option.some.inj hp
  · intro hstats
    refine ⟨?_,rfl,rfl,fun _ _ => rfl,rfl⟩
    rw [h]
    exact congrArg some hstats

/-- A PERF_STOP that fails leaves no trace exactly if there is nothing new to tell
and nothing to stop. -/
theorem ioctlDoPerfStop_clean (copied : Bool) :
    ((ioctlDoPerfStop p s regs copied).2 < 0 → SamePerf s (ioctlDoPerfStop p s regs copied).1) ↔
      (copied = false → ∀ perf ∈ s.engine.xdmaPerf, perf.Shows regs) ∧
        (copied = false → s.engine.xdmaPerf.isSome = true → s.driver.Stopping) := by
  cases hperf : s.engine.xdmaPerf with
  | none =>
    rw [ioctlDoPerfStop_none hperf]
    simp [SamePerf.refl]
  | some perf =>
    cases copied with
    | true => simp [ioctlDoPerfStop_stops hperf]
    | false =>
      obtain ⟨hrc,_,hsame⟩ := @ioctlDoPerfStop_fails p s regs perf hperf
      rw [hrc, hsame]
      simp [eInval]

theorem ioctlDoPerfGet_clean (copied : Bool) :
    ((ioctlDoPerfGet s regs copied).2 < 0 → SamePerf s (ioctlDoPerfGet s regs copied).1) ↔
      (copied = false → ∀ perf ∈ s.engine.xdmaPerf, perf.Shows regs) := by
  cases hperf : s.engine.xdmaPerf with
  | none =>
    rw [ioctlDoPerfGet_none hperf]
    simp [SamePerf.refl]
  | some perf =>
    rw [ioctlDoPerfGet_some hperf, samePerf_stats hperf]
    cases copied <;> simp [eInval]

theorem ioctlDoPerfStop_isSome (copied : Bool) :
    (ioctlDoPerfStop p s regs copied).1.engine.xdmaPerf.isSome =
      if (ioctlDoPerfStop p s regs copied).2 = 0 then false else s.engine.xdmaPerf.isSome := by
  cases hperf : s.engine.xdmaPerf with
  | none =>
    rw [ioctlDoPerfStop_none hperf, hperf]
    rfl
  | some perf =>
    cases copied with
    | true => simp [ioctlDoPerfStop_stops hperf]
    | false =>
      obtain ⟨hrc,hsome,_⟩ := @ioctlDoPerfStop_fails p s regs perf hperf
      rw [hrc, hsome]
      rfl

theorem ioctlDoPerfGet_isSome (copied : Bool) :
    (ioctlDoPerfGet s regs copied).1.engine.xdmaPerf.isSome = s.engine.xdmaPerf.isSome := by
  cases hperf : s.engine.xdmaPerf with
  | none => rw [ioctlDoPerfGet_none hperf, hperf]
  | some perf =>
    rw [ioctlDoPerfGet_some hperf]
    rfl

theorem ioctlDoAddrmodeSet_fails {e : Engine} {dst : Option U32} {alignments : U32}
    (h : (ioctlDoAddrmodeSet e dst alignments).2.2 < 0) :
    (ioctlDoAddrmodeSet e dst alignments).1 = e := by
  cases dst with
  | none => rfl
  | some dst => simp [ioctlDoAddrmodeSet] at h

theorem ioctlDoAddrmodeSet_perf (e : Engine) (dst : Option U32) (alignments : U32) :
    (ioctlDoAddrmodeSet e dst alignments).1.xdmaPerf = e.xdmaPerf := by
  cases dst <;> rfl

inductive IoctlEnd (p : Params) (s : IoctlEngine) (env : IoctlEnv) : U32 → IoctlEngine → Int → Prop
  | start {u : IoctlEngine} {device : StreamEngine} {rc : Int} (hu : u.device = device)
      (h : PerfStartEnd s.device env.request env.perf device rc) :
      IoctlEnd p s env ioctlXdmaPerfStart u rc
  | stop {u : IoctlEngine} (hu : u.device = (ioctlDoPerfStop p s.device env.regs env.written).1) :
      IoctlEnd p s env ioctlXdmaPerfStop u (ioctlDoPerfStop p s.device env.regs env.written).2
  | get {u : IoctlEngine} (hu : u.device = (ioctlDoPerfGet s.device env.regs env.written).1) :
      IoctlEnd p s env ioctlXdmaPerfGet u (ioctlDoPerfGet s.device env.regs env.written).2
  | other {cmd : U32} {u : IoctlEngine} {rc : Int} (hstart : cmd ≠ ioctlXdmaPerfStart)
      (hstop : cmd ≠ ioctlXdmaPerfStop) (hget : cmd ≠ ioctlXdmaPerfGet)
      (hperf : u.device.engine.xdmaPerf = s.device.engine.xdmaPerf)
      (hsame : rc < 0 → SamePerf s.device u.device) : IoctlEnd p s env cmd u rc

theorem charSgdmaIoctl_ends {s u : IoctlEngine} {cmd : U32} {env : IoctlEnv} {out : Option IoctlOut}
    (h : charSgdmaIoctl p s cmd env = .ok (u,rc,out)) : IoctlEnd p s env cmd u rc := by
  unfold charSgdmaIoctl at h
  dsimp only at h
  split at h
  · rename_i hcmd
    obtain ⟨r,hstart,heq⟩ := Except.map_ok h
    cases heq
    rw [hcmd]
    exact .start rfl (ioctlDoPerfStart_ends hstart)
  · rename_i hstart
    split at h
    · rename_i hcmd
      cases h
      rw [hcmd]
      exact .stop rfl
    · rename_i hstop
      split at h
      · rename_i hcmd
        cases h
        rw [hcmd]
        exact .get rfl
      · rename_i hget
        split at h
        · cases h
          refine .other hstart hstop hget (ioctlDoAddrmodeSet_perf ..) fun hrc => ?_
          rw [ioctlDoAddrmodeSet_fails hrc]
          exact .refl _
        · split at h
          · obtain ⟨rfl,_⟩ := Prod.mk.inj (Except.ok.inj h)
            exact .other hstart hstop hget rfl fun _ => .refl _
          · split at h
            · obtain ⟨rfl,_⟩ := Prod.mk.inj (Except.ok.inj h)
              exact .other hstart hstop hget rfl fun _ => .refl _
            · cases h
              exact .other hstart hstop hget rfl fun _ => .refl _

end calls

section sequences

variable {p : Params} {s t : IoctlSystem} {op : IoctlOp} {ops : List IoctlOp}

def IoctlSystem.Tracked (s : IoctlSystem) : Prop :=
  s.engine.device.engine.xdmaPerf.isSome = s.measuring

theorem ioctlNext_call {cmd : U32} {env : IoctlEnv} (hn : ioctlNext p s (.call cmd env) = some t) :
    ∃ u rc out, charSgdmaIoctl p s.engine cmd env = .ok (u,rc,out) ∧ t = s.after cmd u rc := by
  simp only [ioctlNext] at hn
  split at hn
  · cases hn
  · rename_i u rc out hok
    cases hn
    exact ⟨u,rc,out,hok,rfl⟩

theorem failsClean_call {cmd : U32} {env : IoctlEnv} {u : IoctlEngine} {rc : Int}
    {out : Option IoctlOut} (hok : charSgdmaIoctl p s.engine cmd env = .ok (u,rc,out)) :
    failsClean p s (.call cmd env) ↔ (rc < 0 → SamePerf s.engine.device u.device ∧
      (cmd = ioctlXdmaPerfStart → rc = -eBusy → s.measuring = true)) := by
  simp only [failsClean, hok]
  constructor
  · intro h
    exact h u rc out rfl
  · rintro h u' rc' out' heq
    cases heq
    exact h

theorem ioctlXdmaPerf_codes : ioctlXdmaPerfStart ≠ ioctlXdmaPerfStop ∧
    ioctlXdmaPerfStart ≠ ioctlXdmaPerfGet ∧ ioctlXdmaPerfStop ≠ ioctlXdmaPerfStart ∧
    ioctlXdmaPerfStop ≠ ioctlXdmaPerfGet ∧ ioctlXdmaPerfGet ≠ ioctlXdmaPerfStart ∧
    ioctlXdmaPerfGet ≠ ioctlXdmaPerfStop := by decide

theorem failsClean_iff (hi : s.Tracked) (hn : ioctlNext p s op = some t) :
    failsClean p s op ↔ wholeCall s op := by
  cases op with
  | elapse => exact Iff.rfl
  | call cmd env =>
    obtain ⟨u,rc,out,hok,_⟩ := ioctlNext_call hn
    rw [failsClean_call hok]
    obtain ⟨h₁,h₂,h₃,h₄,h₅,h₆⟩ := ioctlXdmaPerf_codes
    cases charSgdmaIoctl_ends hok with
    | start hu hend =>
      simp only [wholeCall, h₁, h₂, or_self, false_implies, and_true, true_implies, hu]
      cases hend with
      | busy hperf =>
        refine iff_of_true (fun _ => ⟨.refl _,fun _ => hi.symm.trans hperf⟩) fun hnone => ?_
        rw [hnone] at hperf
        cases hperf
      | noMem hperf halloc =>
        refine iff_of_true (fun _ => ⟨.refl _,by simp [eNoMem, eBusy]⟩) fun _ htrue => ?_
        rw [halloc] at htrue
        cases htrue
      | version hperf halloc hversion =>
        refine iff_of_false (fun h => ?_) fun h => hversion (h hperf halloc)
        have hsame := (h (by decide)).1.xdmaPerf
        rw [hperf] at hsame
        cases hsame
      | started hversion hperf => exact iff_of_true (fun h => by cases h) fun _ _ => hversion
    | stop hu =>
      simp only [wholeCall, h₃, h₄, false_implies, true_and, true_or, true_implies, and_true, hu]
      exact ioctlDoPerfStop_clean env.written
    | get hu =>
      simp only [wholeCall, h₅, h₆, false_implies, true_and, or_true, true_implies, and_true, hu]
      exact ioctlDoPerfGet_clean env.written
    | other hstart hstop hget hperf hsame =>
      simp only [wholeCall, hstart, hstop, hget, or_self, false_implies, and_self, and_true, iff_true]
      exact hsame

theorem tracked_step (hi : s.Tracked) (hok : wholeCall s op) (hn : ioctlNext p s op = some t) :
    t.Tracked := by
  cases op with
  | elapse u =>
    simp only [ioctlNext] at hn
    split at hn
    · rename_i hsame
      cases hn
      exact hsame.trans hi
    · cases hn
  | call cmd env =>
    obtain ⟨u,rc,out,hcall,rfl⟩ := ioctlNext_call hn
    obtain ⟨h₁,h₂,h₃,h₄,h₅,h₆⟩ := ioctlXdmaPerf_codes
    unfold IoctlSystem.Tracked at hi ⊢
    cases charSgdmaIoctl_ends hcall with
    | start hu hend =>
      simp only [IoctlSystem.after, hu, and_true, h₁, and_false, if_false]
      cases hend with
      | busy hperf => simpa [eBusy] using hi
      | noMem hperf halloc => simpa [eNoMem] using hi
      | version hperf halloc hversion => exact absurd (hok.1 rfl hperf halloc) hversion
      | started hversion hperf => simp [hperf]
    | stop hu =>
      simp only [IoctlSystem.after, hu, and_true, h₃, and_false, if_false, ioctlDoPerfStop_isSome, hi]
    | get hu =>
      simp only [IoctlSystem.after, hu, h₅, h₆, and_false, if_false, ioctlDoPerfGet_isSome, hi]
    | other hstart hstop hget hperf hsame =>
      simp only [IoctlSystem.after, hstart, hstop, and_false, if_false, hperf]
      exact hi

/-- On an engine without a measurement: in a sequence of calls every call that fails
does so without a trace, and PERF_START finds only a measurement busy, exactly if no
call is one that fails half-way. -/
theorem run_failsClean (h₀ : s.engine.device.engine.xdmaPerf = none) (hm : s.measuring = false) :
    Run (stepOf (ioctlNext p)) (failsClean p) s ops t ↔ Run (stepOf (ioctlNext p)) wholeCall s ops t :=
  Run.ok_iff IoctlSystem.Tracked (by rw [IoctlSystem.Tracked, h₀, hm]; rfl)
    (fun _ _ _ hi hok hn => tracked_step hi hok hn) fun _ _ _ hi hn => failsClean_iff hi hn

def IoctlSystem.fresh : IoctlSystem := ⟨⟨.fresh ⟨false,false⟩,⟨1,1⟩⟩,false⟩

def IoctlEnv.version (version : U32) : IoctlEnv where
  request := ⟨version,4096,0,0,0,0,0⟩
  perf := .ample
  regs := ⟨3,0,0,0,0,0,0⟩
  written := true
  dst := some 1
  alignments := 0

def twoMeasurements : List IoctlOp :=
  [.call ioctlXdmaPerfStart (.version perfVersion),.call ioctlXdmaPerfStart (.version perfVersion),
    .call ioctlXdmaPerfStop (.version perfVersion)]

theorem run_failsClean_two :
    Run (stepOf (ioctlNext ⟨false,false⟩)) wholeCall .fresh twoMeasurements
      (replay (ioctlNext ⟨false,false⟩) .fresh twoMeasurements) ∧
    Run (stepOf (ioctlNext ⟨false,false⟩)) (failsClean ⟨false,false⟩) .fresh twoMeasurements
      (replay (ioctlNext ⟨false,false⟩) .fresh twoMeasurements) := by
  have hwhole : Run (stepOf (ioctlNext ⟨false,false⟩)) wholeCall .fresh twoMeasurements
      (replay (ioctlNext ⟨false,false⟩) .fresh twoMeasurements) :=
    Run.labels (replay_run (by decide +kernel))
      (by simp [twoMeasurements, wholeCall, IoctlEnv.version])
  exact ⟨hwhole,(run_failsClean rfl rfl).mpr hwhole⟩

def unknownVersion : List IoctlOp :=
  [.call ioctlXdmaPerfStart (.version 2),.call ioctlXdmaPerfStart (.version perfVersion)]

/-- The block stays behind, and the second call finds the engine busy though nothing
is measured. -/
theorem unknownVersion_not :
    ∃ t, Run (stepOf (ioctlNext ⟨false,false⟩)) anyStep .fresh unknownVersion t ∧
      t.measuring = false ∧
      (∃ u, charSgdmaIoctl ⟨false,false⟩ t.engine ioctlXdmaPerfStart (.version perfVersion) =
        .ok (u,-eBusy,none)) ∧
      ¬ Run (stepOf (ioctlNext ⟨false,false⟩)) (failsClean ⟨false,false⟩) .fresh unknownVersion t := by
  refine ⟨_,replay_run (by decide),by decide,⟨_,rfl⟩,fun r => ?_⟩
  have hops : unknownVersion = ([] ++ [.call ioctlXdmaPerfStart (.version 2)]) ++
    [.call ioctlXdmaPerfStart (.version perfVersion)] := rfl
  rw [hops] at r
  obtain ⟨s,r,_,_⟩ := r.snoc_inv
  obtain ⟨s,r,hfirst,_⟩ := r.snoc_inv
  rw [r.nil_inv] at hfirst
  have hsame := (hfirst _ (-eInval) none rfl (by decide)).1.xdmaPerf
  cases hsame

end sequences

end DmaCamera
