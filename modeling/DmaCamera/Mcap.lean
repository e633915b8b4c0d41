import DmaCamera.BitDevice
set_option autoImplicit false

namespace DmaCamera
open Calls Readers

/-! The configuration port of the PCIe block: requests to it are cleared by a bit, and what was
in its control register before is put back. -/

def mcapCtrlModeMask : U32 := 1 <<< 0
def mcapCtrlRegReadMask : U32 := 1 <<< 1
def mcapCtrlResetMask : U32 := 1 <<< 4
def mcapCtrlModResetMask : U32 := 1 <<< 5
def mcapCtrlInUseMask : U32 := 1 <<< 8
def mcapCtrlDesignSwitchMask : U32 := 1 <<< 12
def mcapCtrlDataRegProtMask : U32 := 1 <<< 16

def mcapStsErrMask : U32 := 1 <<< 0
def mcapStsEosMask : U32 := 1 <<< 1
def mcapStsRegReadCmpMask : U32 := 1 <<< 4
def mcapStsFifoOverflowMask : U32 := 1 <<< 8
def mcapStsCfgMcapReqMask : U32 := 1 <<< 24

def mcapLoopCount : Nat := 1000000
def emcapEosRetryCount : Nat := 10
def emcapEosLoopCount : Nat := 100
def emcapNoopVal : U32 := 0x2000000

def mcapReadControl : BitCall U32 := do
  let s ← get
  pure s.control

def mcapWriteControl (value : U32) : BitCall Unit :=
  modify fun s => { s with control := value, mcapWrites := s.mcapWrites ++ [(mcapControl,value)] }

def mcapWriteData (value : U32) : BitCall Unit :=
  modify fun s => { s with mcapWrites := s.mcapWrites ++ [(mcapData,value)] }

section mcap

variable (env : BitEnv)

def mcapReadStatus : BitCall U32 := do
  let s ← get
  modify fun s => { s with time := s.time+1 }
  pure (env.mcapReg s.time)

def isStatusSet (mask : U32) : BitCall Bool := do
  let status ← mcapReadStatus env
  pure (status.has mask)

def isControlSet (mask : U32) : BitCall Bool := do
  let control ← mcapReadControl
  pure (control.has mask)

/-- `do { if (!IsConfigureMCapReqSet) break; } while (loop--)`, with the value `loop` ends at. -/
def pollConfigure : Nat → BitCall Int
  | 0 => do
    let set ← isStatusSet env mcapStsCfgMcapReqMask
    if set = true then pure (-1) else pure 0
  | loop+1 => do
    let set ← isStatusSet env mcapStsCfgMcapReqMask
    if set = true then pollConfigure loop else pure ((loop+1 : Nat) : Int)

/-- Returns the error and the value to restore. -/
def mCapClearRequestByConfigure (loopCount : Nat) : BitCall (Int × U32) := do
  let restore ← mcapReadControl
  let set ← isStatusSet env mcapStsCfgMcapReqMask
  if set = true then do
    mcapWriteControl (restore ||| (mcapCtrlModeMask ||| mcapCtrlInUseMask))
    let loop ← pollConfigure env loopCount
    if loop = 0 then do
      mcapWriteControl restore
      pure (-eIo,restore)
    else pure (0,restore)
  else pure (0,restore)

end mcap

variable {env : BitEnv} {s : BitDev}

def BitEnv.requested (env : BitEnv) (s : BitDev) (i : Nat) : Bool :=
  (env.mcapReg (s.time+i)).has mcapStsCfgMcapReqMask

def BitDev.after (s : BitDev) (n : Nat) : BitDev := { s with time := s.time+n }

theorem isStatusSet_outcome (mask : U32) :
    (isStatusSet env mask).outcome s = (.ok ((env.mcapReg s.time).has mask),s.after 1) := rfl

theorem after_requested (n i : Nat) : env.requested (s.after n) i = env.requested s (n+i) := by
  rw [BitEnv.requested, BitEnv.requested, BitDev.after, Nat.add_assoc]

theorem pollConfigure_clears {loop i : Nat} (hi : i ≤ loop) (hclear : env.requested s i = false)
    (hset : ∀ j < i, env.requested s j = true) :
    (pollConfigure env loop).outcome s = (.ok ((loop-i : Nat) : Int),s.after (i+1)) := by
  induction loop generalizing s i with
  | zero =>
    obtain rfl : i = 0 := by omega
    have h0 : (env.mcapReg s.time).has mcapStsCfgMcapReqMask = false := hclear
    rw [pollConfigure, outcome_bind_ok (isStatusSet_outcome _), h0]
    rfl
  | succ loop ih =>
    cases i with
    | zero =>
      have h0 : (env.mcapReg s.time).has mcapStsCfgMcapReqMask = false := hclear
      rw [pollConfigure, outcome_bind_ok (isStatusSet_outcome _), h0]
      rfl
    | succ i =>
      have h0 : (env.mcapReg s.time).has mcapStsCfgMcapReqMask = true := hset 0 (by omega)
      have hrest := @ih (s.after 1) i (by omega) (by rwa [after_requested, Nat.add_comm])
        fun j hj => by rw [after_requested, Nat.add_comm]; exact hset _ (by omega)
      rw [pollConfigure, outcome_bind_ok (isStatusSet_outcome _), h0, if_pos rfl, hrest]
      simp [BitDev.after, Nat.add_comm, Nat.add_left_comm]

theorem pollConfigure_stays {loop : Nat} (hset : ∀ j ≤ loop, env.requested s j = true) :
    (pollConfigure env loop).outcome s = (.ok (-1),s.after (loop+1)) := by
  induction loop generalizing s with
  | zero =>
    have h0 : (env.mcapReg s.time).has mcapStsCfgMcapReqMask = true := hset 0 (by omega)
    rw [pollConfigure, outcome_bind_ok (isStatusSet_outcome _), h0]
    rfl
  | succ loop ih =>
    have h0 : (env.mcapReg s.time).has mcapStsCfgMcapReqMask = true := hset 0 (by omega)
    have hrest := @ih (s.after 1) fun j hj => by
      rw [after_requested, Nat.add_comm]; exact hset _ (by omega)
    rw [pollConfigure, outcome_bind_ok (isStatusSet_outcome _), h0, if_pos rfl, hrest]
    simp [BitDev.after, Nat.add_comm, Nat.add_left_comm]

def BitDev.configuring (s : BitDev) : BitDev :=
  { s.after 1 with
    control := s.control ||| (mcapCtrlModeMask ||| mcapCtrlInUseMask)
    mcapWrites := s.mcapWrites ++
      [(mcapControl,s.control ||| (mcapCtrlModeMask ||| mcapCtrlInUseMask))] }

theorem configuring_requested (i : Nat) : env.requested s.configuring i = env.requested s (i+1) := by
  rw [BitEnv.requested, BitEnv.requested, BitDev.configuring, BitDev.after, Nat.add_assoc,
    Nat.add_comm 1]

theorem mCapClearRequestByConfigure_clear {loopCount : Nat} (h : env.requested s 0 = false) :
    (mCapClearRequestByConfigure env loopCount).outcome s = (.ok (0,s.control),s.after 1) := by
  have h0 : (env.mcapReg s.time).has mcapStsCfgMcapReqMask = false := h
  have hread : mcapReadControl.outcome s = (.ok s.control,s) := rfl
  rw [mCapClearRequestByConfigure, outcome_bind_ok hread, outcome_bind_ok (isStatusSet_outcome _), h0]
  rfl

theorem mCapClearRequestByConfigure_set {loopCount : Nat} {loop : Int} {t : BitDev}
    (h : env.requested s 0 = true)
    (hpoll : (pollConfigure env loopCount).outcome s.configuring = (.ok loop,t)) :
    (mCapClearRequestByConfigure env loopCount).outcome s =
      if loop = 0 then (.ok (-eIo,s.control),{ t with
        control := s.control
        mcapWrites := t.mcapWrites ++ [(mcapControl,s.control)] })
      else (.ok (0,s.control),t) := by
  have h0 : (env.mcapReg s.time).has mcapStsCfgMcapReqMask = true := h
  have hread : mcapReadControl.outcome s = (.ok s.control,s) := rfl
  have hwrite : (mcapWriteControl (s.control ||| (mcapCtrlModeMask ||| mcapCtrlInUseMask))).outcome
      (s.after 1) = (.ok (),s.configuring) := rfl
  rw [mCapClearRequestByConfigure, outcome_bind_ok hread, outcome_bind_ok (isStatusSet_outcome _), h0,
    if_pos rfl, outcome_bind_ok hwrite, outcome_bind_ok hpoll]
  split
  · rfl
  · rfl

theorem configuring_time (n : Nat) : (s.configuring.after n).time-s.time-1 = n := by
  simp only [BitDev.after, BitDev.configuring]
  omega

/-- Poll `i` is the first to find the bit clear: in the last poll that comes to an error. -/
theorem mCapClearRequestByConfigure_clears {loopCount i : Nat} (h : env.requested s 0 = true)
    (hi : i ≤ loopCount) (hclear : env.requested s (i+1) = false)
    (hset : ∀ j < i, env.requested s (j+1) = true) :
    ∃ t, (mCapClearRequestByConfigure env loopCount).outcome s =
      (.ok (if i = loopCount then -eIo else 0,s.control),t) ∧ t.time-s.time-1 = i+1 := by
  have hpoll := @pollConfigure_clears env s.configuring loopCount i hi
    (by rw [configuring_requested]; exact hclear)
    fun j hj => by rw [configuring_requested]; exact hset j hj
  have hrun := mCapClearRequestByConfigure_set h hpoll
  by_cases hlast : i = loopCount
  · rw [if_pos (by omega)] at hrun
    rw [if_pos hlast]
    exact ⟨_,hrun,configuring_time (i+1)⟩
  · rw [if_neg (by omega)] at hrun
    rw [if_neg hlast]
    exact ⟨_,hrun,configuring_time (i+1)⟩

/-- The bit stays set: the counter runs past 0, and that is taken for success. -/
theorem mCapClearRequestByConfigure_stays {loopCount : Nat} (h : env.requested s 0 = true)
    (hset : ∀ j ≤ loopCount, env.requested s (j+1) = true) :
    ∃ t, (mCapClearRequestByConfigure env loopCount).outcome s = (.ok (0,s.control),t) ∧
      t.time-s.time-1 = loopCount+1 := by
  have hpoll := @pollConfigure_stays env s.configuring loopCount
    fun j hj => by rw [configuring_requested]; exact hset j hj
  have hrun := mCapClearRequestByConfigure_set h hpoll
  rw [if_neg (by decide)] at hrun
  exact ⟨_,hrun,configuring_time (loopCount+1)⟩

/-- The outcome goes by the last status that was read: 0 if the request bit is clear in it, and
an error with the control register put back if not. -/
def ByLastStatus (env : BitEnv) (s : BitDev) (rc : Int) (t : BitDev) : Prop :=
  if env.requested s (t.time-s.time-1) = false then rc = 0
  else rc = -eIo ∧ t.control = s.control ∧ t.mcapWrites.getLast? = some (mcapControl,s.control)

instance (env : BitEnv) (s : BitDev) (rc : Int) (t : BitDev) : Decidable (ByLastStatus env s rc t) :=
  inferInstanceAs (Decidable (if env.requested s (t.time-s.time-1) = false then rc = 0
    else rc = -eIo ∧ t.control = s.control ∧ t.mcapWrites.getLast? = some (mcapControl,s.control)))

/-- The outcome goes by the last status exactly if the request bit is clear at once, or before
the last retry. -/
theorem mCapClearRequestByConfigure_verdict (env : BitEnv) (s : BitDev) (loopCount : Nat) :
    ∃ rc restore t, (mCapClearRequestByConfigure env loopCount).outcome s = (.ok (rc,restore),t) ∧
      (ByLastStatus env s rc t ↔
        env.requested s 0 = false ∨ ∃ i < loopCount, env.requested s (i+1) = false) := by
  cases h0 : env.requested s 0 with
  | false =>
    refine ⟨_,_,_,mCapClearRequestByConfigure_clear h0,?_⟩
    simp [ByLastStatus, BitDev.after, h0]
  | true =>
    by_cases hclears : ∃ i, i ≤ loopCount ∧ env.requested s (i+1) = false
    · -- the first poll that finds the bit clear decides
      have hfind := Nat.find_spec hclears
      have hmin : ∀ j < Nat.find hclears, env.requested s (j+1) = true := by
        intro j hj
        rw [← Bool.not_eq_false]
        exact fun hclear => Nat.find_min hclears hj ⟨by omega,hclear⟩
      generalize Nat.find hclears = i at hfind hmin
      obtain ⟨hi,hclear⟩ := hfind
      obtain ⟨t,hrun,htime⟩ := mCapClearRequestByConfigure_clears h0 hi hclear hmin
      refine ⟨_,_,t,hrun,?_⟩
      rw [ByLastStatus, htime, if_pos hclear]
      by_cases hlast : i = loopCount
      · rw [if_pos hlast]
        constructor
        · exact fun h => absurd h (by decide)
        · rintro (h | ⟨j,hj,hjclear⟩)
          · cases h
          · rw [hmin j (by omega)] at hjclear
            cases hjclear
      · rw [if_neg hlast]
        exact ⟨fun _ => Or.inr ⟨i,by omega,hclear⟩,fun _ => rfl⟩
    · have hstays : ∀ j ≤ loopCount, env.requested s (j+1) = true := by
        intro j hj
        rw [← Bool.not_eq_false]
        exact fun hclear => hclears ⟨j,hj,hclear⟩
      obtain ⟨t,hrun,htime⟩ := mCapClearRequestByConfigure_stays h0 hstays
      refine ⟨_,_,t,hrun,?_⟩
      rw [ByLastStatus, htime, hstays loopCount (Nat.le_refl _), if_neg (by decide)]
      constructor
      · exact fun h => absurd h.1 (by decide)
      · rintro (h | ⟨i,hi,hclear⟩)
        · cases h
        · exact absurd ⟨i,Nat.le_of_lt hi,hclear⟩ hclears

def statusEnv (status : Nat → U32) : BitEnv where
  device := 0x8138
  userCharDev := true
  accessOkArg := true
  copyBase := none
  reg := fun _ _ => 0
  mcapReg := status
  kmallocBuffer := true
  kmallocString := fun _ => true
  kmallocClear := fun _ => true
  vmalloc := true
  copyBitstreamObj := some 0
  copyBinObj := none
  accessOk := fun _ _ => true
  user := fun _ => 0
  copyHeader := true
  copyChunk := fun _ => true
  copySecondary := true
  copyFreqScaling := none

def restingDev : BitDev := ⟨false,none,0,0x10000,[],[],[],0⟩

theorem lastRetry_bug :
    let clears := statusEnv fun t => if t < 3 then mcapStsCfgMcapReqMask else 0
    let stays := statusEnv fun _ => mcapStsCfgMcapReqMask
    (∃ t, (mCapClearRequestByConfigure clears 2).outcome restingDev = (.ok (-eIo,0x10000),t) ∧
      ¬ ByLastStatus clears restingDev (-eIo) t) ∧
    ∃ t, (mCapClearRequestByConfigure stays 2).outcome restingDev = (.ok (0,0x10000),t) ∧
      ¬ ByLastStatus stays restingDev 0 t := by
  refine ⟨⟨⟨false,none,0,0x10000,[],[],[(0x14,0x10101),(0x14,0x10000)],4⟩,?_,?_⟩,
    ⟨⟨false,none,0,0x10101,[],[],[(0x14,0x10101)],4⟩,?_,?_⟩⟩ <;> decide +kernel

end DmaCamera
