import DmaCamera.Stream
set_option autoImplicit false

namespace DmaCamera

structure Undisturbed (s s' : StreamEngine) : Prop where
  unlocked : s'.locked = false
  rxHead : s'.engine.rxHead = s.engine.rxHead
  rxTail : s'.engine.rxTail = s.engine.rxTail
  rxOverrun : s'.engine.rxOverrun = s.engine.rxOverrun
  eopFound : s'.engine.eopFound = s.engine.eopFound
  userBufferIndex : s'.userBufferIndex = s.userBufferIndex
  rxBuffer : s'.rxBuffer = s.rxBuffer
  rxTransferCyclic : s'.engine.rxTransferCyclic = s.engine.rxTransferCyclic
  rxResultBufferVirt : s'.engine.rxResultBufferVirt = s.engine.rxResultBufferVirt

/-- Nothing for the setup to reset or to drop: an empty ring at the first slot, no
cyclic transfer and no results. -/
structure RingAtRest (s : StreamEngine) : Prop where
  rxHead : s.engine.rxHead = 0
  rxTail : s.engine.rxTail = 0
  rxOverrun : s.engine.rxOverrun = false
  eopFound : s.engine.eopFound = false
  userBufferIndex : s.userBufferIndex = 0
  rxTransferCyclic : s.engine.rxTransferCyclic = none
  rxResultBufferVirt : s.engine.rxResultBufferVirt = none

/-- No open device, memory for the buffer, and for the results too unless there is
nothing to disturb. -/
def failsQuietly (s : StreamEngine) (env : SetupEnv) : Prop :=
  s.rxBuffer = none ∧ env.rvmalloc.isSome = true ∧ (env.resultBuffer = none → RingAtRest s)

section setup

variable {p : Params} {s s' : StreamEngine} {env : SetupEnv} {rc : Int}

theorem lockRing_disturbs (s : StreamEngine) : ¬ Undisturbed s s.lockRing := by
  intro h
  cases h.unlocked

structure Unwound (s s' : StreamEngine) : Prop where
  unlocked : s'.locked = false
  userBufferIndex : s'.userBufferIndex = 0
  rxBuffer : s'.rxBuffer = none
  reset : s'.engine.rxHead = 0 ∧ s'.engine.rxTail = 0 ∧ s'.engine.rxOverrun = false ∧
    s'.engine.eopFound = false
  dropped : s'.engine.rxTransferCyclic = none ∧ s'.engine.rxResultBufferVirt = none

theorem Unwound.undisturbed_iff (h : Unwound s s') (hclosed : s.rxBuffer = none) :
    Undisturbed s s' ↔ RingAtRest s := by
  obtain ⟨hlock,hindex,hbuffer,⟨hhead,htail,hoverrun,heop⟩,hcyclic,hresult⟩ := h
  constructor
  · intro hu
    exact ⟨hu.rxHead.symm.trans hhead,hu.rxTail.symm.trans htail,hu.rxOverrun.symm.trans hoverrun,
      hu.eopFound.symm.trans heop,hu.userBufferIndex.symm.trans hindex,
      hu.rxTransferCyclic.symm.trans hcyclic,hu.rxResultBufferVirt.symm.trans hresult⟩
  · intro hr
    exact ⟨hlock,hhead.trans hr.rxHead.symm,htail.trans hr.rxTail.symm,
      hoverrun.trans hr.rxOverrun.symm,heop.trans hr.eopFound.symm,
      hindex.trans hr.userBufferIndex.symm,hbuffer.trans hclosed.symm,
      hcyclic.trans hr.rxTransferCyclic.symm,hresult.trans hr.rxResultBufferVirt.symm⟩

/-- How the locked part ends: two errors with the lock held, one unwound, or well. -/
inductive SetupEnd (s : StreamEngine) (env : SetupEnv) : StreamEngine → Int → Prop
  | busy (hbuf : s.rxBuffer.isSome = true) : SetupEnd s env s.lockRing (-eBusy)
  | noBuffer (hbuf : s.rxBuffer = none) (hnone : env.rvmalloc = none) :
      SetupEnd s env s.lockRing (-eNoMem)
  | noResults {s' : StreamEngine} (hbuf : s.rxBuffer = none) (hsome : env.rvmalloc.isSome = true)
      (hnone : env.resultBuffer = none) (hu : Unwound s s') : SetupEnd s env s' (-eNoMem)
  | done {s' : StreamEngine} (hbuf : s.rxBuffer = none) (hsome : env.rvmalloc.isSome = true)
      (hresults : env.resultBuffer.isSome = true) : SetupEnd s env s' 0

theorem setupLocked_ends (h : setupLocked s env = .ok (s',rc)) : SetupEnd s env s' rc := by
  unfold setupLocked at h
  split at h
  · rename_i hbuf
    cases h
    exact .busy hbuf
  · rename_i hbuf
    have hclosed : s.rxBuffer = none := by simpa using hbuf
    split at h
    · rename_i hnone
      cases h
      exact .noBuffer hclosed hnone
    · rename_i start hstart
      have hsome : env.rvmalloc.isSome = true := by rw [hstart]; rfl
      split at h
      · cases h
      · rename_i created _
        cases hres : env.resultBuffer with
        | none =>
          rw [hres, setupResults] at h
          dsimp only at h
          split at h
          · cases h
          · rename_i d hd
            cases h
            cases created with
            | none => cases hd
            | some x =>
              cases hd
              exact .noResults hclosed hsome hres ⟨rfl,rfl,rfl,⟨rfl,rfl,rfl,rfl⟩,rfl,rfl⟩
        | some results =>
          rw [hres, setupResults] at h
          dsimp only at h
          split at h
          · cases h
          · cases h
            exact .done hclosed hsome (by rw [hres]; rfl)

theorem cyclicTransferSetup_ends (h : s.cyclicTransferSetup p env = .ok (s',rc)) :
    (rc = 0 ∧ ∃ u, SetupEnd s env u 0) ∨ (rc ≠ 0 ∧ SetupEnd s env s' rc) := by
  unfold StreamEngine.cyclicTransferSetup at h
  split at h
  · cases h
  · rename_i u rc' hlocked
    have hend := setupLocked_ends hlocked
    split at h
    · rename_i hrc
      cases h
      exact Or.inr ⟨hrc,hend⟩
    · rename_i hrc
      obtain ⟨v,_,heq⟩ := Except.map_ok h
      cases heq
      rw [not_not.mp hrc] at hend
      exact Or.inl ⟨rfl,u,hend⟩

/-- An open that fails leaves the ring as it was and the lock free exactly if there
was no open device, the buffer could be allocated, and there was nothing to reset
or to drop if the results could not. -/
theorem cyclicTransferSetup_undisturbed (h : s.cyclicTransferSetup p env = .ok (s',rc)) :
    (rc ≠ 0 → Undisturbed s s') ↔ failsQuietly s env := by
  rcases cyclicTransferSetup_ends h with ⟨rfl,u,hend⟩ | ⟨hrc,hend⟩
  · refine iff_of_true (fun h0 => absurd rfl h0) ?_
    generalize hzero : (0 : Int) = rc₀ at hend
    cases hend with
    | busy | noBuffer | noResults => cases hzero
    | done hbuf hsome hresults =>
      refine ⟨hbuf,hsome,fun hnone => ?_⟩
      rw [hnone] at hresults
      cases hresults
  · cases hend with
    | busy hbuf =>
      refine iff_of_false (fun hu => lockRing_disturbs s (hu hrc)) fun hq => ?_
      rw [hq.1] at hbuf
      cases hbuf
    | noBuffer hbuf hnone =>
      refine iff_of_false (fun hu => lockRing_disturbs s (hu hrc)) fun hq => ?_
      have hsome := hq.2.1
      rw [hnone] at hsome
      cases hsome
    | noResults hbuf hsome hnone hu =>
      rw [failsQuietly, ← hu.undisturbed_iff hbuf]
      exact ⟨fun hq => ⟨hbuf,hsome,fun _ => hq hrc⟩,fun hq _ => hq.2.2 hnone⟩
    | done => exact absurd rfl hrc

theorem returned_ok {r : Except Fault (StreamEngine × Int)} {isOpen : Bool}
    (h : (r.toOption.map fun r => (r.2,r.1.rxBuffer.isSome)) = some (rc,isOpen)) :
    ∃ s, r = .ok (s,rc) ∧ s.rxBuffer.isSome = isOpen := by
  cases r with
  | error => cases h
  | ok r =>
    cases h
    exact ⟨r.1,rfl,rfl⟩

def SetupEnv.noResults : SetupEnv := { SetupEnv.ample with resultBuffer := none }

theorem cyclicTransferSetup_undisturbed_first : ∃ s',
    (StreamEngine.fresh ⟨false,false⟩).cyclicTransferSetup ⟨false,false⟩ .noResults =
      .ok (s',-eNoMem) ∧ Undisturbed (.fresh ⟨false,false⟩) s' := by
  obtain ⟨s',h,_⟩ := @returned_ok (-eNoMem) ((StreamEngine.fresh ⟨false,false⟩).cyclicTransferSetup
    ⟨false,false⟩ .noResults) false (by decide +kernel)
  have hquiet : failsQuietly (.fresh ⟨false,false⟩) .noResults :=
    ⟨rfl,rfl,fun _ => ⟨rfl,rfl,rfl,rfl,rfl,rfl,rfl⟩⟩
  exact ⟨s',h,(cyclicTransferSetup_undisturbed h).mpr hquiet (by decide)⟩

def headAtThree : ReadWrites := ⟨3,by decide,false,false,fun _ => ⟨0,0⟩,0,128⟩

theorem secondOpen_disturbs : ∃ s₁ s₂,
    (StreamEngine.fresh ⟨false,true⟩).cyclicTransferSetup ⟨false,true⟩ .ample = .ok (s₁,0) ∧
      (s₁.reads headAtThree).cyclicTransferSetup ⟨false,true⟩ .ample = .ok (s₂,-eBusy) ∧
      s₂.locked = true ∧ s₂.engine.rxHead = 0 ∧ ¬ Undisturbed (s₁.reads headAtThree) s₂ := by
  obtain ⟨s₁,h,hopen⟩ := @returned_ok 0 ((StreamEngine.fresh ⟨false,true⟩).cyclicTransferSetup
    ⟨false,true⟩ .ample) true (by decide +kernel)
  have hbuf : (s₁.reads headAtThree).rxBuffer.isSome = true := hopen
  refine ⟨s₁,(s₁.reads headAtThree).lockRing,h,?_,rfl,rfl,lockRing_disturbs _⟩
  rw [StreamEngine.cyclicTransferSetup, setupLocked, if_pos hbuf]
  rfl

end setup

end DmaCamera
