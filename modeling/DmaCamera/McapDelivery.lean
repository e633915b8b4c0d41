import DmaCamera.IcapDelivery
import DmaCamera.ControlIoctl
set_option autoImplicit false

namespace DmaCamera
open Calls Readers

variable {env : BitEnv} {s t u : BitDev}

/-- A part of a call that changes neither the gate nor the clear bitstream. -/
structure Aside (s t : BitDev) : Prop where
  gate : t.axiGateFrozen = s.axiGateFrozen
  stash : t.clearBitstream = s.clearBitstream
  length : t.clearBitstreamLength = s.clearBitstreamLength

theorem Aside.refl (s : BitDev) : Aside s s := ⟨rfl,rfl,rfl⟩

theorem Aside.trans (h : Aside s t) (h' : Aside t u) : Aside s u :=
  ⟨h'.gate.trans h.gate,h'.stash.trans h.stash,h'.length.trans h.length⟩

def BitEnv.status (env : BitEnv) (mask : U32) (time : Nat) : Bool := (env.mcapReg time).has mask

def BitEnv.pollsRequest (env : BitEnv) : Nat → Nat → Int × Nat
  | 0, time => (if env.status mcapStsCfgMcapReqMask time = true then -1 else 0,time+1)
  | loop+1, time =>
    if env.status mcapStsCfgMcapReqMask time = true then env.pollsRequest loop (time+1)
    else (((loop+1 : Nat) : Int),time+1)

def BitEnv.clearsRequest (env : BitEnv) (loopCount time : Nat) : Bool × Nat :=
  if env.status mcapStsCfgMcapReqMask time = true then
    ((env.pollsRequest loopCount (time+1)).1 != 0,(env.pollsRequest loopCount (time+1)).2)
  else (true,time+1)

def BitEnv.anyStatus (env : BitEnv) : List U32 → Nat → Bool
  | [], _ => false
  | mask :: rest, time => env.status mask time || env.anyStatus rest (time+1)

def BitEnv.setsUp (env : BitEnv) (time : Nat) : Bool :=
  (env.clearsRequest mcapLoopCount time).1 &&
    !env.anyStatus [mcapStsErrMask,mcapStsRegReadCmpMask,mcapStsFifoOverflowMask]
      (env.clearsRequest mcapLoopCount time).2

def BitDev.statusRead (s : BitDev) : BitDev := { s with time := s.time+1 }

theorem statusRead_aside (s : BitDev) : Aside s s.statusRead := ⟨rfl,rfl,rfl⟩

@[simp] theorem ends_isStatusSet {mask : U32} {Q : Bool → BitDev → Prop}
    {D : BitFault → BitDev → Prop} :
    Ends (isStatusSet env mask) s Q D ↔ Q (env.status mask s.time) s.statusRead := Iff.rfl

@[simp] theorem ends_isControlSet {mask : U32} {Q : Bool → BitDev → Prop}
    {D : BitFault → BitDev → Prop} :
    Ends (isControlSet mask) s Q D ↔ Q (s.control.has mask) s := Iff.rfl

@[simp] theorem ends_mcapReadControl {Q : U32 → BitDev → Prop} {D : BitFault → BitDev → Prop} :
    Ends mcapReadControl s Q D ↔ Q s.control s := Iff.rfl

@[simp] theorem ends_mcapReadStatus {Q : U32 → BitDev → Prop} {D : BitFault → BitDev → Prop} :
    Ends (mcapReadStatus env) s Q D ↔ Q (env.mcapReg s.time) s.statusRead := Iff.rfl

def BitDev.withControl (s : BitDev) (value : U32) : BitDev :=
  { s with control := value, mcapWrites := s.mcapWrites ++ [(mcapControl,value)] }

@[simp] theorem ends_mcapWriteControl {value : U32} {Q : Unit → BitDev → Prop}
    {D : BitFault → BitDev → Prop} :
    Ends (mcapWriteControl value) s Q D ↔ Q () (s.withControl value) := Iff.rfl

theorem withControl_aside (value : U32) : Aside s (s.withControl value) := ⟨rfl,rfl,rfl⟩

def BitDev.withData (s : BitDev) (value : U32) : BitDev :=
  { s with mcapWrites := s.mcapWrites ++ [(mcapData,value)] }

@[simp] theorem ends_mcapWriteData {value : U32} {Q : Unit → BitDev → Prop}
    {D : BitFault → BitDev → Prop} :
    Ends (mcapWriteData value) s Q D ↔ Q () (s.withData value) := Iff.rfl

theorem pollConfigure_ends (loop : Nat) : Ends (pollConfigure env loop) s
    (fun n t => (n,t.time) = env.pollsRequest loop s.time ∧ Aside s t) fun _ _ => False := by
  induction loop generalizing s with
  | zero =>
    rw [pollConfigure, ends_bind, ends_isStatusSet, ends_ite, BitEnv.pollsRequest]
    split
    · exact ⟨rfl,statusRead_aside s⟩
    · exact ⟨rfl,statusRead_aside s⟩
  | succ loop ih =>
    rw [pollConfigure, ends_bind, ends_isStatusSet, ends_ite, BitEnv.pollsRequest]
    split
    · exact (@ih s.statusRead).mono (fun n t h => ⟨h.1,(statusRead_aside s).trans h.2⟩)
        fun _ _ h => h
    · exact ⟨rfl,statusRead_aside s⟩

theorem mCapClearRequestByConfigure_ends (loopCount : Nat) :
    Ends (mCapClearRequestByConfigure env loopCount) s
      (fun r t => r.2 = s.control ∧ Aside s t ∧
        (decide (r.1 = 0),t.time) = env.clearsRequest loopCount s.time)
      fun _ _ => False := by
  rw [mCapClearRequestByConfigure, ends_bind, ends_mcapReadControl, ends_bind, ends_isStatusSet,
    BitEnv.clearsRequest, ends_ite]
  split
  · rename_i hset
    rw [ends_bind, ends_mcapWriteControl, ends_bind]
    have hstart : Aside s (s.statusRead.withControl
        (s.control ||| (mcapCtrlModeMask ||| mcapCtrlInUseMask))) :=
      (statusRead_aside s).trans (withControl_aside _)
    refine (pollConfigure_ends loopCount).mono (fun n t h => ?_) fun _ _ h => h
    obtain ⟨hpolls,haside⟩ := h
    have hpolls' : env.pollsRequest loopCount (s.time+1) = (n,t.time) := hpolls.symm
    rw [hpolls', ends_ite]
    split
    · rename_i hzero
      rw [ends_bind, ends_mcapWriteControl, ends_pure]
      refine ⟨rfl,(hstart.trans haside).trans (withControl_aside _),?_⟩
      rw [hzero]
      rfl
    · rename_i hne
      refine ⟨rfl,hstart.trans haside,?_⟩
      simp [hne]
  · exact ⟨rfl,statusRead_aside s,rfl⟩

theorem anyStatusSet_ends (masks : List U32) : Ends (anyStatusSet env masks) s
    (fun b t => Aside s t ∧ t.control = s.control ∧ b = env.anyStatus masks s.time)
    fun _ _ => False := by
  induction masks generalizing s with
  | nil => exact ⟨Aside.refl s,rfl,rfl⟩
  | cons mask rest ih =>
    rw [anyStatusSet, ends_bind, ends_isStatusSet, ends_ite, BitEnv.anyStatus]
    split
    · rename_i hset
      refine ⟨statusRead_aside s,rfl,?_⟩
      rw [hset, Bool.true_or]
    · rename_i hset
      refine (@ih s.statusRead).mono (fun b t h => ?_) fun _ _ h => h
      obtain ⟨haside,hcontrol,hb⟩ := h
      refine ⟨(statusRead_aside s).trans haside,hcontrol,?_⟩
      rw [hb, Bool.eq_false_iff.mpr hset, Bool.false_or]
      rfl

theorem bitstreamMcapSetup_ends (designSwitch : Bool) : Ends (bitstreamMcapSetup env designSwitch) s
    (fun r t => r.2 = s.control ∧ Aside s t ∧ (r.1 = 0 ↔ env.setsUp s.time = true))
    fun _ _ => False := by
  rw [bitstreamMcapSetup, ends_bind]
  refine (mCapClearRequestByConfigure_ends mcapLoopCount).mono (fun r t h => ?_) fun _ _ h => h
  obtain ⟨hrestore,haside,hclears⟩ := h
  rw [BitEnv.setsUp, ← hclears, ends_ite]
  split
  · rename_i hne
    exact ⟨hrestore,haside,by simp [hne]⟩
  · rename_i hzero
    rw [not_not] at hzero
    rw [ends_bind]
    refine (anyStatusSet_ends _).mono (fun b u h => ?_) fun _ _ h => h
    obtain ⟨haside',hcontrol,hb⟩ := h
    rw [ends_ite]
    split
    · rename_i hset
      rw [ends_bind, ends_mcapWriteControl, ends_pure, ← hb, hset]
      exact ⟨hrestore,(haside.trans haside').trans (withControl_aside _),by simp [eIo]⟩
    · rename_i hset
      rw [ends_bind, ends_mcapReadControl]
      dsimp only
      rw [ends_bind, ends_mcapWriteControl, ends_pure, ← hb]
      refine ⟨hrestore,(haside.trans haside').trans (withControl_aside _),?_⟩
      simpa [hzero] using hset

variable {word : Nat → Option U32}

theorem bitstreamMcapHelper_ends (n i : Nat) : Ends (bitstreamMcapHelper word n i) s
    (fun _ t => Spares s t ∧ ¬ Lacks word i n)
    (fun e t => Spares s t ∧ Lacks word i n ∧ e = .outside) := by
  induction n generalizing s i with
  | zero => exact ⟨Spares.refl s,fun ⟨_,hk,_⟩ => Nat.not_lt_zero _ hk⟩
  | succ n ih =>
    have hlacks : Lacks word i (n+1) ↔ word i = none ∨ Lacks word (i+1) n := by
      rw [Nat.add_comm n 1, lacks_add]
      refine or_congr_left ?_
      constructor
      · rintro ⟨k,hk,hnone⟩
        obtain rfl : k = 0 := by omega
        exact hnone
      · intro hnone
        exact ⟨0,Nat.one_pos,hnone⟩
    rw [hlacks, bitstreamMcapHelper]
    cases hword : word i with
    | none => exact ⟨Spares.refl s,Or.inl rfl,rfl⟩
    | some value =>
      have hfirst : Spares s (s.withData value) := ⟨rfl,rfl⟩
      dsimp only
      rw [ends_bind, ends_mcapWriteData]
      refine (ih (i+1)).mono (fun _ t h => ⟨hfirst.trans h.1,?_⟩) fun e t h =>
        ⟨hfirst.trans h.1,Or.inr h.2.1,h.2.2⟩
      rintro (h' | h')
      · cases h'
      · exact h.2 h'

inductive ClearMcapDies (env : BitEnv) (buffer : List Byte) (length : U32) : Prop where
  | header (stop : Stop HeaderFault) : bitstreamParseHeader env.kmallocClear buffer = .error stop →
      stop ≠ .refused .invalid → ClearMcapDies env buffer length
  | body (bitHeader : XHwIcapBitHeader) :
      bitstreamParseHeader env.kmallocClear buffer = .ok bitHeader →
      bitstreamFits bitHeader (length.setWidth 64) = true →
      Lacks (bufferStream buffer bitHeader.headerLength.toNat) 0
        (bitHeader.bitstreamLength.toNat/4) → ClearMcapDies env buffer length

theorem ClearMcapDies.invalid {buffer : List Byte} {length : U32}
    (hparse : bitstreamParseHeader env.kmallocClear buffer = .error (.refused .invalid)) :
    ¬ ClearMcapDies env buffer length := by
  rintro (⟨stop,h,hstop⟩ | ⟨f,h,_⟩)
  · rw [hparse] at h
    cases h
    exact hstop rfl
  · rw [hparse] at h
    cases h

theorem ClearMcapDies.parsed {buffer : List Byte} {length : U32} {bitHeader : XHwIcapBitHeader}
    (hparse : bitstreamParseHeader env.kmallocClear buffer = .ok bitHeader) :
    ClearMcapDies env buffer length ↔ bitstreamFits bitHeader (length.setWidth 64) = true ∧
      Lacks (bufferStream buffer bitHeader.headerLength.toNat) 0
        (bitHeader.bitstreamLength.toNat/4) := by
  constructor
  · rintro (⟨stop,h,hstop⟩ | ⟨f,h,hfits,hlacks⟩)
    · rw [hparse] at h
      cases h
    · rw [hparse] at h
      cases h
      exact ⟨hfits,hlacks⟩
  · exact fun ⟨hfits,hlacks⟩ => .body bitHeader hparse hfits hlacks

def StashDies (env : BitEnv) (s : BitDev) : Prop :=
  ∃ buffer, s.clearBitstream = some buffer ∧ ClearMcapDies env buffer s.clearBitstreamLength

theorem bitstreamClearMcap_ends : Ends (bitstreamClearMcap env) s
    (fun _ t => Spares s t ∧ ¬ StashDies env s)
    (fun e t => Spares s t ∧ StashDies env s ∧ e ≠ .gateFrozen ∧ e ≠ .gateNotFrozen) := by
  rw [bitstreamClearMcap, ends_bind, ends_get]
  cases hstash : s.clearBitstream with
  | none =>
    refine ⟨Spares.refl s,?_⟩
    rintro ⟨buffer,h,_⟩
    rw [hstash] at h
    cases h
  | some buffer =>
    have hdies : StashDies env s ↔ ClearMcapDies env buffer s.clearBitstreamLength := by
      constructor
      · rintro ⟨b,h,hd⟩
        rw [hstash] at h
        cases h
        exact hd
      · exact fun hd => ⟨buffer,hstash,hd⟩
    rw [hdies]
    dsimp only
    rw [ends_bind]
    refine (parseHeader_ends env.kmallocClear buffer).mono (fun header t h => ?_) fun e t h => ?_
    swap
    · obtain ⟨rfl,stop,rfl,hparse,hstop⟩ := h
      exact ⟨Spares.refl _,.header stop hparse hstop,by simp,by simp⟩
    obtain ⟨rfl,hsome,hnone⟩ := h
    cases header with
    | none => exact ⟨Spares.refl _,ClearMcapDies.invalid (hnone rfl)⟩
    | some bitHeader =>
      rw [ClearMcapDies.parsed (hsome bitHeader rfl)]
      dsimp only
      rw [ends_ite]
      split
      · rename_i hfits
        rw [ends_bind]
        refine (bitstreamMcapHelper_ends _ 0).mono (fun _ u h => ?_) fun e u h => ?_
        · exact ⟨⟨h.1.gate,h.1.control⟩,fun hlacks => h.2 hlacks.2⟩
        · exact ⟨h.1,⟨hfits,h.2.1⟩,by rw [h.2.2]; decide,by rw [h.2.2]; decide⟩
      · rename_i hfits
        exact ⟨Spares.refl _,fun h => hfits h.1⟩

theorem mcapBody_ends (bitBuf : U64) (c : Nat) (chunks : List Nat) :
    Ends (mcapBody (userChunk env bitBuf) c chunks) s (fun _ t => Spares s t) fun _ _ => False := by
  induction chunks generalizing s c with
  | nil => exact Spares.refl s
  | cons bytes rest ih =>
    rw [mcapBody, userChunk]
    by_cases hcopy : env.copyChunk c = true
    · rw [if_pos hcopy]
      dsimp only
      rw [ends_bind]
      refine (bitstreamMcapHelper_ends _ 0).mono (fun _ t h => ?_) fun e t h => ?_
      · exact (ih (c+1)).mono (fun _ u h' => h.1.trans h') fun _ _ h' => h'
      · obtain ⟨k,_,hk⟩ := h.2.1
        cases hk
    · rw [if_neg hcopy]
      exact Spares.refl s

theorem waitForEos_ends (retries : Nat) (sr : U32) :
    Ends (waitForEos env retries sr) s (fun _ t => Spares s t) fun _ _ => False := by
  induction retries generalizing s sr with
  | zero =>
    rw [waitForEos, ends_ite]
    split
    · exact Spares.refl s
    · rw [ends_bind, ends_modify, ends_bind, ends_mcapReadStatus]
      exact ⟨rfl,rfl⟩
  | succ retries ih =>
    rw [waitForEos, ends_ite]
    split
    · exact Spares.refl s
    · rw [ends_bind, ends_modify, ends_bind, ends_mcapReadStatus]
      exact (ih _).mono (fun _ t h => ⟨h.gate,h.control⟩) fun _ _ h => h

theorem downloadFailed_ends : Ends (downloadFailed env) s (fun _ t => Spares s t)
    fun _ _ => False := by
  rw [downloadFailed, checkforcompletion, bind_assoc, ends_bind, ends_mcapReadStatus, ends_bind]
  refine (waitForEos_ends _ _).mono (fun complete t h => ?_) fun _ _ h => h
  have hread : Spares s t := ⟨h.gate,h.control⟩
  rw [ends_ite]
  split
  · exact hread
  · exact (anyStatusSet_ends _).mono (fun _ u h' => hread.trans ⟨h'.1.gate,h'.2.1⟩) fun _ _ h' => h'

theorem mCapFullReset_ends : Ends (mCapFullReset env) s
    (fun _ t => t.axiGateFrozen = s.axiGateFrozen) fun _ _ => False := by
  rw [mCapFullReset, ends_bind]
  refine (mCapClearRequestByConfigure_ends mcapLoopCount).mono (fun r t h => ?_) fun _ _ h => h
  obtain ⟨_,haside,_⟩ := h
  rw [ends_ite]
  split
  · exact haside.gate
  · simp only [ends_bind, ends_mcapReadControl, ends_mcapWriteControl, ends_isStatusSet,
      ends_isControlSet]
    rw [ends_ite]
    split
    · exact haside.gate
    · exact haside.gate

theorem mcapWriteBitstream_ends (set : Int × U32) (bitBuf : U64) (bitHeader : XHwIcapBitHeader) :
    Ends (mcapWriteBitstream env set bitBuf bitHeader) s
      (fun _ t => t.axiGateFrozen = s.axiGateFrozen ∧ (set.1 = 0 → ¬ StashDies env s))
      (fun e t => t.axiGateFrozen = s.axiGateFrozen ∧ (set.1 = 0 ∧ StashDies env s) ∧
        e ≠ .gateFrozen ∧ e ≠ .gateNotFrozen) := by
  rw [mcapWriteBitstream, ends_ite]
  split
  · rename_i hne
    exact ⟨rfl,fun hzero => absurd hzero hne⟩
  rename_i hzero
  rw [not_not] at hzero
  rw [ends_bind]
  refine bitstreamClearMcap_ends.mono (fun cleared t h => ?_)
    fun e t h => ⟨h.1.gate,⟨hzero,h.2.1⟩,h.2.2⟩
  obtain ⟨hspares,hlives⟩ := h
  have hlives' : set.1 = 0 → ¬ StashDies env s := fun _ => hlives
  rw [ends_ite]
  split
  · exact ⟨hspares.gate,hlives'⟩
  rw [ends_bind]
  refine (mcapBody_ends _ 0 _).mono (fun copied u h => ?_) fun _ _ h => h.elim
  have hbody := hspares.trans h
  rw [ends_ite]
  split
  · exact ⟨hbody.gate,hlives'⟩
  rw [ends_bind]
  refine downloadFailed_ends.mono (fun failed v h => ?_) fun _ _ h => h.elim
  have hwaited := hbody.trans h
  rw [ends_ite]
  split
  · rw [ends_bind, ends_mcapWriteControl, ends_bind]
    exact mCapFullReset_ends.mono (fun _ w h => ⟨h.trans hwaited.gate,hlives'⟩) fun _ _ h => h.elim
  · exact ⟨hwaited.gate,hlives'⟩

def McapDies (env : BitEnv) (bitBuf length : U64) (s : BitDev) (time : Nat) : Prop :=
  PrimaryDies env bitBuf ∨
    (∃ f, Reaches env bitBuf length f) ∧ env.setsUp time = true ∧ StashDies env s

theorem mcapPrimary_ends (bitBuf length : U64) : Ends (mcapPrimary env bitBuf length) s
    (fun _ t => Spares s t ∧ ¬ McapDies env bitBuf length s s.time)
    (fun e t => t.axiGateFrozen = s.axiGateFrozen ∧ McapDies env bitBuf length s s.time ∧
      e ≠ .gateFrozen ∧ e ≠ .gateNotFrozen) := by
  refine behindHeader_ends (fun rc _ hlives hnone => ⟨Spares.refl s,?_⟩)
    (fun e hdies hfrozen hnot => ⟨rfl,Or.inl hdies,hfrozen,hnot⟩) fun f hf => ?_
  · rintro (h | ⟨⟨f,h⟩,_⟩)
    · exact hlives h
    · exact hnone f h
  have hdies : McapDies env bitBuf length s s.time ↔ env.setsUp s.time = true ∧ StashDies env s := by
    constructor
    · rintro (h | ⟨_,h⟩)
      · exact absurd h hf.lives
      · exact h
    · exact fun h => Or.inr ⟨⟨f,hf⟩,h⟩
  rw [hdies, ends_bind]
  refine (bitstreamMcapSetup_ends false).mono (fun set u h => ?_) fun _ _ h => h.elim
  obtain ⟨hrestore,haside,hsets⟩ := h
  have hstash : StashDies env u ↔ StashDies env s := by
    rw [StashDies, StashDies, haside.stash, haside.length]
  rw [ends_bind]
  refine (mcapWriteBitstream_ends set bitBuf f).mono (fun err v h => ?_) fun e v h => ?_
  · rw [ends_bind, ends_mcapWriteControl, ends_pure]
    refine ⟨⟨h.1.trans haside.gate,hrestore⟩,?_⟩
    rintro ⟨hsets',hstash'⟩
    exact h.2 (hsets.mpr hsets') (hstash.mpr hstash')
  · exact ⟨h.1.trans haside.gate,⟨hsets.mp h.2.1.1,hstash.mp h.2.1.2⟩,h.2.2⟩

/-- The control register is put back, and the gate is freed, whatever comes of the download. -/
theorem bitstreamIoctlMcap_ends (bitBuf length : U64) : Ends (bitstreamIoctlMcap env bitBuf length) s
    (fun _ t => t.control = s.control ∧
      (bitBuf = 0 ∨ length = 0 → t.axiGateFrozen = s.axiGateFrozen) ∧
      (¬ (bitBuf = 0 ∨ length = 0) → s.axiGateFrozen = false ∧ t.axiGateFrozen = false ∧
        ¬ McapDies env bitBuf length s (s.time+2)))
    (fun e t => ¬ (bitBuf = 0 ∨ length = 0) ∧ t.axiGateFrozen = true ∧
      if s.axiGateFrozen = true then e = .gateFrozen
      else McapDies env bitBuf length s (s.time+2) ∧ e ≠ .gateFrozen ∧ e ≠ .gateNotFrozen) := by
  rw [bitstreamIoctlMcap, ends_ite]
  split
  · rename_i hnull
    exact ⟨rfl,fun _ => rfl,fun h => absurd hnull h⟩
  rename_i hnull
  rw [ends_bind]
  refine freezeAXIGate_ends.mono (fun _ t h => ?_) fun e t h => ?_
  swap
  · obtain ⟨hfrozen,rfl,rfl⟩ := h
    exact ⟨hnull,hfrozen,by rw [if_pos hfrozen]⟩
  obtain ⟨hunfrozen,hmoved,htime⟩ := h
  have hdies : McapDies env bitBuf length t t.time ↔ McapDies env bitBuf length s (s.time+2) := by
    rw [McapDies, McapDies, htime, StashDies, StashDies, hmoved.stash.1, hmoved.stash.2]
  rw [ends_bind]
  refine (mcapPrimary_ends bitBuf length).mono (fun err u h => ?_) fun e u h => ?_
  · obtain ⟨hspares,hlives⟩ := h
    rw [ends_bind]
    refine freeAXIGate_ends.mono (fun _ v h => ?_) fun e v h => ?_
    · exact ⟨h.2.control.trans (hspares.control.trans hmoved.control),fun h => absurd h hnull,
        fun _ => ⟨hunfrozen,h.2.gate,fun hd => hlives (hdies.mpr hd)⟩⟩
    · have hgate := hspares.gate.trans hmoved.gate
      rw [h.1] at hgate
      cases hgate
  · obtain ⟨hgate,hdies',hne⟩ := h
    refine ⟨hnull,hgate.trans hmoved.gate,?_⟩
    rw [if_neg (by simp [hunfrozen])]
    exact ⟨hdies.mp hdies',hne⟩

end DmaCamera
