import DmaCamera.DownloadResult
import DmaCamera.McapDelivery
set_option autoImplicit false

namespace DmaCamera
open Calls Readers

/-! What the downloads through the MCAP write to its data register. -/

variable {env : BitEnv} {s t u : BitDev}

def BitDev.port (s : BitDev) : List U32 := (s.mcapWrites.filter fun x => x.1 = mcapData).map Prod.snd

/-- The data register is given some words; the clear bitstream is left alone. -/
structure Sends (ws : List U32) (s t : BitDev) : Prop where
  port : t.port = s.port ++ ws
  stash : t.clearBitstream = s.clearBitstream
  length : t.clearBitstreamLength = s.clearBitstreamLength

theorem Sends.refl (s : BitDev) : Sends [] s s := ⟨(List.append_nil _).symm,rfl,rfl⟩

theorem Sends.trans {ws ws' : List U32} (h : Sends ws s t) (h' : Sends ws' t u) :
    Sends (ws ++ ws') s u :=
  ⟨by rw [h'.port, h.port, List.append_assoc],h'.stash.trans h.stash,h'.length.trans h.length⟩

theorem Sends.quietly {ws : List U32} (h : Sends ws s t) (h' : Sends [] t u) : Sends ws s u := by
  have hboth := h.trans h'
  rwa [List.append_nil] at hboth

theorem sends_nil (hwrites : t.mcapWrites = s.mcapWrites) (hstash : t.clearBitstream = s.clearBitstream)
    (hlength : t.clearBitstreamLength = s.clearBitstreamLength) : Sends [] s t :=
  ⟨by rw [List.append_nil, BitDev.port, hwrites, BitDev.port],hstash,hlength⟩

theorem withControl_sends (value : U32) : Sends [] s (s.withControl value) := by
  refine ⟨?_,rfl,rfl⟩
  simp [BitDev.port, BitDev.withControl, mcapControl, mcapData]

theorem withData_sends (value : U32) : Sends [value] s (s.withData value) := by
  refine ⟨?_,rfl,rfl⟩
  simp [BitDev.port, BitDev.withData]

/-- Where it returns, nothing was sent. -/
def Silent {α : Type} (p : BitCall α) : Prop := ∀ s, Ends p s (fun _ t => Sends [] s t) fun _ _ => True

section silent

variable {α β : Type} {p : BitCall α} {f : α → BitCall β}

theorem Silent.bind (hp : Silent p) (hf : ∀ a, Silent (f a)) : Silent (p >>= f) := by
  intro s
  rw [ends_bind]
  exact (hp s).mono (fun a t h => (hf a t).mono (fun _ u h' => h.quietly h') fun _ _ h' => h')
    fun _ _ h => h

theorem silent_pure (a : α) : Silent (pure a) := Sends.refl

theorem Silent.ite {c : Prop} [Decidable c] {q : BitCall α} (hp : Silent p) (hq : Silent q) :
    Silent (if c then p else q) := by
  split
  · exact hp
  · exact hq

theorem silent_readRegister (offset : Nat) : Silent (readRegister env offset) :=
  fun _ => sends_nil rfl rfl rfl

theorem silent_writeRegister (value : U32) (offset : Nat) : Silent (writeRegister value offset) :=
  fun _ => sends_nil rfl rfl rfl

theorem silent_mcapReadControl : Silent mcapReadControl := fun s => Sends.refl s

theorem silent_mcapWriteControl (value : U32) : Silent (mcapWriteControl value) :=
  fun _ => withControl_sends value

theorem silent_isStatusSet (mask : U32) : Silent (isStatusSet env mask) :=
  fun _ => sends_nil rfl rfl rfl

theorem silent_isControlSet (mask : U32) : Silent (isControlSet mask) := fun s => Sends.refl s

theorem silent_pollConfigure (loop : Nat) : Silent (pollConfigure env loop) := by
  induction loop with
  | zero => exact (silent_isStatusSet _).bind fun _ => .ite (silent_pure _) (silent_pure _)
  | succ loop ih => exact (silent_isStatusSet _).bind fun _ => .ite ih (silent_pure _)

theorem silent_mCapClearRequestByConfigure (loopCount : Nat) :
    Silent (mCapClearRequestByConfigure env loopCount) :=
  silent_mcapReadControl.bind fun _ => (silent_isStatusSet _).bind fun _ => .ite
    ((silent_mcapWriteControl _).bind fun _ => (silent_pollConfigure _).bind fun _ =>
      .ite ((silent_mcapWriteControl _).bind fun _ => silent_pure _) (silent_pure _))
    (silent_pure _)

theorem silent_anyStatusSet (masks : List U32) : Silent (anyStatusSet env masks) := by
  induction masks with
  | nil => exact silent_pure _
  | cons mask rest ih => exact (silent_isStatusSet _).bind fun _ => .ite (silent_pure _) ih

theorem silent_bitstreamMcapSetup (designSwitch : Bool) :
    Silent (bitstreamMcapSetup env designSwitch) :=
  (silent_mCapClearRequestByConfigure _).bind fun _ => .ite (silent_pure _) <|
    (silent_anyStatusSet _).bind fun _ => .ite
      ((silent_mcapWriteControl _).bind fun _ => silent_pure _)
      (silent_mcapReadControl.bind fun _ => (silent_mcapWriteControl _).bind fun _ => silent_pure _)

theorem silent_mCapFullReset : Silent (mCapFullReset env) :=
  (silent_mCapClearRequestByConfigure _).bind fun _ => .ite (silent_pure _) <|
    silent_mcapReadControl.bind fun _ => (silent_mcapWriteControl _).bind fun _ =>
      (silent_isStatusSet _).bind fun _ => (silent_isControlSet _).bind fun _ =>
        (silent_isControlSet _).bind fun _ => (silent_mcapWriteControl _).bind fun _ =>
          .ite (silent_pure _) (silent_pure _)

theorem silent_pulseGate (w : U32) : Silent (pulseGate env w) :=
  (silent_readRegister _).bind fun _ => silent_writeRegister _ _

theorem silent_modify {g : BitDev → BitDev} (h : ∀ s, Sends [] s (g s)) : Silent (modify g) := h

theorem silent_freezeAXIGate : Silent (freezeAXIGate env) := by
  have hbody := (@silent_readRegister env axiGateOffsetRead).bind fun _ =>
    (silent_writeRegister 0 axiGateOffset).bind fun _ =>
      (@silent_readRegister env axiGateOffsetRead).bind fun _ =>
        silent_modify (g := fun s => { s with axiGateFrozen := true }) fun _ => sends_nil rfl rfl rfl
  intro s
  rw [freezeAXIGate, ends_bind, ends_get, ends_ite]
  split
  · trivial
  · exact hbody s

theorem silent_freeAXIGate : Silent (freeAXIGate env) := by
  have hbody := (@silent_pulseGate env 2).bind fun _ => (@silent_pulseGate env 0).bind
    fun _ => (@silent_pulseGate env 2).bind fun _ => (@silent_pulseGate env 3).bind
    fun _ => (@silent_readRegister env axiGateOffsetRead).bind fun _ =>
      silent_modify (g := fun s => { s with axiGateFrozen := false }) fun _ => sends_nil rfl rfl rfl
  intro s
  rw [freeAXIGate, ends_bind, ends_get, ends_ite]
  split
  · trivial
  · exact hbody s

end silent

section words

variable {word : Nat → Option U32}

theorem bitstreamMcapHelper_sends (n i : Nat) : Ends (bitstreamMcapHelper word n i) s
    (fun _ t => Sends (wordsOf word i n) s t ∧ t.time = s.time) fun _ _ => True := by
  induction n generalizing s i with
  | zero => exact ⟨Sends.refl s,rfl⟩
  | succ n ih =>
    rw [bitstreamMcapHelper]
    cases hword : word i with
    | none => trivial
    | some value =>
      have hfirst : wordsOf word i (n+1) = value :: wordsOf word (i+1) n := by
        rw [wordsOf, List.range'_succ, List.filterMap_cons, hword]
        rfl
      dsimp only
      rw [ends_bind, ends_mcapWriteData, hfirst]
      exact (ih (i+1)).mono (fun _ t h => ⟨(withData_sends value).trans h.1,h.2⟩) fun _ _ h => h

theorem mcapBody_sends {chunk : Nat → Option (Nat → Option U32)} {copied : Nat → Bool}
    {stream : Nat → Option U32} (hpieces : Pieces chunk copied stream) (c : Nat)
    (chunks : List Nat) (hfull : FullChunks chunks) : Ends (mcapBody chunk c chunks) s
      (fun all t => t.time = s.time ∧ ∃ n ≤ (chunks.map (·/4)).sum,
        (all = true → n = (chunks.map (·/4)).sum) ∧ Sends (wordsOf stream (256*c) n) s t)
      fun _ _ => True := by
  induction chunks generalizing s c with
  | nil => exact ⟨rfl,0,Nat.le_refl 0,fun _ => rfl,Sends.refl s⟩
  | cons bytes rest ih =>
    rw [mcapBody, hpieces c]
    by_cases hcopied : copied c = true
    · rw [if_pos hcopied]
      dsimp only
      rw [ends_bind]
      refine (bitstreamMcapHelper_sends _ 0).mono (fun _ t h => ?_) fun _ _ h => h
      have hchunk : wordsOf (fun i => stream (256*c+i)) 0 (bytes/4) =
          wordsOf stream (256*c) (bytes/4) := by
        rw [wordsOf, wordsOf, List.range'_eq_map_range, List.range'_eq_map_range, List.filterMap_map,
          List.filterMap_map]
        simp
      rw [hchunk] at h
      refine (ih (c+1) hfull.2).mono (fun all u h' => ?_) fun _ _ h => h
      obtain ⟨htime,n,hn,hall,hsends⟩ := h'
      have hnext : 256*(c+1) = 256*c+bytes/4 ∨ n = 0 := by
        rcases hfull.1 with rfl | rfl
        · exact Or.inr (Nat.le_zero.mp hn)
        · exact Or.inl (by omega)
      have hboth : wordsOf stream (256*c) (bytes/4) ++ wordsOf stream (256*(c+1)) n =
          wordsOf stream (256*c) (bytes/4+n) := by
        rw [wordsOf_add]
        rcases hnext with hnext | rfl
        · rw [hnext]
        · rfl
      refine ⟨htime.trans h.2,bytes/4+n,?_,fun hdone => ?_,?_⟩
      · rw [List.map_cons, List.sum_cons]
        omega
      · rw [List.map_cons, List.sum_cons, hall hdone]
      · rw [← hboth]
        exact h.1.trans hsends
    · rw [if_neg hcopied]
      exact ⟨rfl,0,Nat.zero_le _,by simp,Sends.refl s⟩

end words

def noops (k : Nat) : List U32 := List.replicate (emcapEosLoopCount*k) emcapNoopVal

theorem noops_add (j k : Nat) : noops j ++ noops k = noops (j+k) := by
  rw [noops, noops, noops, List.replicate_append_replicate, Nat.mul_add]

def BitDev.withNoops (s : BitDev) : BitDev :=
  { s with mcapWrites := s.mcapWrites ++ List.replicate emcapEosLoopCount (mcapData,emcapNoopVal) }

theorem withNoops_sends (s : BitDev) : Sends (noops 1) s s.withNoops.statusRead := by
  refine ⟨?_,rfl,rfl⟩
  simp [BitDev.port, BitDev.withNoops, BitDev.statusRead, noops]

def BitEnv.Completes (env : BitEnv) (start stop : Nat) : Prop :=
  ∃ n, start ≤ n ∧ stop = n+3 ∧ env.status mcapStsEosMask n = true ∧
    env.status mcapStsErrMask (n+1) = false ∧ env.status mcapStsFifoOverflowMask (n+2) = false

theorem waitForEos_sends (retries : Nat) (n : Nat) (htime : s.time = n+1) :
    Ends (waitForEos env retries (env.mcapReg n)) s
      (fun complete t => (∃ k ≤ retries+1, Sends (noops k) s t) ∧
        (complete = true → ∃ m, n ≤ m ∧ t.time = m+1 ∧ env.status mcapStsEosMask m = true))
      fun _ _ => False := by
  induction retries generalizing s n with
  | zero =>
    rw [waitForEos, ends_ite]
    split
    · rename_i hset
      exact ⟨⟨0,Nat.zero_le _,Sends.refl s⟩,fun _ => ⟨n,Nat.le_refl n,htime,hset⟩⟩
    · rw [ends_bind, ends_modify, ends_bind, ends_mcapReadStatus, ends_pure]
      exact ⟨⟨1,Nat.le_refl 1,withNoops_sends s⟩,by simp⟩
  | succ retries ih =>
    rw [waitForEos, ends_ite]
    split
    · rename_i hset
      exact ⟨⟨0,Nat.zero_le _,Sends.refl s⟩,fun _ => ⟨n,Nat.le_refl n,htime,hset⟩⟩
    · rw [ends_bind, ends_modify, ends_bind, ends_mcapReadStatus]
      dsimp only
      refine (@ih s.withNoops.statusRead s.time rfl).mono (fun complete t h => ?_) fun _ _ h => h
      obtain ⟨⟨k,hk,hsends⟩,hseen⟩ := h
      refine ⟨⟨1+k,by omega,?_⟩,fun hc => ?_⟩
      · rw [← noops_add]
        exact (withNoops_sends s).trans hsends
      · obtain ⟨m,hm,hrest⟩ := hseen hc
        exact ⟨m,by omega,hrest⟩

theorem downloadFailed_sends : Ends (downloadFailed env) s
    (fun failed t => (∃ k ≤ emcapEosRetryCount+1, Sends (noops k) s t) ∧
      (failed = false → env.Completes s.time t.time)) fun _ _ => False := by
  rw [downloadFailed, checkforcompletion, bind_assoc, ends_bind, ends_mcapReadStatus, ends_bind]
  refine (waitForEos_sends emcapEosRetryCount s.time rfl).mono (fun complete t h => ?_)
    fun _ _ h => h
  obtain ⟨⟨k,hk,hsends⟩,hseen⟩ := h
  have hread : Sends [] s s.statusRead := sends_nil rfl rfl rfl
  rw [ends_ite]
  split
  · exact ⟨⟨k,hk,hread.trans hsends⟩,by simp⟩
  rename_i hcomplete
  obtain ⟨m,hm,htime,heos⟩ := hseen (by simpa using hcomplete)
  rw [anyStatusSet, ends_bind, ends_isStatusSet, ends_ite]
  split
  · exact ⟨⟨k,hk,(hread.trans hsends).quietly (sends_nil rfl rfl rfl)⟩,by simp⟩
  rename_i herror
  rw [anyStatusSet, ends_bind, ends_isStatusSet, ends_ite]
  have hafter : Sends [] t t.statusRead.statusRead := sends_nil rfl rfl rfl
  split
  · exact ⟨⟨k,hk,(hread.trans hsends).quietly hafter⟩,by simp⟩
  rename_i hoverflow
  refine ⟨⟨k,hk,(hread.trans hsends).quietly hafter⟩,fun _ => ⟨m,hm,?_,heos,?_,?_⟩⟩
  · exact congrArg (·+2) htime
  · rw [← htime]
    simpa using herror
  · have hlast : t.statusRead.time = m+2 := congrArg (·+1) htime
    rw [← hlast]
    simpa using hoverflow

end DmaCamera
